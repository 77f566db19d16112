/-
PrototypeLisp.Proofs.Repl.Reports — what the prompt loop complains of.

Whatever the loop writes to the standard error is a log line or reports the
failure of a chunk (`err_of_play`). A chunk leaves no parenthesis open, and a
text that breaks off inside a form does, so the loop never misses a closing
parenthesis: what it evaluates is complete.

Messages are compared by what they begin with: the beginning is fixed where
names or texts follow.
-/
import PrototypeLisp.Proofs.Eval.Compositional
import PrototypeLisp.Proofs.Expr.Balance
import PrototypeLisp.Proofs.Repl.Chunks
import PrototypeLisp.Proofs.Session.Text

namespace PrototypeLisp

/-! ## Messages -/

theorem isPrefix_of_append_eq {a s b : String} (h : a ++ s = b) : a.toList <+: b.toList :=
  ⟨s.toList, by rw [← h, String.toList_append]⟩

namespace ReadError

theorem message_invalidHead (head : Expr) : (invalidHead head).message =
    "Invalid form head " ++ (head.text ++ ", expected a name or a form") :=
  String.append_assoc ..

/-- Messages tell faults apart; only the one about the head of a form has a
text that varies. -/
theorem eq_of_message_eq {fault other : ReadError} (hother : ∀ head, other ≠ .invalidHead head)
    (h : fault.message = other.message) : fault = other := by
  cases other with
  | invalidHead head => exact absurd rfl (hother head)
  | _ =>
    cases fault with
    | invalidHead head =>
      rw [message_invalidHead] at h
      exact absurd (isPrefix_of_append_eq h) (by decide)
    | _ => first | rfl | exact absurd h (by decide)

end ReadError

namespace Failure

theorem exists_of_kind?_parse {failure : Failure} (h : failure.kind? = some .parse) :
    ∃ fault, failure = .read fault := by
  cases failure with
  | read fault => exact ⟨fault, rfl⟩
  | eval error =>
    cases error with
    | form fault => cases fault <;> simp [kind?, EvalError.kind] at h
    | _ => simp [kind?, EvalError.kind] at h
  | _ => simp [kind?] at h

/-- Only a missing closing parenthesis is reported as such. -/
theorem eq_of_report?_unmatched {failure : Failure}
    (h : failure.report? = some "error: ParseError: Unmatched '('") :
    failure = .read .unmatchedOpening := by
  unfold report? at h
  split at h
  · rename_i kind hkind
    have hline := Option.some.inj h
    have hparse : kind = .parse := by
      have hbegins := isPrefix_of_append_eq hline
      revert hbegins
      cases kind with
      | parse => exact fun _ => rfl
      | _ => decide
    subst hparse
    obtain ⟨fault, rfl⟩ := exists_of_kind?_parse hkind
    have hmessage : "error: ParseError: " ++ fault.message =
        "error: ParseError: " ++ ReadError.unmatchedOpening.message := hline
    rw [ReadError.eq_of_message_eq (by simp) ((String.append_right_inj _).1 hmessage)]
  · exact absurd h (by decide)
  · exact absurd h (by decide)
  · rename_i path fault _
    have hline : "error: " ++ (fault.message ++ ": " ++ Text.quote path) =
        "error: ParseError: Unmatched '('" := Option.some.inj h
    rw [String.append_assoc, ← String.append_assoc] at hline
    exfalso
    have hbegins := isPrefix_of_append_eq hline
    revert hbegins
    cases fault <;> decide
  · simp at h

end Failure

/-! ## Failures of a text -/

/-- A reading fault of a session is the fault that ends its text. -/
theorem Session.leading_of_evalText_read {limit : Nat} {source : String} {s t : Store}
    {fault : ReadError} (h : evalText limit source s = .error (.read fault) t) :
    (Expr.leading limit (lex source)).2 = some fault := by
  rw [evalText, evalTokens_eq, Eval.bind_apply] at h
  cases hblock : Eval.evalBlock (eval limit) Heap.root .null
      (Expr.leading limit (lex source)).1 s with
  | error failure u =>
    -- evaluation itself fails in other ways
    obtain ⟨rfl, -⟩ : failure = .read fault ∧ u = t := by simpa [hblock] using h
    have hinherited := Eval.compositional_failsInEvaluation
    exact absurd (hinherited.evalBlock (hinherited.eval limit) _ _ _ s _ u hblock) id
  | ok value u =>
    cases hfault : (Expr.leading limit (lex source)).2 with
    | none => simp [hblock, hfault, finish] at h
    | some fault' =>
      obtain ⟨rfl, -⟩ : fault' = fault ∧ u = t := by simpa [hblock, hfault, finish] using h
      rfl

namespace Repl

/-! ## The standard error -/

/-- A chunk that is evaluated writes log lines and the report of its failure to
the standard error. -/
theorem err_of_submit {limit : Nat} {verbose : Bool} {store : Store} {source line : String}
    (h : .err line ∈ (submit limit verbose store source).outputs) :
    (∃ event : Event, line = event.line ++ "\n") ∨
      ∃ failure t report, Session.evalText limit source store = .error failure t ∧
        failure.report? = some report ∧ line = report ++ "\n" := by
  unfold submit at h
  split at h
  · rename_i value t hrun
    exact .inl (Store.eq_of_mem_log (s := t) (by simpa using h)).2
  · rename_i failure t hrun
    split at h
    · rename_i report hreport
      rcases List.mem_append.1 h with hmem | hmem
      · exact .inl (Store.eq_of_mem_log hmem).2
      · exact .inr ⟨failure, t, report, hrun, hreport, by simpa using hmem⟩
    · exact .inl (Store.eq_of_mem_log h).2

/-- What chunks write to the standard error is written when one of them is
evaluated. -/
theorem err_of_play {limit : Nat} {verbose : Bool} {tail : List String} {store : Store}
    {chunks : List (List String)} {line : String}
    (h : .err line ∈ (play limit verbose tail store chunks).outputs) :
    ∃ chunk ∈ chunks, ∃ s, .err line ∈ (submit limit verbose s (String.join chunk)).outputs := by
  induction chunks generalizing store with
  | nil => simp [play, Turn.after, err_not_mem_prompts] at h
  | cons chunk chunks ih =>
    have hhere : .err line ∈ (playChunk limit verbose store chunk).outputs →
        .err line ∈ (submit limit verbose store (String.join chunk)).outputs := by
      intro hmem
      unfold playChunk at hmem
      split at hmem
      · simp [Turn.after, err_not_mem_prompts] at hmem
      · simpa [Turn.after, err_not_mem_prompts] using hmem
    rw [play] at h
    split at h
    · exact ⟨chunk, by simp, store, hhere h⟩
    · rcases List.mem_append.1 h with hmem | hmem
      · exact ⟨chunk, by simp, store, hhere hmem⟩
      · obtain ⟨other, hother, s, hs⟩ := ih hmem
        exact ⟨other, List.mem_cons_of_mem _ hother, s, hs⟩

/-- Evaluating a chunk that leaves no parenthesis open never misses a closing
one. -/
theorem evalText_ne_unmatchedOpening {source : String} (h : depth source ≤ 0) (limit : Nat)
    (s t : Store) : Session.evalText limit source s ≠ .error (.read .unmatchedOpening) t := by
  intro hrun
  have hfault := Session.leading_of_evalText_read hrun
  have hopen := Expr.opened_of_unmatchedOpening hfault
  rw [← depth_eq] at hopen
  omega

/-- Reading and counting parentheses agree. A text that can be read is balanced
and never closes more than it has opened; one that breaks off inside a form
leaves a parenthesis open; in one with an unexpected closing parenthesis some
beginning closes more than it opens. So the chunks that the prompt loop
evaluates are complete, and it never reports a missing closing parenthesis. -/
theorem parentheses_agree (limit : Nat) :
    (∀ source : String,
      (∀ es, Expr.parseAll limit source = .ok es → depth source = 0 ∧
        ∀ first, first <+: lex source → first.count .closing ≤ first.count .opening) ∧
      ∀ fault, Expr.parseAll limit source = .error fault →
        (fault.message = "Unmatched '('" → 0 < depth source) ∧
        (fault.message = "Unexpected ')'" →
          ∃ first, first <+: lex source ∧ first.count .opening < first.count .closing)) ∧
    ∀ (verbose : Bool) (store : Store) (text : String), ∃ chunks tail,
      chunks.flatten ++ tail = lines text ∧
      run limit verbose ⟨store, ""⟩ (lines text) = play limit verbose tail store chunks ∧
      (∀ chunk ∈ chunks, ∀ s t,
        Session.evalText limit (String.join chunk) s ≠ .error (.read .unmatchedOpening) t) ∧
      .err "error: ParseError: Unmatched '('\n" ∉
        (run limit verbose ⟨store, ""⟩ (lines text)).outputs := by
  refine ⟨fun source => ⟨fun es hes => ?_, fun fault hfault => ⟨fun hmessage => ?_,
    fun hmessage => ?_⟩⟩, fun verbose store text => ?_⟩
  · have hleading := Expr.parseAll_eq_ok_iff_leading.1 hes
    refine ⟨by rw [depth_eq, Expr.opened_of_leading hleading], fun first hfirst => ?_⟩
    have hopened := Expr.opened_prefix_of_leading hleading hfirst
    rw [opened_eq_count] at hopened
    omega
  · obtain rfl : fault = .unmatchedOpening := ReadError.eq_of_message_eq (by simp) hmessage
    have hleading := Expr.parseAll_eq_error_iff.1 hfault
    rw [depth_eq]
    exact Expr.opened_of_unmatchedOpening hleading
  · obtain rfl : fault = .unexpectedClosing := ReadError.eq_of_message_eq (by simp) hmessage
    have hleading := Expr.parseAll_eq_error_iff.1 hfault
    obtain ⟨first, hfirst, hopened⟩ := Expr.opened_prefix_of_unexpectedClosing hleading
    rw [opened_eq_count] at hopened
    exact ⟨first, hfirst, by omega⟩
  · have hchunks := shortest_chunksFrom unfinished_nil (lines text)
    have hcomplete : ∀ chunk ∈ (chunksFrom [] (lines text)).1, ∀ s t,
        Session.evalText limit (String.join chunk) s ≠ .error (.read .unmatchedOpening) t :=
      fun chunk hchunk => evalText_ne_unmatchedOpening (hchunks chunk hchunk).closed limit
    have hplay : run limit verbose ⟨store, ""⟩ (lines text) =
        play limit verbose (chunksFrom [] (lines text)).2 store (chunksFrom [] (lines text)).1 :=
      run_eq_play unfinished_nil limit verbose store (lines text)
    refine ⟨_, _, flatten_chunksFrom [] (lines text), hplay, hcomplete, fun hmem => ?_⟩
    rw [hplay] at hmem
    obtain ⟨chunk, hchunk, s, hs⟩ := err_of_play hmem
    rcases err_of_submit hs with ⟨event, hline⟩ | ⟨failure, t, report, hrun, hreport, hline⟩
    · have hlog : "DEBUG " ++ (event.origin ++ ": " ++ event.message ++ "\n") =
          "error: ParseError: Unmatched '('\n" := by
        rw [hline, Event.line]
        simp only [String.append_assoc]
      exact absurd (isPrefix_of_append_eq hlog) (by decide)
    · have hsame : "error: ParseError: Unmatched '('" ++ "\n" = report ++ "\n" := hline
      rw [← (String.append_left_inj _).1 hsame] at hreport
      obtain rfl := Failure.eq_of_report?_unmatched hreport
      exact hcomplete chunk hchunk s t hrun

/-- A line that is balanced on the whole but closes too early, and one that is
never finished. -/
def strayLines : String :=
  "1) (+ 2\n(+ 1\n"

/-- The first of these lines is complained of, the second one is not. -/
theorem parentheses_agree_stray :
    (∃ fault, Expr.parseAll 9 "1) (+ 2" = .error fault ∧ fault.message = "Unexpected ')'") ∧
      (∃ first, first <+: lex "1) (+ 2" ∧ first.count .opening < first.count .closing) ∧
      (∃ fault, Expr.parseAll 9 "(+ 1" = .error fault ∧ fault.message = "Unmatched '('") ∧
      0 < depth "(+ 1" ∧
      (run 9 false ⟨Session.initial, ""⟩ (lines strayLines)).outputs =
        [.out "> ", .err "error: ParseError: Unexpected ')'\n", .out "> ", .out ". ", .out "\n"] ∧
      .err "error: ParseError: Unmatched '('\n" ∉
        (run 9 false ⟨Session.initial, ""⟩ (lines strayLines)).outputs := by
  have hstray : Expr.parseAll 9 "1) (+ 2" = .error .unexpectedClosing := by
    have hcheck : (match Expr.parseAll 9 "1) (+ 2" with
        | .error .unexpectedClosing => true
        | _ => false) = true := by decide +kernel
    split at hcheck
    · assumption
    · simp at hcheck
  have hcut : Expr.parseAll 9 "(+ 1" = .error .unmatchedOpening := by
    have hcheck : (match Expr.parseAll 9 "(+ 1" with
        | .error .unmatchedOpening => true
        | _ => false) = true := by decide +kernel
    split at hcheck
    · assumption
    · simp at hcheck
  obtain ⟨htexts, hloop⟩ := parentheses_agree 9
  obtain ⟨chunks, tail, -, -, -, hnever⟩ := hloop false Session.initial strayLines
  exact ⟨⟨_, hstray, rfl⟩, ((htexts "1) (+ 2").2 _ hstray).2 rfl, ⟨_, hcut, rfl⟩,
    ((htexts "(+ 1").2 _ hcut).1 rfl, by decide +kernel, hnever⟩

end Repl

end PrototypeLisp
