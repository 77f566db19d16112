/-
PrototypeLisp.Proofs.Expr.Balance — reading faults and the balance of
parentheses.

The machine of `Nesting` agrees with the reader on faults too. Where the
reader misses a closing parenthesis, the machine has taken all tokens and has
forms open; every other fault of the reader stops the machine at one token
(`run_of_fault`). As the height of the machine's stack is the balance of
parentheses, the balance tells the faults apart: it is positive at the end of
a text that breaks off, and goes below zero where a closing parenthesis is
unexpected.
-/
import PrototypeLisp.Proofs.Expr.Nesting

namespace PrototypeLisp

/-- The balance of parentheses, by counting. -/
theorem opened_eq_count (tokens : List Token) :
    opened tokens = tokens.count .opening - tokens.count .closing := by
  induction tokens with
  | nil => rfl
  | cons token tokens ih =>
    rw [opened_cons, ih]
    cases token <;> simp [Token.opens] <;> omega

theorem opened_append (a b : List Token) : opened (a ++ b) = opened a + opened b := by
  induction a with
  | nil => simp
  | cons token a ih => rw [List.cons_append, opened_cons, opened_cons, ih, Int.add_assoc]

namespace Expr

theorem ofWord_error {word : List Char} {fault : ReadError} (h : ofWord word = .error fault) :
    fault = .numberOutOfRange := by
  unfold ofWord at h
  split at h
  · split at h
    · simp at h
    · exact (Except.error.inj h).symm
  · simp at h
  · simp at h

theorem ofItems_error {items : List Expr} {fault : ReadError} (h : ofItems items = .error fault) :
    fault = .emptyForm ∨ ∃ head, fault = .invalidHead head := by
  unfold ofItems at h
  split at h
  · exact .inl (Except.error.inj h).symm
  · simp at h
  · simp at h
  · exact .inr ⟨_, (Except.error.inj h).symm⟩

end Expr

namespace Reading

/-- A fault of the machine shows at one token. -/
theorem step_of_run_error {limit : Nat} {r : Reading} {tokens : List Token} {fault : ReadError}
    (h : run limit r tokens = .error fault) :
    ∃ before token after last, tokens = before ++ token :: after ∧
      run limit r before = .ok last ∧ step limit last token = .error fault := by
  induction tokens generalizing r with
  | nil => simp [run, pure, Except.pure] at h
  | cons token tokens ih =>
    cases hstep : step limit r token with
    | error fault' =>
      obtain rfl : fault' = fault := by simpa [run_cons, hstep, bind, Except.bind] using h
      exact ⟨[], token, tokens, r, rfl, rfl, hstep⟩
    | ok next =>
      have hrest : run limit next tokens = .error fault := by
        simpa [run_cons, hstep, bind, Except.bind] using h
      obtain ⟨before, other, after, last, rfl, hbefore, hother⟩ := ih hrest
      refine ⟨token :: before, other, after, last, rfl, ?_, hother⟩
      rw [run_cons, hstep]
      exact hbefore

/-- What the machine can be run on, it can be run on up to any token. -/
theorem run_prefix {limit : Nat} {r last : Reading} {tokens first : List Token}
    (h : run limit r tokens = .ok last) (hfirst : first <+: tokens) :
    ∃ mid, run limit r first = .ok mid := by
  obtain ⟨rest, rfl⟩ := hfirst
  rw [run_append] at h
  cases hmid : run limit r first with
  | error fault => simp [hmid, bind, Except.bind] at h
  | ok mid => exact ⟨mid, rfl⟩

/-- The faults of the machine, and where each of them shows. -/
theorem step_error {limit : Nat} {r : Reading} {token : Token} {fault : ReadError}
    (h : step limit r token = .error fault) :
    (token = .opening ∧ limit ≤ r.stack.length ∧ fault = .tooDeep) ∨
    (token = .closing ∧ r.stack = [] ∧ fault = .unexpectedClosing) ∨
    (token = .closing ∧ r.stack ≠ [] ∧
      (fault = .emptyForm ∨ ∃ head, fault = .invalidHead head)) ∨
    ((∃ text, token = .word text) ∧ fault = .numberOutOfRange) := by
  cases token with
  | opening =>
    simp only [step] at h
    split at h
    · simp at h
    · rename_i hfull
      obtain rfl := Except.error.inj h
      exact .inl ⟨rfl, Nat.le_of_not_lt hfull, rfl⟩
  | closing =>
    simp only [step] at h
    split at h
    · rename_i hstack
      obtain rfl := Except.error.inj h
      exact .inr (.inl ⟨rfl, hstack, rfl⟩)
    · rename_i items outer hstack
      cases hitems : Expr.ofItems items.reverse with
      | ok e => simp [hitems, Except.map] at h
      | error fault' =>
        obtain rfl : fault' = fault := by simpa [hitems, Except.map] using h
        exact .inr (.inr (.inl ⟨rfl, by simp [hstack], Expr.ofItems_error hitems⟩))
  | word text =>
    cases hword : Expr.ofWord text.toList with
    | ok e => simp [step, hword, Except.map] at h
    | error fault' =>
      obtain rfl : fault' = fault := by simpa [step, hword, Except.map] using h
      exact .inr (.inr (.inr ⟨⟨text, rfl⟩, Expr.ofWord_error hword⟩))

/-- The machine leaves it to its end to miss a closing parenthesis. -/
theorem run_ne_unmatchedOpening (limit : Nat) (r : Reading) (tokens : List Token) :
    run limit r tokens ≠ .error .unmatchedOpening := by
  intro h
  obtain ⟨before, token, after, last, -, -, hstep⟩ := step_of_run_error h
  have hcases := step_error hstep
  simp at hcases

/-- Where a closing parenthesis is unexpected, more parentheses are closed than
were open at the start. -/
theorem opened_of_run_unexpectedClosing {limit : Nat} {r : Reading} {tokens : List Token}
    (h : run limit r tokens = .error .unexpectedClosing) :
    ∃ first, first <+: tokens ∧ r.stack.length + opened first < 0 := by
  obtain ⟨before, token, after, last, rfl, hbefore, hstep⟩ := step_of_run_error h
  obtain ⟨rfl, hstack⟩ : token = .closing ∧ last.stack = [] := by simpa using step_error hstep
  refine ⟨before ++ [.closing], ⟨after, by simp⟩, ?_⟩
  have hheight := length_stack_run hbefore
  simp only [hstack, List.length_nil] at hheight
  simp only [opened_append, opened_cons, opened_nil, Token.opens]
  omega

end Reading

namespace Expr

open Reading

/-! ## Faults of the reader and the machine -/

/-- Where the reader fails inside a form, the machine fails in the same way; or
it has taken all tokens and has forms open, and the reader misses a closing
parenthesis. -/
theorem run_of_readForm_error {limit room : Nat} {outer : List (List Expr)}
    {items done : List Expr} {tokens rest : List Token} {fault : ReadError}
    (hroom : room + outer.length + 1 = limit)
    (h : readForm room outer items tokens = (.error fault, rest)) :
    run limit ⟨done, items :: outer⟩ tokens = .error fault ∨
      fault = .unmatchedOpening ∧
        ∃ last, run limit ⟨done, items :: outer⟩ tokens = .ok last ∧ last.stack ≠ [] := by
  fun_induction readForm room outer items tokens with
  | case1 room outer items =>
    obtain ⟨rfl, -⟩ : .unmatchedOpening = fault ∧ [] = rest := by simpa using h
    exact .inr ⟨rfl, ⟨done, items :: outer⟩, rfl, by simp⟩
  | case2 outer items tokens =>
    obtain ⟨rfl, -⟩ : .tooDeep = fault ∧ [] = rest := by simpa using h
    have hfull : ¬ (items :: outer).length < limit := by
      simp only [List.length_cons]
      omega
    rw [run_cons, step, if_neg hfull]
    exact .inl rfl
  | case3 outer items tokens room ih =>
    have hlt : (items :: outer).length < limit := by
      simp only [List.length_cons]
      omega
    rw [run_cons, step_opening hlt]
    exact ih (by simp only [List.length_cons]; omega) h
  | case4 room outer items tokens fault' hfault =>
    obtain ⟨rfl, -⟩ : fault' = fault ∧ tokens = rest := by simpa using h
    rw [run_cons, step_closing, hfault]
    exact .inl rfl
  | case5 => simp at h
  | case6 room items tokens built above outer hbuilt ih =>
    rw [run_cons, step_closing, hbuilt]
    exact ih (by simp only [List.length_cons] at hroom; omega) h
  | case7 room outer items text tokens fault' hfault =>
    obtain ⟨rfl, -⟩ : fault' = fault ∧ tokens = rest := by simpa using h
    rw [run_cons, step, hfault]
    exact .inl rfl
  | case8 room outer items text tokens item hitem ih =>
    rw [run_cons, step, hitem]
    exact ih hroom h

theorem run_of_read?_error {limit : Nat} {tokens rest : List Token} {fault : ReadError}
    (done : List Expr) (h : read? limit tokens = some (.error fault, rest)) :
    run limit ⟨done, []⟩ tokens = .error fault ∨
      fault = .unmatchedOpening ∧
        ∃ last, run limit ⟨done, []⟩ tokens = .ok last ∧ last.stack ≠ [] := by
  unfold read? at h
  split at h
  · simp at h
  · split at h
    · obtain ⟨rfl, -⟩ : .tooDeep = fault ∧ [] = rest := by simpa using h
      exact .inl rfl
    · rename_i room
      rw [run_cons, step_opening (Nat.succ_pos room)]
      exact run_of_readForm_error (by simp) (Option.some.inj h)
  · obtain ⟨rfl, -⟩ : .unexpectedClosing = fault ∧ _ = rest := by simpa using h
    exact .inl rfl
  · obtain ⟨hword, -⟩ := Prod.mk.inj (Option.some.inj h)
    rw [run_cons, step, hword]
    exact .inl rfl

/-- The fault that ends the reading of tokens is the fault of the machine,
unless it is a missing closing parenthesis: then the machine ends with forms
open. -/
theorem run_of_fault {limit : Nat} {tokens : List Token} {fault : ReadError} (done : List Expr)
    (h : (leading limit tokens).2 = some fault) :
    run limit ⟨done, []⟩ tokens = .error fault ∨
      fault = .unmatchedOpening ∧
        ∃ last, run limit ⟨done, []⟩ tokens = .ok last ∧ last.stack ≠ [] := by
  induction tokens using leading_induction limit generalizing done with
  | none tokens hread => simp [leading_of_none hread] at h
  | error tokens fault' rest hread =>
    obtain rfl : fault' = fault := by simpa [leading_of_error hread] using h
    exact run_of_read?_error done hread
  | ok tokens e rest hread ih =>
    rw [leading_of_ok hread] at h
    rw [run_of_read? done hread]
    exact ih (e :: done) h

/-! ## The balance of a text -/

/-- No beginning of tokens that can be read to their end closes more than it
opens. -/
theorem opened_prefix_of_leading {limit : Nat} {tokens first : List Token} {es : List Expr}
    (h : leading limit tokens = (es, none)) (hfirst : first <+: tokens) : 0 ≤ opened first := by
  have hrun : run limit ⟨[], []⟩ tokens = .ok ⟨es.reverse ++ [], []⟩ :=
    leading_iff_run.2 ⟨es, h, rfl⟩
  obtain ⟨mid, hmid⟩ := run_prefix hrun hfirst
  have hheight := length_stack_run hmid
  simp only [List.length_nil] at hheight
  omega

/-- Where a closing parenthesis is missing, the tokens open more than they
close. -/
theorem opened_of_unmatchedOpening {limit : Nat} {tokens : List Token}
    (h : (leading limit tokens).2 = some .unmatchedOpening) : 0 < opened tokens := by
  rcases run_of_fault [] h with hrun | ⟨-, last, hrun, hstack⟩
  · exact absurd hrun (run_ne_unmatchedOpening _ _ _)
  · have hheight := length_stack_run hrun
    have hpos := List.length_pos_iff.2 hstack
    simp only [List.length_nil] at hheight
    omega

/-- Where a closing parenthesis is unexpected, some beginning of the tokens
closes more than it opens. -/
theorem opened_prefix_of_unexpectedClosing {limit : Nat} {tokens : List Token}
    (h : (leading limit tokens).2 = some .unexpectedClosing) :
    ∃ first, first <+: tokens ∧ opened first < 0 := by
  rcases run_of_fault [] h with hrun | ⟨hfault, -⟩
  · simpa using opened_of_run_unexpectedClosing hrun
  · simp at hfault

end Expr

end PrototypeLisp
