/-
PrototypeLisp.Proofs.Repl.Batch — the prompt loop agrees with batch evaluation.

When a text can be evaluated as a whole, the chunks that the prompt loop makes
of its lines end where expressions end: a chunk leaves no parenthesis open, and
neither does the text. So the loop evaluates the same expressions in the same
order, chunk by chunk, and ends with the same heap. What it prints is fixed by
`Answers`: for each chunk that is not blank the value of its last expression.

The two differ in the log only, which the loop shows and empties after every
chunk. Evaluation does not look at it.

Both sides are given the same stack. Neither the precision of the exact context
nor the memory of the host is modelled (see `Decimal.Basic`), so that one side
might run out of them before the other is left out.
-/
import PrototypeLisp.Proofs.Eval.Events
import PrototypeLisp.Proofs.Expr.Nesting
import PrototypeLisp.Proofs.Repl.Chunks
import PrototypeLisp.Proofs.Session.Text

namespace PrototypeLisp

open Heap

/-! ## What the loop prints -/

namespace Repl

/-- What the loop prints for chunks that can be evaluated, one after the other
from the first store to the last: the prompts of each chunk and, unless it is
blank, the value of its last expression, null if it has none. -/
inductive Answers (limit : Nat) (verbose : Bool) :
    Store → List (List String) → List Output → Store → Prop where
  | done (s : Store) : Answers limit verbose s [] [] s
  | skipped {chunk : List String} {chunks : List (List String)} {outputs : List Output}
      {s t : Store} (hblank : Blank chunk) (h : Answers limit verbose s chunks outputs t) :
      Answers limit verbose s (chunk :: chunks) (prompts chunk ++ outputs) t
  | submitted {chunk : List String} {chunks : List (List String)} {outputs : List Output}
      {s u t : Store} {es : List Expr} {values : List Value} (hblank : ¬ Blank chunk)
      (hparse : Expr.parseAll limit (String.join chunk) = .ok es)
      (heval : Eval.evalAll (eval limit) root es s = .ok values u)
      (h : Answers limit verbose u.quiet chunks outputs t) :
      Answers limit verbose s (chunk :: chunks) (prompts chunk ++ (u.log verbose ++
        .out (u.heap.text (values.getLastD .null) ++ "\n") :: outputs)) t

/-- Nothing but log lines goes to the standard error. -/
theorem Answers.err {limit : Nat} {verbose : Bool} {s t : Store} {chunks : List (List String)}
    {outputs : List Output} (h : Answers limit verbose s chunks outputs t) {text : String}
    (herr : .err text ∈ outputs) : verbose = true ∧ ∃ event : Event, text = event.line ++ "\n" := by
  induction h with
  | done s => simp at herr
  | skipped _ _ ih => exact ih ((List.mem_append.1 herr).resolve_left (err_not_mem_prompts _ _))
  | @submitted chunk chunks outputs s u t es values _ _ _ _ ih =>
    replace herr := (List.mem_append.1 herr).resolve_left (err_not_mem_prompts _ _)
    rcases List.mem_append.1 herr with hlog | hrest
    · exact Store.eq_of_mem_log hlog
    · exact ih (by simpa using hrest)

/-! ## The loop and the batch -/

/-- A text that can be read to its end has no unfinished tail. -/
theorem eq_nil_of_leading {limit : Nat} {tail : List String} (htail : Unfinished tail)
    {es : List Expr} (h : Expr.leading limit (lex (String.join tail)) = (es, none)) :
    tail = [] := by
  refine Classical.byContradiction fun hne => ?_
  have hopen := htail tail hne (List.prefix_refl _)
  rw [depth_eq, Expr.opened_of_leading h] at hopen
  exact absurd hopen (Int.lt_irrefl 0)

/-- A chunk whose expressions can be evaluated, as the loop plays it: it ends
with the heap that evaluating the expressions ends with. -/
theorem playChunk_of_evalAll {limit : Nat} {store u : Store} {chunk : List String}
    {es : List Expr} {values : List Value} (hblank : ¬ Blank chunk)
    (hread : Expr.leading limit (lex (String.join chunk)) = (es, none))
    (heval : Eval.evalAll (eval limit) root es store = .ok values u) (verbose : Bool) :
    playChunk limit verbose store chunk = ⟨prompts chunk ++ (u.log verbose ++
      [.out (u.heap.text (values.getLastD .null) ++ "\n")]), ⟨u.quiet, ""⟩, none⟩ := by
  have htext : Session.evalText limit (String.join chunk) store =
      .ok (values.getLastD .null) u :=
    Session.evalText_eq_ok_iff.2 ⟨es, values, hread, heval, rfl⟩
  rw [playChunk, if_neg hblank, submit, htext]
  rfl

/-- If the lines can be read and evaluated together, from a store with the
same heap, the loop evaluates them chunk by chunk with the same effect. -/
theorem play_of_evalAll {limit : Nat} {verbose : Bool} {chunks : List (List String)}
    {tail : List String} {es : List Expr} {values : List Value} {batch t store : Store}
    (hlines : ∀ before after, chunks.flatten ++ tail = before ++ after → after ≠ [] →
      ∀ line ∈ before, Terminated line)
    (hchunks : ∀ chunk ∈ chunks, Shortest chunk) (htail : Unfinished tail)
    (hread : Expr.leading limit (lex (String.join (chunks.flatten ++ tail))) = (es, none))
    (heval : Eval.evalAll (eval limit) root es batch = .ok values t)
    (hheap : store.heap = batch.heap) :
    tail = [] ∧ ∃ outputs last, Answers limit verbose store chunks outputs last ∧
      last.heap = t.heap ∧ play limit verbose tail store chunks =
        ⟨outputs ++ [.out "> ", .out "\n"], ⟨last, ""⟩, none⟩ := by
  induction chunks generalizing es values batch store with
  | nil =>
    obtain rfl := eq_nil_of_leading htail hread
    obtain rfl : [] = es := by
      rw [Expr.leading_of_none (by rfl)] at hread
      exact (Prod.mk.inj hread).1
    obtain ⟨-, rfl⟩ : [] = values ∧ batch = t := by
      simpa [Eval.evalAll] using heval
    exact ⟨rfl, [], store, .done store, hheap, rfl⟩
  | cons chunk chunks ih =>
    have hlines' : ∀ before after, chunks.flatten ++ tail = before ++ after → after ≠ [] →
        ∀ line ∈ before, Terminated line := by
      intro before after hcut hne line hline
      exact hlines (chunk ++ before) after (by simp [hcut]) hne line
        (List.mem_append_right _ hline)
    have hchunks' : ∀ other ∈ chunks, Shortest other :=
      fun other hother => hchunks other (List.mem_cons_of_mem _ hother)
    -- the tokens of the chunk come first, and they leave no parenthesis open
    have hcut : lex (String.join ((chunk :: chunks).flatten ++ tail)) =
        lex (String.join chunk) ++ lex (String.join (chunks.flatten ++ tail)) := by
      rw [List.flatten_cons, List.append_assoc]
      exact lex_join_append (hlines chunk _ (by simp))
    have hclosed : opened (lex (String.join chunk)) ≤ 0 := by
      rw [← depth_eq]
      exact (hchunks chunk (by simp)).closed
    rw [hcut] at hread
    obtain ⟨es₁, es₂, hread₁, hread₂, rfl⟩ := Expr.leading_append hread hclosed
    obtain ⟨first, rest, u, hfirst, hrest⟩ := Eval.evalAll_append_eq_ok heval
    by_cases hblank : Blank chunk
    · have hnil : lex (String.join chunk) = [] := lexChars_of_blank hblank
      obtain rfl : [] = es₁ := by
        rw [hnil, Expr.leading_of_none (by rfl)] at hread₁
        exact (Prod.mk.inj hread₁).1
      obtain ⟨-, rfl⟩ : [] = first ∧ batch = u := by
        simpa [Eval.evalAll] using hfirst
      obtain ⟨htail', outputs, last, hanswers, hlast, hplay⟩ :=
        ih hlines' hchunks' hread₂ hrest hheap
      refine ⟨htail', prompts chunk ++ outputs, last, .skipped hblank hanswers, hlast, ?_⟩
      have hturn : playChunk limit verbose store chunk =
          ⟨prompts chunk ++ [], ⟨store, ""⟩, none⟩ := by
        rw [playChunk, if_pos hblank]
        rfl
      rw [play, hturn]
      simp [hplay, Turn.after]
    · obtain ⟨u', hfirst', hu'⟩ := Eval.evalAll_of_heap_eq (Eval.blind_eval limit) hfirst hheap
      have hquiet : u'.quiet.heap = u.heap := hu'
      obtain ⟨htail', outputs, last, hanswers, hlast, hplay⟩ :=
        ih hlines' hchunks' hread₂ hrest hquiet
      refine ⟨htail', _, last, .submitted hblank (Expr.parseAll_of_leading hread₁) hfirst'
        hanswers, hlast, ?_⟩
      rw [play, playChunk_of_evalAll hblank hread₁ hfirst' verbose]
      simp [hplay, Turn.after]

/-- The loop cuts a text into shortest chunks and an unfinished tail and plays
them; a failure that ends it comes from a chunk, and no line after that chunk
is read. If the text can be evaluated as a whole, the loop leaves no tail,
answers for every chunk, and ends with the heap of the batch. Memory and the
number of digits are not limited here. -/
theorem run_agrees (limit : Nat) (verbose : Bool) (store : Store) (text : String) :
    ∃ chunks tail,
      (LinesOf text (lines text) ∧ chunks.flatten ++ tail = lines text ∧
        (∀ chunk ∈ chunks, Shortest chunk) ∧ Unfinished tail ∧
        run limit verbose ⟨store, ""⟩ (lines text) = play limit verbose tail store chunks ∧
        ∀ failure, (run limit verbose ⟨store, ""⟩ (lines text)).raised = some failure →
          ∃ before chunk after, chunks = before ++ chunk :: after ∧
            run limit verbose ⟨store, ""⟩ (before ++ [chunk]).flatten =
              run limit verbose ⟨store, ""⟩ (lines text)) ∧
      ∀ value t, Session.evalText limit text store = .ok value t →
        tail = [] ∧ ∃ outputs last, Answers limit verbose store chunks outputs last ∧
          last.heap = t.heap ∧ run limit verbose ⟨store, ""⟩ (lines text) =
            ⟨outputs ++ [.out "> ", .out "\n"], ⟨last, ""⟩, none⟩ ∧
          ∀ message, .err message ∈ outputs →
            verbose = true ∧ ∃ event : Event, message = event.line ++ "\n" := by
  have hflatten := flatten_chunksFrom [] (lines text)
  have hchunks := shortest_chunksFrom unfinished_nil (lines text)
  have htail := unfinished_chunksFrom unfinished_nil (lines text)
  generalize (chunksFrom [] (lines text)).1 = chunks at hflatten hchunks
  generalize (chunksFrom [] (lines text)).2 = tail at hflatten htail
  rw [List.nil_append] at hflatten
  have hplay := run_flatten hchunks htail limit verbose store
  rw [hflatten] at hplay
  refine ⟨chunks, tail, ⟨linesOf_lines text, hflatten, hchunks, htail, hplay, ?_⟩, ?_⟩
  · intro failure hraised
    rw [hplay] at hraised ⊢
    obtain ⟨before, chunk, after, rfl, hsame⟩ := play_of_raised hraised
    refine ⟨before, chunk, after, rfl, ?_⟩
    have hread : ∀ other ∈ before ++ [chunk], Shortest other := by
      intro other hother
      refine hchunks other (List.Sublist.subset ?_ hother)
      exact (List.Sublist.refl before).append (by simp)
    rw [← hsame, ← run_flatten hread unfinished_nil, List.append_nil]
  · intro value t htext
    obtain ⟨es, values, hread, heval, -⟩ := Session.evalText_eq_ok_iff.1 htext
    have hlines : ∀ before after, chunks.flatten ++ tail = before ++ after → after ≠ [] →
        ∀ line ∈ before, Terminated line := by
      rw [hflatten]
      exact (linesOf_lines text).terminated
    have hjoin : String.join (chunks.flatten ++ tail) = text := by
      rw [hflatten, join_lines]
    obtain ⟨hnil, outputs, last, hanswers, hlast, hturn⟩ :=
      play_of_evalAll hlines hchunks htail (by rwa [hjoin]) heval rfl
    refine ⟨hnil, outputs, last, hanswers, hlast, hplay.trans hturn, ?_⟩
    exact fun message hmessage => hanswers.err hmessage

/-- Two expressions on one line, one over three lines with a blank line inside
and a parenthesis in a comment, and a last line without a line feed. -/
def layout : String :=
  "(def x 1) x ; )\n\n(+ x\n\n 41) :end"

/-- The loop answers for the three chunks of the layout as the batch does. -/
theorem run_agrees_layout :
    (run 9 false ⟨Session.initial, ""⟩ (lines layout)).outputs =
        [.out "> ", .out "1\n", .out "> ", .out "> ", .out ". ", .out ". ", .out ":end\n",
          .out "> ", .out "\n"] ∧
      ∃ value t, Session.evalText 9 layout Session.initial = .ok value t ∧
        ∃ chunks outputs last, chunks.flatten = lines layout ∧
          Answers 9 false Session.initial chunks outputs last ∧ last.heap = t.heap ∧
          run 9 false ⟨Session.initial, ""⟩ (lines layout) =
            ⟨outputs ++ [.out "> ", .out "\n"], ⟨last, ""⟩, none⟩ := by
  have hcheck : (Session.evalText 9 layout).succeeds Session.initial = true := by decide +kernel
  obtain ⟨value, t, htext⟩ := Eval.exists_of_succeeds hcheck
  obtain ⟨chunks, tail, hcut, hbatch⟩ := run_agrees 9 false Session.initial layout
  obtain ⟨rfl, outputs, last, hanswers, hlast, hrun, -⟩ := hbatch value t htext
  refine ⟨by decide +kernel, value, t, htext, chunks, outputs, last, ?_, hanswers, hlast, hrun⟩
  simpa using hcut.2.1

end Repl

end PrototypeLisp
