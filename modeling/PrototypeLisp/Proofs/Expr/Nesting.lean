/-
PrototypeLisp.Proofs.Expr.Nesting — reading and the count of parentheses.

Reading a whole token list is a machine that takes one token after the other
and keeps the open forms on a stack (`Reading.run`). Two things are plain for
the machine and not for the reader: it can be stopped after any tokens and
goes on from there, and the height of its stack is the number of parentheses
opened less those closed. The machine and the reader agree
(`leading_iff_run`), so tokens that can be read as a whole can be cut wherever
no more parentheses are opened than closed (`leading_append`).
-/
import PrototypeLisp.Proofs.Expr.Leading
import PrototypeLisp.Proofs.Token.Lines

namespace PrototypeLisp

/-- The state of reading between two tokens. -/
structure Reading where
  /-- The finished expressions, latest first. -/
  done : List Expr
  /-- The items of the open forms, innermost form first and latest item
  first. -/
  stack : List (List Expr)

namespace Reading

/-- An expression is finished: it is an item of the innermost open form. -/
def add (r : Reading) (e : Expr) : Reading :=
  match r.stack with
  | [] => ⟨e :: r.done, []⟩
  | items :: outer => ⟨r.done, (e :: items) :: outer⟩

/-- Take one token. -/
def step (limit : Nat) (r : Reading) : Token → Except ReadError Reading
  | .opening =>
    if r.stack.length < limit then .ok ⟨r.done, [] :: r.stack⟩ else .error .tooDeep
  | .closing =>
    match r.stack with
    | [] => .error .unexpectedClosing
    | items :: outer => (Expr.ofItems items.reverse).map (add ⟨r.done, outer⟩)
  | .word text => (Expr.ofWord text.toList).map r.add

theorem step_opening {limit : Nat} {stack : List (List Expr)} (h : stack.length < limit)
    (done : List Expr) : step limit ⟨done, stack⟩ .opening = .ok ⟨done, [] :: stack⟩ :=
  if_pos h

theorem step_closing (limit : Nat) (done items : List Expr) (outer : List (List Expr)) :
    step limit ⟨done, items :: outer⟩ .closing =
      (Expr.ofItems items.reverse).map (add ⟨done, outer⟩) := rfl

/-- Take all tokens. -/
def run (limit : Nat) (r : Reading) (tokens : List Token) : Except ReadError Reading :=
  tokens.foldlM (step limit) r

theorem run_cons {limit : Nat} {r : Reading} {token : Token} {tokens : List Token} :
    run limit r (token :: tokens) = step limit r token >>= fun next => run limit next tokens :=
  List.foldlM_cons

theorem run_append (limit : Nat) (r : Reading) (a b : List Token) :
    run limit r (a ++ b) = run limit r a >>= fun next => run limit next b :=
  List.foldlM_append

@[simp] theorem length_stack_add (r : Reading) (e : Expr) :
    (r.add e).stack.length = r.stack.length := by
  unfold add
  split <;> simp_all

/-- A token changes the height of the stack by what it opens. -/
theorem length_stack_step {limit : Nat} {r next : Reading} {token : Token}
    (h : step limit r token = .ok next) :
    (next.stack.length : Int) = r.stack.length + token.opens := by
  cases token with
  | opening =>
    simp only [step] at h
    split at h
    · obtain rfl := Except.ok.inj h
      simp [Token.opens]
    · simp at h
  | closing =>
    simp only [step] at h
    split at h
    · simp at h
    · rename_i items outer hstack
      cases hbuilt : Expr.ofItems items.reverse with
      | error fault => simp [hbuilt, Except.map] at h
      | ok e =>
        obtain rfl : add ⟨r.done, outer⟩ e = next := by simpa [hbuilt, Except.map] using h
        simp only [length_stack_add, hstack, Token.opens, List.length_cons]
        omega
  | word text =>
    cases hword : Expr.ofWord text.toList with
    | error fault => simp [step, hword, Except.map] at h
    | ok e =>
      obtain rfl : r.add e = next := by simpa [step, hword, Except.map] using h
      simp [Token.opens]

/-- The height of the stack is the number of parentheses left open. -/
theorem length_stack_run {limit : Nat} {r last : Reading} {tokens : List Token}
    (h : run limit r tokens = .ok last) :
    (last.stack.length : Int) = r.stack.length + opened tokens := by
  induction tokens generalizing r with
  | nil =>
    obtain rfl : r = last := by simpa [run, pure, Except.pure] using h
    simp
  | cons token tokens ih =>
    rw [run_cons] at h
    cases hstep : step limit r token with
    | error fault => simp [hstep, bind, Except.bind] at h
    | ok next =>
      have hrest : run limit next tokens = .ok last := by
        simpa [hstep, bind, Except.bind] using h
      rw [ih hrest, length_stack_step hstep, opened_cons]
      omega

end Reading

namespace Expr

open Reading

/-! ## The reader and the machine -/

/-- Where the reader finishes a form, the machine has it done. -/
theorem run_of_readForm {limit room : Nat} {outer : List (List Expr)} {items done : List Expr}
    {tokens rest : List Token} {e : Expr} (hroom : room + outer.length + 1 = limit)
    (h : readForm room outer items tokens = (.ok e, rest)) :
    run limit ⟨done, items :: outer⟩ tokens = run limit ⟨e :: done, []⟩ rest := by
  fun_induction readForm room outer items tokens with
  | case1 => simp at h
  | case2 => simp at h
  | case3 outer items tokens room ih =>
    have hlt : (items :: outer).length < limit := by
      simp only [List.length_cons]
      omega
    rw [run_cons, step_opening hlt]
    exact ih (by simp only [List.length_cons]; omega) h
  | case4 => simp at h
  | case5 room items tokens built hbuilt =>
    obtain ⟨rfl, rfl⟩ : built = e ∧ tokens = rest := by simpa using h
    rw [run_cons, step_closing, hbuilt]
    rfl
  | case6 room items tokens built above outer hbuilt ih =>
    rw [run_cons, step_closing, hbuilt]
    exact ih (by simp only [List.length_cons] at hroom; omega) h
  | case7 => simp at h
  | case8 room outer items text tokens item hitem ih =>
    rw [run_cons, step, hitem]
    exact ih hroom h

/-- Where the machine ends with all forms closed, the reader finishes the
outermost form first. -/
theorem readForm_of_run {limit room : Nat} {outer : List (List Expr)}
    {items done done' : List Expr} {tokens : List Token}
    (hroom : room + outer.length + 1 = limit)
    (h : run limit ⟨done, items :: outer⟩ tokens = .ok ⟨done', []⟩) :
    ∃ e rest, readForm room outer items tokens = (.ok e, rest) ∧
      run limit ⟨e :: done, []⟩ rest = .ok ⟨done', []⟩ := by
  fun_induction readForm room outer items tokens with
  | case1 => simp [run, pure, Except.pure] at h
  | case2 outer items tokens =>
    have hge : ¬ (items :: outer).length < limit := by
      simp only [List.length_cons]
      omega
    rw [run_cons, step, if_neg hge] at h
    simp [bind, Except.bind] at h
  | case3 outer items tokens room ih =>
    have hlt : (items :: outer).length < limit := by
      simp only [List.length_cons]
      omega
    rw [run_cons, step_opening hlt] at h
    exact ih (by simp only [List.length_cons]; omega) h
  | case4 room outer items tokens fault hfault =>
    rw [run_cons, step_closing, hfault] at h
    simp [Except.map, bind, Except.bind] at h
  | case5 room items tokens built hbuilt =>
    rw [run_cons, step_closing, hbuilt] at h
    exact ⟨built, tokens, rfl, h⟩
  | case6 room items tokens built above outer hbuilt ih =>
    rw [run_cons, step_closing, hbuilt] at h
    exact ih (by simp only [List.length_cons] at hroom; omega) h
  | case7 room outer items text tokens fault hfault =>
    rw [run_cons, step, hfault] at h
    simp [Except.map, bind, Except.bind] at h
  | case8 room outer items text tokens item hitem ih =>
    rw [run_cons, step, hitem] at h
    exact ih hroom h

/-- Where the reader gives an expression, the machine has it done. -/
theorem run_of_read? {limit : Nat} {tokens rest : List Token} {e : Expr} (done : List Expr)
    (h : read? limit tokens = some (.ok e, rest)) :
    run limit ⟨done, []⟩ tokens = run limit ⟨e :: done, []⟩ rest := by
  unfold read? at h
  split at h
  · simp at h
  · split at h
    · simp at h
    · rename_i room
      rw [run_cons, step_opening (Nat.succ_pos room)]
      exact run_of_readForm (by simp) (Option.some.inj h)
  · simp at h
  · obtain ⟨hword, rfl⟩ := Prod.mk.inj (Option.some.inj h)
    rw [run_cons, step, hword]
    rfl

/-- Where the machine ends with all forms closed, the reader gives an
expression or is at the end. -/
theorem read?_of_run {limit : Nat} {tokens : List Token} {done done' : List Expr}
    (h : run limit ⟨done, []⟩ tokens = .ok ⟨done', []⟩) :
    tokens = [] ∧ done' = done ∨
      ∃ e rest, read? limit tokens = some (.ok e, rest) ∧
        run limit ⟨e :: done, []⟩ rest = .ok ⟨done', []⟩ := by
  cases tokens with
  | nil =>
    obtain rfl : done = done' := by simpa [run, pure, Except.pure] using h
    exact .inl ⟨rfl, rfl⟩
  | cons token tokens =>
    refine .inr ?_
    rw [run_cons] at h
    cases token with
    | opening =>
      cases limit with
      | zero => simp [step, bind, Except.bind] at h
      | succ room =>
        rw [step_opening (Nat.succ_pos room)] at h
        have hroom : room + ([] : List (List Expr)).length + 1 = room + 1 := rfl
        obtain ⟨e, rest, hread, hrest⟩ := readForm_of_run hroom h
        exact ⟨e, rest, by rw [read?, hread], hrest⟩
    | closing => simp [step, bind, Except.bind] at h
    | word text =>
      cases hword : ofWord text.toList with
      | error fault => simp [step, hword, Except.map, bind, Except.bind] at h
      | ok e =>
        rw [step, hword] at h
        exact ⟨e, tokens, by rw [read?, hword], h⟩

/-- Reading gives nothing only at the end of the tokens. -/
theorem eq_nil_of_read? {limit : Nat} {tokens : List Token} (h : read? limit tokens = none) :
    tokens = [] := by
  unfold read? at h
  split at h
  · rfl
  · split at h <;> simp at h
  · simp at h
  · simp at h

/-- Tokens are read to their end without a fault exactly when the machine ends
with all forms closed, and they give the same expressions. -/
theorem leading_iff_run {limit : Nat} {tokens : List Token} {done done' : List Expr} :
    run limit ⟨done, []⟩ tokens = .ok ⟨done', []⟩ ↔
      ∃ es, leading limit tokens = (es, none) ∧ done' = es.reverse ++ done := by
  constructor
  · intro h
    induction tokens using leading_induction limit generalizing done with
    | none tokens hread =>
      rcases read?_of_run h with ⟨rfl, rfl⟩ | ⟨e, rest, hread', -⟩
      · exact ⟨[], leading_of_none hread, rfl⟩
      · simp [hread] at hread'
    | error tokens fault rest hread =>
      rcases read?_of_run h with ⟨rfl, -⟩ | ⟨e, rest, hread', -⟩
      · simp [read?] at hread
      · simp [hread] at hread'
    | ok tokens e rest hread ih =>
      rw [run_of_read? done hread] at h
      obtain ⟨es, hes, rfl⟩ := ih h
      refine ⟨e :: es, ?_, by simp⟩
      rw [leading_of_ok hread, hes]
  · rintro ⟨es, hes, rfl⟩
    induction tokens using leading_induction limit generalizing done es with
    | none tokens hread =>
      obtain rfl : [] = es := by simpa [leading_of_none hread] using hes
      obtain rfl := eq_nil_of_read? hread
      rfl
    | error tokens fault rest hread => simp [leading_of_error hread] at hes
    | ok tokens e rest hread ih =>
      rw [leading_of_ok hread] at hes
      obtain ⟨rfl, hfault⟩ := Prod.mk.inj hes
      have hrest : leading limit rest = ((leading limit rest).1, none) := Prod.ext rfl hfault
      rw [run_of_read? done hread, ih _ hrest]
      simp

/-- Tokens that can be read as a whole can be cut where no more parentheses
are opened than closed: both parts can be read, and give the expressions one
after the other. -/
theorem leading_append {limit : Nat} {a b : List Token} {es : List Expr}
    (h : leading limit (a ++ b) = (es, none)) (ha : opened a ≤ 0) :
    ∃ es₁ es₂, leading limit a = (es₁, none) ∧ leading limit b = (es₂, none) ∧
      es = es₁ ++ es₂ := by
  have hrun : run limit ⟨[], []⟩ (a ++ b) = .ok ⟨es.reverse ++ [], []⟩ :=
    leading_iff_run.2 ⟨es, h, rfl⟩
  rw [run_append] at hrun
  cases hfirst : run limit ⟨[], []⟩ a with
  | error fault => simp [hfirst, bind, Except.bind] at hrun
  | ok r =>
    have hsecond : run limit r b = .ok ⟨es.reverse ++ [], []⟩ := by
      simpa [hfirst, bind, Except.bind] using hrun
    -- no parenthesis is left open, so no form is
    have hheight := length_stack_run hfirst
    obtain ⟨done, stack⟩ := r
    obtain rfl : stack = [] := by
      refine List.eq_nil_of_length_eq_zero ?_
      simp only [List.length_nil] at hheight
      omega
    obtain ⟨es₁, hes₁, rfl⟩ := leading_iff_run.1 hfirst
    obtain ⟨es₂, hes₂, hes⟩ := leading_iff_run.1 hsecond
    refine ⟨es₁, es₂, hes₁, hes₂, ?_⟩
    have hreverse : es.reverse = (es₁ ++ es₂).reverse := by simpa using hes
    exact List.reverse_inj.1 hreverse

/-- Tokens that can be read as a whole leave no parenthesis open. -/
theorem opened_of_leading {limit : Nat} {tokens : List Token} {es : List Expr}
    (h : leading limit tokens = (es, none)) : opened tokens = 0 := by
  have hrun : run limit ⟨[], []⟩ tokens = .ok ⟨es.reverse ++ [], []⟩ :=
    leading_iff_run.2 ⟨es, h, rfl⟩
  have hheight := length_stack_run hrun
  simp only [List.length_nil] at hheight
  omega

end Expr

end PrototypeLisp
