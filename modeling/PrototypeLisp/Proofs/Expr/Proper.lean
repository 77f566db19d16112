/-
PrototypeLisp.Proofs.Expr.Proper — what the reader can give.

The reader builds expressions without foreign pieces (`Proper`), and it
complains of a number outside the exponent range only when the word that it
took last spells such a number. Both follow the recursion of the reader: the
items of all open forms are proper, and the tokens still to come are the end
of those given.
-/
import PrototypeLisp.Expr.Reader
import PrototypeLisp.Proofs.Form.Parts

namespace PrototypeLisp

namespace Expr

/-- An expression without foreign pieces. -/
inductive Proper : Expr → Prop where
  | number (value : Decimal) : Proper (.number value)
  | atom (name : String) : Proper (.atom name)
  | variable (name : String) : Proper (.variable name)
  | form (name : String) {arguments : List Expr} (h : ∀ e ∈ arguments, Proper e) :
      Proper (.form name arguments)

theorem partsClosed_proper : PartsClosed Proper := by
  intro name arguments h
  cases h with
  | form _ h => exact h

theorem not_proper_foreign (text : String) : ¬ Proper (.foreign text) := by
  rintro ⟨⟩

/-! ## Expressions -/

theorem proper_ofWord {word : List Char} {e : Expr} (h : ofWord word = .ok e) : e.Proper := by
  unfold ofWord at h
  split at h
  · split at h
    · obtain rfl := Except.ok.inj h
      exact .number _
    · simp at h
  · obtain rfl := Except.ok.inj h
    exact .atom _
  · obtain rfl := Except.ok.inj h
    exact .variable _

theorem proper_ofItems {items : List Expr} {e : Expr} (hitems : ∀ item ∈ items, item.Proper)
    (h : ofItems items = .ok e) : e.Proper := by
  unfold ofItems at h
  split at h
  · simp at h
  · obtain rfl := Except.ok.inj h
    exact .form _ fun item hitem => hitems item (List.mem_cons_of_mem _ hitem)
  · obtain rfl := Except.ok.inj h
    exact .form _ hitems
  · simp at h

/-- The items of a form and of the forms around it are proper, so the form
that comes out is. -/
theorem proper_readForm {room : Nat} {outer : List (List Expr)} {items : List Expr}
    {tokens rest : List Token} {e : Expr} (hitems : ∀ item ∈ items, item.Proper)
    (houter : ∀ above ∈ outer, ∀ item ∈ above, item.Proper)
    (h : readForm room outer items tokens = (.ok e, rest)) : e.Proper := by
  fun_induction readForm room outer items tokens with
  | case1 => simp at h
  | case2 => simp at h
  | case3 outer items tokens room ih =>
    refine ih (by simp) ?_ h
    intro above habove
    rcases List.mem_cons.1 habove with rfl | habove
    · exact hitems
    · exact houter above habove
  | case4 => simp at h
  | case5 room items tokens built hbuilt =>
    obtain ⟨rfl, -⟩ : built = e ∧ tokens = rest := by simpa using h
    exact proper_ofItems (by simpa using hitems) hbuilt
  | case6 room items tokens built above outer hbuilt ih =>
    have hnew := proper_ofItems (by simpa using hitems) hbuilt
    refine ih ?_ (fun other hother => houter other (List.mem_cons_of_mem _ hother)) h
    intro item hitem
    rcases List.mem_cons.1 hitem with rfl | hitem
    · exact hnew
    · exact houter above (by simp) item hitem
  | case7 => simp at h
  | case8 room outer items text tokens item hitem ih =>
    refine ih ?_ houter h
    intro other hother
    rcases List.mem_cons.1 hother with rfl | hother
    · exact proper_ofWord hitem
    · exact hitems other hother

/-- Every expression that is read is proper. -/
theorem proper_read? {limit : Nat} {tokens rest : List Token} {e : Expr}
    (h : read? limit tokens = some (.ok e, rest)) : e.Proper := by
  unfold read? at h
  split at h
  · simp at h
  · split at h
    · simp at h
    · exact proper_readForm (by simp) (by simp) (Option.some.inj h)
  · simp at h
  · obtain ⟨hword, -⟩ := Prod.mk.inj (Option.some.inj h)
    exact proper_ofWord hword

/-! ## Numbers outside the exponent range -/

/-- The word spells a number outside the exponent range. -/
def OutOfRange (word : List Char) : Prop :=
  ∃ numeral, Numeral.read? word = some numeral ∧ ¬ numeral.toDecimal.InRange

theorem outOfRange_of_ofWord {word : List Char} {fault : ReadError}
    (h : ofWord word = .error fault) : OutOfRange word := by
  unfold ofWord at h
  split at h
  · rename_i numeral hnumeral
    split at h
    · simp at h
    · rename_i hrange
      exact ⟨numeral, hnumeral, hrange⟩
  · simp at h
  · simp at h

theorem ofItems_ne_numberOutOfRange (items : List Expr) :
    ofItems items ≠ .error .numberOutOfRange := by
  unfold ofItems
  split <;> simp

/-- The word that spells such a number is the last one taken. -/
theorem outOfRange_of_readForm {room : Nat} {outer : List (List Expr)} {items : List Expr}
    {tokens rest : List Token}
    (h : readForm room outer items tokens = (.error .numberOutOfRange, rest)) :
    ∃ before text, tokens = before ++ .word text :: rest ∧ OutOfRange text.toList := by
  fun_induction readForm room outer items tokens with
  | case1 => simp at h
  | case2 => simp at h
  | case3 outer items tokens room ih =>
    obtain ⟨before, text, rfl, hrange⟩ := ih h
    exact ⟨.opening :: before, text, rfl, hrange⟩
  | case4 room outer items tokens fault hfault =>
    obtain ⟨rfl, -⟩ : fault = .numberOutOfRange ∧ tokens = rest := by simpa using h
    exact absurd hfault (ofItems_ne_numberOutOfRange _)
  | case5 => simp at h
  | case6 room items tokens built above outer hbuilt ih =>
    obtain ⟨before, text, rfl, hrange⟩ := ih h
    exact ⟨.closing :: before, text, rfl, hrange⟩
  | case7 room outer items text tokens fault hfault =>
    obtain ⟨-, rfl⟩ : fault = .numberOutOfRange ∧ tokens = rest := by simpa using h
    exact ⟨[], text, rfl, outOfRange_of_ofWord hfault⟩
  | case8 room outer items first tokens item hitem ih =>
    obtain ⟨before, text, rfl, hrange⟩ := ih h
    exact ⟨.word first :: before, text, rfl, hrange⟩

/-- Only a word that spells such a number makes the reader complain of it. -/
theorem outOfRange_of_read? {limit : Nat} {tokens rest : List Token}
    (h : read? limit tokens = some (.error .numberOutOfRange, rest)) :
    ∃ before text, tokens = before ++ .word text :: rest ∧ OutOfRange text.toList := by
  unfold read? at h
  split at h
  · simp at h
  · split at h
    · simp at h
    · obtain ⟨before, text, rfl, hrange⟩ := outOfRange_of_readForm (Option.some.inj h)
      exact ⟨.opening :: before, text, rfl, hrange⟩
  · simp at h
  · rename_i text tokens
    obtain ⟨hword, rfl⟩ := Prod.mk.inj (Option.some.inj h)
    exact ⟨[], text, rfl, outOfRange_of_ofWord hword⟩

/-! ## What is left -/

/-- What is left after a form is the end of the tokens. -/
theorem suffix_readForm (room : Nat) (outer : List (List Expr)) (items : List Expr)
    (tokens : List Token) : (readForm room outer items tokens).2 <:+ tokens := by
  fun_induction readForm room outer items tokens with
  | case1 | case2 => exact List.nil_suffix
  | case4 | case5 | case7 => exact List.suffix_cons _ _
  | case3 _ _ _ _ ih | case6 _ _ _ _ _ _ _ ih | case8 _ _ _ _ _ _ _ ih =>
    exact ih.trans (List.suffix_cons _ _)

/-- What is left after an expression is the end of the tokens. -/
theorem suffix_read? {limit : Nat} {tokens rest : List Token}
    {result : Except ReadError Expr} (h : read? limit tokens = some (result, rest)) :
    rest <:+ tokens := by
  unfold read? at h
  split at h
  · simp at h
  · rename_i tokens
    split at h
    · obtain ⟨-, rfl⟩ := Prod.mk.inj (Option.some.inj h)
      exact List.nil_suffix
    · rename_i room
      have hrest := suffix_readForm room [] [] tokens
      rw [Option.some.inj h] at hrest
      exact hrest.trans (List.suffix_cons _ _)
  · obtain ⟨-, rfl⟩ := Prod.mk.inj (Option.some.inj h)
    exact List.suffix_cons _ _
  · obtain ⟨-, rfl⟩ := Prod.mk.inj (Option.some.inj h)
    exact List.suffix_cons _ _

end Expr

end PrototypeLisp
