/-
PrototypeLisp.Proofs.Expr.Leading — everything that can be read from a text.

`leading` reads tokens up to their end or their first fault and keeps both the
expressions and the fault. Its expressions are proper, and a complaint about a
number outside the exponent range comes from one of the words. When no fault
ends it, it gives what reading all expressions gives.
-/
import PrototypeLisp.Proofs.Expr.Proper

namespace PrototypeLisp

namespace Expr

/-- The expressions that tokens spell, up to the end of the tokens or to the
first fault. -/
def leading (limit : Nat) (tokens : List Token) : List Expr × Option ReadError :=
  match _h : read? limit tokens with
  | none => ([], none)
  | some (.error fault, _) => ([], some fault)
  | some (.ok e, rest) =>
    let (es, fault?) := leading limit rest
    (e :: es, fault?)
termination_by tokens.length
decreasing_by exact length_lt_of_read? _h

theorem leading_of_none {limit : Nat} {tokens : List Token} (h : read? limit tokens = none) :
    leading limit tokens = ([], none) := by
  rw [leading]
  split <;> simp_all

theorem leading_of_error {limit : Nat} {tokens rest : List Token} {fault : ReadError}
    (h : read? limit tokens = some (.error fault, rest)) :
    leading limit tokens = ([], some fault) := by
  rw [leading]
  split <;> simp_all

theorem leading_of_ok {limit : Nat} {tokens rest : List Token} {e : Expr}
    (h : read? limit tokens = some (.ok e, rest)) :
    leading limit tokens = (e :: (leading limit rest).1, (leading limit rest).2) := by
  rw [leading]
  split <;> simp_all

/-- Facts about everything that is read from tokens, by the turns of reading. -/
theorem leading_induction (limit : Nat) {P : List Token → Prop}
    (none : ∀ tokens, read? limit tokens = none → P tokens)
    (error : ∀ tokens fault rest, read? limit tokens = some (.error fault, rest) → P tokens)
    (ok : ∀ tokens e rest, read? limit tokens = some (.ok e, rest) → P rest → P tokens)
    (tokens : List Token) : P tokens := by
  induction hn : tokens.length using Nat.strongRecOn generalizing tokens with
  | _ n ih =>
    cases hread : read? limit tokens with
    | none => exact none tokens hread
    | some result =>
      obtain ⟨outcome, rest⟩ := result
      cases outcome with
      | error fault => exact error tokens fault rest hread
      | ok e => exact ok tokens e rest hread (ih _ (hn ▸ length_lt_of_read? hread) rest rfl)

theorem proper_leading (limit : Nat) (tokens : List Token) :
    ∀ e ∈ (leading limit tokens).1, e.Proper := by
  induction tokens using leading_induction limit with
  | none tokens h => simp [leading_of_none h]
  | error tokens fault rest h => simp [leading_of_error h]
  | ok tokens e rest h ih =>
    rw [leading_of_ok h]
    intro other hother
    rcases List.mem_cons.1 hother with rfl | hother
    · exact proper_read? h
    · exact ih other hother

/-- The fault that ends the reading comes from the tokens. -/
theorem outOfRange_of_leading {limit : Nat} {tokens : List Token}
    (h : (leading limit tokens).2 = some .numberOutOfRange) :
    ∃ text, .word text ∈ tokens ∧ OutOfRange text.toList := by
  induction tokens using leading_induction limit with
  | none tokens hread => simp [leading_of_none hread] at h
  | error tokens fault rest hread =>
    obtain rfl : fault = .numberOutOfRange := by simpa [leading_of_error hread] using h
    obtain ⟨before, text, rfl, hrange⟩ := outOfRange_of_read? hread
    exact ⟨text, by simp, hrange⟩
  | ok tokens e rest hread ih =>
    obtain ⟨text, htext, hrange⟩ := ih (by simpa [leading_of_ok hread] using h)
    exact ⟨text, (suffix_read? hread).subset htext, hrange⟩

theorem readAllFrom_of_ok {limit : Nat} {done : List Expr} {tokens rest : List Token} {e : Expr}
    (h : read? limit tokens = some (.ok e, rest)) :
    (readAllFrom limit done tokens).1 = (readAllFrom limit (e :: done) rest).1 := by
  rw [readAllFrom]
  split <;> simp_all

/-- Reading all expressions gives the leading ones when no fault ends them. -/
theorem readAllFrom_of_leading {limit : Nat} {done es : List Expr} {tokens : List Token}
    (h : leading limit tokens = (es, none)) :
    (readAllFrom limit done tokens).1 = .ok (done.reverse ++ es) := by
  induction tokens using leading_induction limit generalizing done es with
  | none tokens hread =>
    obtain rfl : [] = es := by simpa [leading_of_none hread] using h
    rw [readAllFrom]
    split <;> simp_all
  | error tokens fault rest hread => simp [leading_of_error hread] at h
  | ok tokens e rest hread ih =>
    rw [leading_of_ok hread] at h
    obtain ⟨rfl, hfault⟩ := Prod.mk.inj h
    rw [readAllFrom_of_ok hread, ih (Prod.ext rfl hfault)]
    simp

theorem readAllFrom_of_fault {limit : Nat} {done es : List Expr} {tokens : List Token}
    {fault : ReadError} (h : leading limit tokens = (es, some fault)) :
    (readAllFrom limit done tokens).1 = .error fault := by
  induction tokens using leading_induction limit generalizing done es with
  | none tokens hread => simp [leading_of_none hread] at h
  | error tokens fault' rest hread =>
    obtain ⟨-, rfl⟩ : [] = es ∧ fault' = fault := by simpa [leading_of_error hread] using h
    rw [readAllFrom]
    split <;> simp_all
  | ok tokens e rest hread ih =>
    rw [leading_of_ok hread] at h
    obtain ⟨-, hfault⟩ := Prod.mk.inj h
    rw [readAllFrom_of_ok hread]
    exact ih (Prod.ext rfl hfault)

/-- Reading all expressions of a text gives the leading ones, or the fault that
ends them. -/
theorem parseAll_eq (limit : Nat) (source : String) : parseAll limit source =
    match leading limit (lex source) with
    | (es, none) => .ok es
    | (_, some fault) => .error fault := by
  split
  · rename_i es h
    exact readAllFrom_of_leading h
  · rename_i es fault h
    exact readAllFrom_of_fault h

theorem parseAll_of_leading {limit : Nat} {source : String} {es : List Expr}
    (h : leading limit (lex source) = (es, none)) : parseAll limit source = .ok es :=
  readAllFrom_of_leading h

theorem parseAll_eq_ok_iff_leading {limit : Nat} {source : String} {es : List Expr} :
    parseAll limit source = .ok es ↔ leading limit (lex source) = (es, none) := by
  rw [parseAll_eq]
  split <;> simp_all

theorem parseAll_eq_error_iff {limit : Nat} {source : String} {fault : ReadError} :
    parseAll limit source = .error fault ↔ (leading limit (lex source)).2 = some fault := by
  rw [parseAll_eq]
  split <;> simp_all

end Expr

end PrototypeLisp
