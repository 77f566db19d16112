/-
PrototypeLisp.Proofs.Decimal.Notation — what is written spells the number.

Each notation lays a number out in the parts of a number word, so what it
writes has a spelling. In plain notation a point moves digits behind it and
takes as much off the exponent, and a positive exponent is written out as
zeros: the word spells the number with these zeros (`expanded`), which is the
number itself unless the exponent is positive. Scientific notation spells the
number itself, whatever layout was chosen (`exists_scientificChars`).
-/
import PrototypeLisp.Decimal.Notation
import PrototypeLisp.Proofs.Decimal.Spelling
import PrototypeLisp.Proofs.Decimal.Value

namespace PrototypeLisp.Decimal

open Numeral

/-! ## Layouts -/

/-- Rows of digits laid out with the sign of a number. -/
def layout (negative : Bool) (whole : List Char) (fraction : Option (List Char))
    (exponent : Option ExponentPart) : Spelling :=
  ⟨if negative then some .minus else none, whole, fraction, exponent⟩

section

variable {negative : Bool} {whole : List Char} {fraction : Option (List Char)}
  {exponent : Option ExponentPart}

theorem layout_proper (hwhole : IsRow whole) (hne : whole ≠ [])
    (hfraction : ∀ row ∈ fraction, IsRow row) (hexponent : ∀ x ∈ exponent, x.Proper) :
    (layout negative whole fraction exponent).Proper where
  whole := hwhole.isDigits
  fraction := fun row hrow => (hfraction row hrow).isDigits
  nonempty := .inl hne
  exponent := hexponent

theorem layout_chars : (layout negative whole fraction exponent).chars =
    signChars negative ++ (whole ++ (pointText fraction ++ exponentText exponent)) := by
  cases negative <;> rfl

theorem layout_decimal : (layout negative whole fraction exponent).decimal =
    ⟨negative, rowValue (whole ++ fraction.getD []),
      (exponent.map ExponentPart.value).getD 0 - (fraction.getD []).length⟩ := by
  cases negative <;> simp [layout, Spelling.decimal, spelled_eq]

end

/-- The exponent as it is written. -/
def exponentPart (e : Int) : ExponentPart :=
  ⟨'E', some (if e < 0 then .minus else .plus), digits e.natAbs⟩

theorem exponentPart_proper (e : Int) : (exponentPart e).Proper :=
  ⟨.inr rfl, (isRow_digits _).isDigits, digits_ne_nil _⟩

theorem exponentText_exponentPart (e : Int) :
    exponentText (some (exponentPart e)) = exponentChars e := by
  simp only [exponentText, exponentPart, exponentChars]
  split <;> rfl

theorem exponentPart_value (e : Int) : (exponentPart e).value = e := by
  simp only [ExponentPart.value, exponentPart, spelled_eq, rowValue_digits]
  by_cases hneg : e < 0
  · rw [if_pos hneg, if_pos rfl]
    omega
  · rw [if_neg hneg, if_neg (by simp)]
    omega

/-! ## Plain notation -/

/-- The number with the zeros of a positive exponent written out. -/
def expanded (d : Decimal) : Decimal :=
  ⟨d.negative, d.coefficient * 10 ^ d.exponent.toNat, min d.exponent 0⟩

theorem expanded_of_nonpos {d : Decimal} (h : d.exponent ≤ 0) : d.expanded = d := by
  rw [expanded, Int.toNat_of_nonpos h, Int.min_eq_left h, Nat.pow_zero, Nat.mul_one]

theorem value_expanded (d : Decimal) : d.expanded.value = d.value := by
  by_cases h : d.exponent ≤ 0
  · rw [expanded_of_nonpos h]
  · obtain ⟨k, hk⟩ := Int.eq_ofNat_of_zero_le (Int.le_of_not_le h)
    simp only [value, expanded, hk]
    push_cast
    simp [mul_assoc]

/-- A number in range stays there when its zeros are written out. -/
theorem InRange.expanded {d : Decimal} (h : d.InRange) : d.expanded.InRange := by
  by_cases hexponent : d.exponent ≤ 0
  · rwa [expanded_of_nonpos hexponent]
  · obtain ⟨k, hk⟩ := Int.eq_ofNat_of_zero_le (Int.le_of_not_le hexponent)
    have hadjusted : d.expanded.adjusted ≤ max 0 d.adjusted := by
      simp only [adjusted, Decimal.expanded, hk, Int.toNat_natCast]
      by_cases hzero : d.coefficient = 0
      · rw [hzero, Nat.zero_mul, show digitCount 0 = 1 from rfl]
        omega
      · rw [digitCount_mul_pow hzero]
        omega
    obtain ⟨-, hhigh⟩ := h
    refine ⟨?_, ?_⟩
    · simp only [Decimal.expanded, minExponent]
      omega
    · simp only [maxAdjusted] at hhigh ⊢
      omega

/-- Putting the point into a row cuts the row, after zeros have been put in
front of it if it is too short. -/
theorem insertPoint_eq {row : List Char} (hrow : IsRow row) (places : Nat) :
    ∃ whole fraction, insertPoint row places = whole ++ '.' :: fraction ∧
      IsRow whole ∧ IsRow fraction ∧ whole ≠ [] ∧ fraction.length = places ∧
      rowValue (whole ++ fraction) = rowValue row := by
  have hpadded : IsRow (List.replicate (places + 1 - row.length) '0' ++ row) :=
    isRow_append.2 ⟨isRow_replicate_zero _, hrow⟩
  have hlength : places + 1 ≤ (List.replicate (places + 1 - row.length) '0' ++ row).length := by
    simp only [List.length_append, List.length_replicate]
    omega
  have hvalue := rowValue_replicate_append (places + 1 - row.length) hrow
  unfold insertPoint
  generalize List.replicate (places + 1 - row.length) '0' ++ row = padded at *
  refine ⟨padded.take (padded.length - places), padded.drop (padded.length - places), rfl,
    fun c hc => hpadded c (List.mem_of_mem_take hc),
    fun c hc => hpadded c (List.mem_of_mem_drop hc), ?_, ?_, ?_⟩
  · refine List.ne_nil_of_length_pos ?_
    rw [List.length_take]
    omega
  · rw [List.length_drop]
    omega
  · rw [List.take_append_drop, hvalue]

/-- At an exponent that is not negative, plain notation is one row. -/
theorem plainDigits_ofNat (negative : Bool) (coefficient k : Nat) :
    IsRow (plainDigits ⟨negative, coefficient, .ofNat k⟩) ∧
      plainDigits ⟨negative, coefficient, .ofNat k⟩ ≠ [] ∧
      rowValue (plainDigits ⟨negative, coefficient, .ofNat k⟩) = coefficient * 10 ^ k := by
  by_cases hzero : coefficient = 0
  · have hplain : plainDigits ⟨negative, coefficient, .ofNat k⟩ = digits 0 := if_pos hzero
    rw [hplain, rowValue_digits, hzero, Nat.zero_mul]
    exact ⟨isRow_digits 0, digits_ne_nil 0, rfl⟩
  · have hplain : plainDigits ⟨negative, coefficient, .ofNat k⟩ =
        digits coefficient ++ List.replicate k '0' := if_neg hzero
    have hzeros := isRow_replicate_zero k
    rw [hplain, rowValue_append _ hzeros, rowValue_digits, rowValue_replicate_zero,
      List.length_replicate]
    exact ⟨isRow_append.2 ⟨isRow_digits coefficient, hzeros⟩, by simp [digits_ne_nil], rfl⟩

/-- Plain notation spells the number with its zeros written out, without an
exponent. -/
theorem exists_plainChars (d : Decimal) : ∃ s : Spelling, s.Proper ∧ s.exponent = none ∧
    s.chars = d.plainChars ∧ s.decimal = d.expanded := by
  obtain ⟨negative, coefficient, exponent⟩ := d
  match exponent with
  | .ofNat k =>
    obtain ⟨hrow, hne, hvalue⟩ := plainDigits_ofNat negative coefficient k
    refine ⟨layout negative _ none none, layout_proper hrow hne (by simp) (by simp), rfl, ?_, ?_⟩
    · rw [layout_chars, plainChars]
      simp [pointText, exponentText]
    · rw [layout_decimal]
      simpa [expanded] using hvalue
  | .negSucc k =>
    obtain ⟨whole, fraction, hpoint, hwhole, hfraction, hne, hplaces, hsame⟩ :=
      insertPoint_eq (isRow_digits coefficient) (k + 1)
    have hplain : plainDigits ⟨negative, coefficient, .negSucc k⟩ = whole ++ '.' :: fraction :=
      hpoint
    refine ⟨layout negative whole (some fraction) none,
      layout_proper hwhole hne (by simpa using hfraction) (by simp), rfl, ?_, ?_⟩
    · rw [layout_chars, plainChars, hplain]
      simp [pointText, exponentText]
    · rw [layout_decimal, expanded_of_nonpos (Int.negSucc_lt_zero k).le]
      simp [hsame, rowValue_digits, hplaces, Int.negSucc_eq]

/-! ## Scientific notation -/

/-- One digit before the point, the others after it and the exponent of the
first one spell the number. -/
theorem exists_mantissaChars (d : Decimal) : ∃ s : Spelling, s.Proper ∧
    s.chars = signChars d.negative ++ mantissaChars (digits d.coefficient) ++
      exponentChars d.adjusted ∧ s.decimal = d := by
  obtain ⟨negative, coefficient, exponent⟩ := d
  have hrow := isRow_digits coefficient
  have hvalue := rowValue_digits coefficient
  have hcount : adjusted ⟨negative, coefficient, exponent⟩ =
      exponent + (digits coefficient).length - 1 := rfl
  have hpart : ∀ x ∈ some (exponentPart (adjusted ⟨negative, coefficient, exponent⟩)),
      x.Proper := by
    rintro x hx
    obtain rfl := Option.some.inj hx
    exact exponentPart_proper _
  match hdigits : digits coefficient with
  | [] => exact absurd hdigits (digits_ne_nil coefficient)
  | [c] =>
    rw [hdigits] at hrow hvalue hcount
    refine ⟨layout negative [c] none (some (exponentPart _)),
      layout_proper hrow (by simp) (by simp) hpart, ?_, ?_⟩
    · rw [layout_chars, exponentText_exponentPart]
      simp [pointText, mantissaChars]
    · rw [layout_decimal]
      simp [exponentPart_value, hvalue, hcount]
  | c :: c' :: cs =>
    rw [hdigits] at hrow hvalue hcount
    obtain ⟨hc, hcs⟩ := isRow_cons.1 hrow
    refine ⟨layout negative [c] (some (c' :: cs)) (some (exponentPart _)),
      layout_proper (isRow_cons.2 ⟨hc, by simp [IsRow]⟩) (by simp) (by simpa using hcs) hpart,
      ?_, ?_⟩
    · rw [layout_chars, exponentText_exponentPart]
      simp [pointText, mantissaChars]
    · rw [layout_decimal]
      simp only [Option.getD_some, Option.map_some, List.singleton_append, hvalue,
        exponentPart_value, hcount, List.length_cons, Decimal.mk.injEq, true_and]
      omega

/-- Scientific notation spells the number: same sign, same coefficient, same
exponent. -/
theorem exists_scientificChars (d : Decimal) : ∃ s : Spelling, s.Proper ∧
    s.chars = d.scientificChars ∧ s.decimal = d := by
  unfold scientificChars
  split
  · rename_i hplain
    obtain ⟨s, hproper, -, hchars, hdecimal⟩ := exists_plainChars d
    exact ⟨s, hproper, hchars, by rw [hdecimal, expanded_of_nonpos hplain.1]⟩
  · exact exists_mantissaChars d

end PrototypeLisp.Decimal
