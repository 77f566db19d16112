/-
PrototypeLisp.Proofs.Decimal.Digits — rows of digits and what they spell.

A row is a list of the characters `0` to `9`, and its value is the number that
the reader takes it for. Rows put together spell the first one shifted by the
length of the second one plus the second one; from this follow the halving by
which digits are written (`paddedDigits`) and the dropping of leading zeros.
The digits of a number are a row that spells it (`rowValue_digits`), the one
without a zero in front, so that a power of ten lengthens it by its exponent
(`digitCount_mul_pow`).
-/
import Mathlib.Data.List.Induction
import Mathlib.Data.Nat.Digits.Lemmas
import Mathlib.Tactic.Ring
import PrototypeLisp.Decimal.Numeral
import PrototypeLisp.Proofs.Text.Runs

namespace PrototypeLisp

open Text

/-! ## Digits -/

/-- A digit from `0` to `9` stands for its distance from `0`. -/
theorem digitValue?_of_isDigit {c : Char} (h : c.isDigit = true) :
    digitValue? c = some (c.toNat - 48) := by
  have hbounds : 48 ≤ c.toNat ∧ c.toNat < 58 := by
    obtain ⟨hlow, hhigh⟩ := Char.isDigit_iff_toNat.1 h
    exact ⟨hlow, Nat.lt_succ_of_le hhigh⟩
  unfold digitValue? digitZeros
  rw [List.findSome?_cons, if_pos hbounds]

theorem isDigit_of_decimal {c : Char} (h : c.isDigit = true) : isDigit c = true := by
  rw [isDigit, digitValue?_of_isDigit h]
  rfl

/-- Digits of any scripts. -/
def IsDigits (row : List Char) : Prop :=
  ∀ c ∈ row, isDigit c = true

instance (row : List Char) : Decidable (IsDigits row) :=
  List.decidableBAll _ row

/-- Every digit counts. -/
theorem length_values {row : List Char} (h : IsDigits row) :
    (row.filterMap digitValue?).length = row.length := by
  induction row with
  | nil => rfl
  | cons c row ih =>
    obtain ⟨hc, hrow⟩ := List.forall_mem_cons.1 h
    obtain ⟨value, hvalue⟩ := Option.isSome_iff_exists.1 hc
    simp [hvalue, ih hrow]

theorem ofDigits_append_singleton (values : List Nat) (value : Nat) :
    ofDigits (values ++ [value]) = 10 * ofDigits values + value := by
  simp [ofDigits]

/-- The reader takes the most significant digit first. -/
theorem ofDigits_eq (values : List Nat) : ofDigits values = Nat.ofDigits 10 values.reverse := by
  induction values using List.reverseRecOn with
  | nil => rfl
  | append_singleton values value ih =>
    rw [ofDigits_append_singleton, ih, List.reverse_append, List.reverse_singleton,
      List.singleton_append, Nat.ofDigits_cons]
    omega

/-- Digits after others shift them to the left. -/
theorem ofDigits_append (a b : List Nat) :
    ofDigits (a ++ b) = ofDigits a * 10 ^ b.length + ofDigits b := by
  induction b using List.reverseRecOn with
  | nil => simp [ofDigits]
  | append_singleton b value ih =>
    rw [← List.append_assoc, ofDigits_append_singleton, ofDigits_append_singleton, ih,
      List.length_append, List.length_singleton, Nat.pow_succ]
    ring

/-! ## Rows -/

/-- A row of the digits from `0` to `9`. -/
def IsRow (row : List Char) : Prop :=
  ∀ c ∈ row, c.isDigit = true

/-- The number that a row of digits spells. -/
def rowValue (row : List Char) : Nat :=
  ofDigits (row.filterMap digitValue?)

theorem isRow_append {a b : List Char} : IsRow (a ++ b) ↔ IsRow a ∧ IsRow b :=
  List.forall_mem_append

theorem isRow_cons {c : Char} {row : List Char} :
    IsRow (c :: row) ↔ c.isDigit = true ∧ IsRow row :=
  List.forall_mem_cons

theorem isRow_replicate_zero (k : Nat) : IsRow (List.replicate k '0') := by
  intro c hc
  rw [List.eq_of_mem_replicate hc]
  rfl

theorem IsRow.isDigits {row : List Char} (h : IsRow row) : IsDigits row :=
  fun c hc => isDigit_of_decimal (h c hc)

theorem rowValue_append (a : List Char) {b : List Char} (hb : IsRow b) :
    rowValue (a ++ b) = rowValue a * 10 ^ b.length + rowValue b := by
  rw [rowValue, List.filterMap_append, ofDigits_append, length_values hb.isDigits]
  rfl

/-- Zeros in front do not count. -/
theorem rowValue_zero_cons {row : List Char} (h : IsRow row) :
    rowValue ('0' :: row) = rowValue row := by
  have hzero : rowValue ['0'] = 0 := rfl
  have hsplit := rowValue_append ['0'] h
  rw [hzero, Nat.zero_mul, Nat.zero_add] at hsplit
  exact hsplit

theorem rowValue_replicate_append (k : Nat) {row : List Char} (h : IsRow row) :
    rowValue (List.replicate k '0' ++ row) = rowValue row := by
  induction k with
  | zero => rfl
  | succ k ih =>
    rw [List.replicate_succ, List.cons_append,
      rowValue_zero_cons (isRow_append.2 ⟨isRow_replicate_zero k, h⟩), ih]

theorem rowValue_replicate_zero (k : Nat) : rowValue (List.replicate k '0') = 0 := by
  have hzeros := rowValue_replicate_append k (show IsRow [] by simp [IsRow])
  rw [List.append_nil] at hzeros
  exact hzeros

theorem rowValue_dropWhile_zero {row : List Char} (h : IsRow row) :
    rowValue (row.dropWhile (· = '0')) = rowValue row := by
  induction row with
  | nil => rfl
  | cons c row ih =>
    obtain ⟨-, hrow⟩ := isRow_cons.1 h
    rw [List.dropWhile_cons]
    split
    · rename_i hc
      obtain rfl : c = '0' := by simpa using hc
      rw [ih hrow, rowValue_zero_cons hrow]
    · rfl

/-! ## The digits of a number -/

namespace Decimal

/-- The last digits of a number are a row of the right length that spells its
remainder. -/
theorem paddedDigits_eq (k n : Nat) (rest : List Char) :
    ∃ row, paddedDigits k n rest = row ++ rest ∧ IsRow row ∧ row.length = 2 ^ k ∧
      rowValue row = n % 10 ^ 2 ^ k := by
  induction k generalizing n rest with
  | zero =>
    have hlt : n % 10 < 10 := Nat.mod_lt _ (by decide)
    have hdigit : (n % 10).digitChar.isDigit = true := by
      rw [Nat.isDigit_digitChar]
      exact decide_eq_true hlt
    refine ⟨[(n % 10).digitChar], rfl, isRow_cons.2 ⟨hdigit, by simp [IsRow]⟩, rfl, ?_⟩
    simp [rowValue, ofDigits, digitValue?_of_isDigit hdigit, Nat.toNat_digitChar_of_lt_ten hlt]
  | succ k ih =>
    obtain ⟨low, hlow, hlowRow, hlowLength, hlowValue⟩ := ih (n % 10 ^ 2 ^ k) rest
    obtain ⟨high, hhigh, hhighRow, hhighLength, hhighValue⟩ := ih (n / 10 ^ 2 ^ k) (low ++ rest)
    refine ⟨high ++ low, ?_, isRow_append.2 ⟨hhighRow, hlowRow⟩, ?_, ?_⟩
    · simp only [paddedDigits, Nat.pow_eq]
      rw [hlow, hhigh, List.append_assoc]
    · rw [List.length_append, hhighLength, hlowLength, Nat.pow_succ]
      ring
    · have hsquare : 10 ^ 2 ^ (k + 1) = 10 ^ 2 ^ k * 10 ^ 2 ^ k := by
        rw [← Nat.pow_add, Nat.pow_succ]
        ring_nf
      rw [rowValue_append high hlowRow, hhighValue, hlowValue, hlowLength, hsquare, Nat.mod_mul,
        Nat.mod_mod]
      ring

/-- The bound on the number of digits is one: eight to a third of the bits of a
number is above the number. -/
theorem lt_pow_digitBound (n : Nat) : n < 10 ^ 2 ^ digitBound n := by
  have hbound : n.log2 / 3 + 2 ≤ 2 ^ digitBound n := Nat.lt_log2_self
  calc
    n < 2 ^ (n.log2 + 1) := Nat.lt_log2_self
    _ ≤ 2 ^ (3 * (n.log2 / 3 + 2)) := Nat.pow_le_pow_right (by decide) (by omega)
    _ = 8 ^ (n.log2 / 3 + 2) := Nat.pow_mul 2 3 _
    _ ≤ 10 ^ (n.log2 / 3 + 2) := Nat.pow_le_pow_left (by decide) _
    _ ≤ 10 ^ 2 ^ digitBound n := Nat.pow_le_pow_right (by decide) hbound

/-- The digits of a number are a row. -/
theorem isRow_digits (n : Nat) : IsRow (digits n) := by
  unfold digits
  split
  · exact isRow_cons.2 ⟨rfl, by simp [IsRow]⟩
  · obtain ⟨row, hrow, hdigits, -⟩ := paddedDigits_eq (digitBound n) n []
    rw [hrow, List.append_nil]
    exact fun c hc => hdigits c ((List.dropWhile_sublist _).subset hc)

/-- The digits of a number spell it. -/
theorem rowValue_digits (n : Nat) : rowValue (digits n) = n := by
  unfold digits
  split
  · rename_i hzero
    rw [hzero]
    rfl
  · obtain ⟨row, hrow, hdigits, -, hvalue⟩ := paddedDigits_eq (digitBound n) n []
    rw [hrow, List.append_nil, rowValue_dropWhile_zero hdigits, hvalue]
    exact Nat.mod_eq_of_lt (lt_pow_digitBound n)

theorem digits_ne_nil (n : Nat) : digits n ≠ [] := by
  intro hnil
  have hzero : n = 0 := by
    rw [← rowValue_digits n, hnil]
    rfl
  rw [hzero] at hnil
  simp [digits] at hnil

/-! ## The number of digits -/

/-- The digits of a number other than zero do not start with a zero. -/
theorem head_digits_ne {n : Nat} (hn : n ≠ 0) : ∀ c ∈ (digits n).head?, c ≠ '0' := by
  intro c hc
  rw [digits, if_neg hn] at hc
  simpa using stops_dropWhile (fun c => decide (c = '0')) _ c hc

/-- A digit that is not a zero does not stand for zero. -/
theorem digit_ne_zero {c : Char} (hdigit : c.isDigit = true) (hc : c ≠ '0') :
    c.toNat - 48 ≠ 0 := by
  have hlow : 48 ≤ c.toNat := (Char.isDigit_iff_toNat.1 hdigit).1
  intro hzero
  have hsame : c.toNat = '0'.toNat := by
    show c.toNat = 48
    omega
  exact hc (Char.toNat_inj.1 hsame)

/-- The digits of a number stand for its digits in base ten. -/
theorem values_digits {n : Nat} (hn : n ≠ 0) :
    (digits n).filterMap digitValue? = (Nat.digits 10 n).reverse := by
  have hrow := isRow_digits n
  have hsmall : ∀ value ∈ ((digits n).filterMap digitValue?).reverse, value < 10 := by
    intro value hvalue
    obtain ⟨c, hc, hdigit⟩ := List.mem_filterMap.1 (List.mem_reverse.1 hvalue)
    rw [digitValue?_of_isDigit (hrow c hc)] at hdigit
    obtain rfl := Option.some.inj hdigit
    have hhigh : c.toNat ≤ 57 := (Char.isDigit_iff_toNat.1 (hrow c hc)).2
    omega
  have hlast : ∀ h : ((digits n).filterMap digitValue?).reverse ≠ [],
      ((digits n).filterMap digitValue?).reverse.getLast h ≠ 0 := by
    obtain ⟨c, cs, hdigits⟩ := List.exists_cons_of_ne_nil (digits_ne_nil n)
    have hdigit : c.isDigit = true := hrow c (by simp [hdigits])
    have hhead : c ≠ '0' := head_digits_ne hn c (by simp [hdigits])
    simp only [hdigits, List.filterMap_cons, digitValue?_of_isDigit hdigit]
    intro h
    rw [List.getLast_reverse]
    exact digit_ne_zero hdigit hhead
  have hbase := Nat.digits_ofDigits 10 (by decide) _ hsmall hlast
  have hvalue : ofDigits ((digits n).filterMap digitValue?) = n := rowValue_digits n
  rw [← ofDigits_eq, hvalue] at hbase
  rw [hbase, List.reverse_reverse]

/-- Times a power of ten, a number other than zero has as many digits more. -/
theorem digitCount_mul_pow {n : Nat} (hn : n ≠ 0) (k : Nat) :
    digitCount (n * 10 ^ k) = digitCount n + k := by
  have hcount : ∀ {m : Nat}, m ≠ 0 → digitCount m = (Nat.digits 10 m).length := by
    intro m hm
    rw [digitCount, ← length_values (isRow_digits m).isDigits, values_digits hm,
      List.length_reverse]
  have hproduct : n * 10 ^ k ≠ 0 := Nat.mul_ne_zero hn (Nat.pow_pos (by decide)).ne'
  rw [hcount hproduct, hcount hn, Nat.mul_comm,
    Nat.digits_base_pow_mul (by decide) (Nat.pos_of_ne_zero hn), List.length_append,
    List.length_replicate, Nat.add_comm]

end Decimal

end PrototypeLisp
