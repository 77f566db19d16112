/-
PrototypeLisp.Proofs.Decimal.Spelling — number words by their written parts.

A spelling is a number word taken apart without losing a character: an
optional sign, the digits before the point, an optional point with the digits
after it, and an optional exponent with its mark, its sign and its digits. Its
number is the written sign, the integer that all digits before the exponent
spell, and the written exponent less the number of digits after the point.

The reader does not keep the parts. It is nevertheless exact: the words that
it accepts are those that have a spelling (`read?_eq_some_iff`), and the number
that it makes of them is the number of the spelling. Each part is found again
because the text after it starts with a character that the part cannot hold;
for the same reason a word has one spelling only (`chars_inj`).
-/
import PrototypeLisp.Proofs.Decimal.Digits

namespace PrototypeLisp.Numeral

open Text

/-! ## Written parts -/

/-- A written sign. -/
inductive Sign where
  | plus
  | minus
deriving DecidableEq

/-- An optional sign as text. -/
def signText : Option Sign → List Char
  | none => []
  | some .plus => ['+']
  | some .minus => ['-']

/-- The exponent of a number word. -/
structure ExponentPart where
  /-- The letter that starts it. -/
  mark : Char
  sign : Option Sign
  row : List Char
deriving DecidableEq

/-- An optional exponent as text. -/
def exponentText : Option ExponentPart → List Char
  | none => []
  | some x => x.mark :: (signText x.sign ++ x.row)

/-- An optional point with what follows it as text. -/
def pointText : Option (List Char) → List Char
  | none => []
  | some row => '.' :: row

/-- The parts of a number word as they are written. -/
structure Spelling where
  sign : Option Sign
  /-- The digits before the point. -/
  whole : List Char
  /-- The digits after the point, if there is one. -/
  fraction : Option (List Char)
  exponent : Option ExponentPart
deriving DecidableEq

/-- The integer that digits spell, the most significant one first. -/
def spelled (row : List Char) : Nat :=
  Nat.ofDigits 10 (row.filterMap digitValue?).reverse

namespace ExponentPart

/-- The mark is `e` in either case, and there are digits. -/
structure Proper (x : ExponentPart) : Prop where
  mark : x.mark = 'e' ∨ x.mark = 'E'
  row : IsDigits x.row
  nonempty : x.row ≠ []

/-- The exponent that is spelled. -/
def value (x : ExponentPart) : Int :=
  if x.sign = some .minus then -spelled x.row else spelled x.row

end ExponentPart

namespace Spelling

/-- The word. -/
def chars (s : Spelling) : List Char :=
  signText s.sign ++ (s.whole ++ (pointText s.fraction ++ exponentText s.exponent))

/-- Digits stand where digits should, and at least one beside the point. -/
structure Proper (s : Spelling) : Prop where
  whole : IsDigits s.whole
  fraction : ∀ row ∈ s.fraction, IsDigits row
  nonempty : s.whole ≠ [] ∨ ∃ row ∈ s.fraction, row ≠ []
  exponent : ∀ x ∈ s.exponent, x.Proper

/-- The number that is spelled. -/
def decimal (s : Spelling) : Decimal where
  negative := decide (s.sign = some .minus)
  coefficient := spelled (s.whole ++ s.fraction.getD [])
  exponent := (s.exponent.map ExponentPart.value).getD 0 - (s.fraction.getD []).length

end Spelling

/-! ## Values -/

theorem spelled_eq (row : List Char) : spelled row = rowValue row :=
  (ofDigits_eq _).symm

/-! ## Digits -/

theorem leadingDigits_row {row rest : List Char} (hrow : IsDigits row)
    (hrest : Stops isDigit rest) : leadingDigits (row ++ rest) = row.filterMap digitValue? := by
  rw [leadingDigits, (span_run hrow hrest).1]

theorem isDigits_takeWhile (cs : List Char) : IsDigits (cs.takeWhile isDigit) :=
  fun _ hc => List.mem_takeWhile_imp hc

theorem values_ne_nil {row : List Char} (hrow : IsDigits row) (hne : row ≠ []) :
    row.filterMap digitValue? ≠ [] := by
  intro hnil
  have hlength := length_values hrow
  rw [hnil] at hlength
  exact hne (List.eq_nil_of_length_eq_zero hlength.symm)

/-! ## Signs -/

/-- The text does not start with a sign. -/
def Unsigned (rest : List Char) : Prop :=
  ∀ c ∈ rest.head?, c ≠ '+' ∧ c ≠ '-'

theorem unsigned_of_isDigits {row : List Char} (hrow : IsDigits row) (hne : row ≠ [])
    (rest : List Char) : Unsigned (row ++ rest) := by
  cases row with
  | nil => exact absurd rfl hne
  | cons d row =>
    have hd : isDigit d = true := hrow d (by simp)
    intro c hc
    obtain rfl : d = c := by simpa using hc
    constructor <;> rintro rfl <;> exact absurd hd (by decide)

theorem takeSign_signText (sign : Option Sign) {rest : List Char} (hrest : Unsigned rest) :
    takeSign (signText sign ++ rest) = (decide (sign = some .minus), rest) := by
  match sign with
  | some .plus => rfl
  | some .minus => rfl
  | none =>
    show takeSign rest = (false, rest)
    unfold takeSign
    split
    · exact absurd rfl (hrest '+' (by simp)).1
    · exact absurd rfl (hrest '-' (by simp)).2
    · rfl

theorem exists_signText (word : List Char) :
    ∃ sign, word = signText sign ++ (takeSign word).2 := by
  unfold takeSign
  split
  · exact ⟨some .plus, rfl⟩
  · exact ⟨some .minus, rfl⟩
  · exact ⟨none, rfl⟩

theorem signText_append_inj {a b : Option Sign} {rest rest' : List Char} (hrest : Unsigned rest)
    (hrest' : Unsigned rest') (h : signText a ++ rest = signText b ++ rest') :
    a = b ∧ rest = rest' := by
  have hsame : rest = rest' := by
    have htake := takeSign_signText a hrest
    rw [h, takeSign_signText b hrest'] at htake
    exact (Prod.mk.inj htake).2.symm
  subst hsame
  have htext := List.append_cancel_right h
  match a, b with
  | none, none | some .plus, some .plus | some .minus, some .minus => exact ⟨rfl, rfl⟩
  | none, some .plus | none, some .minus | some .plus, none | some .minus, none =>
    simp [signText] at htext
  | some .plus, some .minus | some .minus, some .plus => simp [signText] at htext

/-! ## Exponents -/

theorem stops_exponentText {x? : Option ExponentPart} (h : ∀ x ∈ x?, x.Proper) :
    Stops isDigit (exponentText x?) ∧ ∀ c ∈ (exponentText x?).head?, c ≠ '.' := by
  cases x? with
  | none => simp [exponentText, Stops]
  | some x =>
    rw [exponentText, stops_cons]
    rcases (h x rfl).mark with hmark | hmark <;> rw [hmark] <;> simp <;> decide

theorem readExponent?_exponentText {x? : Option ExponentPart} (h : ∀ x ∈ x?, x.Proper) :
    readExponent? (exponentText x?) = some ((x?.map ExponentPart.value).getD 0) := by
  cases x? with
  | none => rfl
  | some x =>
    obtain ⟨hmark, hrow, hne⟩ := h x rfl
    have hunsigned : Unsigned x.row := by
      simpa using unsigned_of_isDigits hrow hne []
    have hleading : leadingDigits x.row = x.row.filterMap digitValue? := by
      simpa using leadingDigits_row hrow stops_nil
    have hall : x.row.all isDigit = true := List.all_eq_true.2 hrow
    simp only [exponentText, readExponent?, takeSign_signText x.sign hunsigned]
    rw [if_pos ⟨hmark, hne, hall⟩, hleading]
    simp [ExponentPart.value, signed, spelled_eq, rowValue]

/-- What is read as an exponent is written as one. -/
theorem exists_exponentText {rest : List Char} {e : Int} (h : readExponent? rest = some e) :
    ∃ x?, (∀ x ∈ x?, ExponentPart.Proper x) ∧ rest = exponentText x? := by
  cases rest with
  | nil => exact ⟨none, by simp, rfl⟩
  | cons c cs =>
    simp only [readExponent?] at h
    split at h
    · rename_i hparts
      obtain ⟨hmark, hne, hall⟩ := hparts
      obtain ⟨sign, hsign⟩ := exists_signText cs
      refine ⟨some ⟨c, sign, (takeSign cs).2⟩, ?_, by rw [exponentText, ← hsign]⟩
      rintro x hx
      obtain rfl := Option.some.inj hx
      exact ⟨hmark, List.all_eq_true.1 hall, hne⟩
    · simp at h

theorem exponentText_inj {x? y? : Option ExponentPart} (hx : ∀ x ∈ x?, x.Proper)
    (hy : ∀ y ∈ y?, y.Proper) (h : exponentText x? = exponentText y?) : x? = y? := by
  match x?, y? with
  | none, none => rfl
  | none, some y => simp [exponentText] at h
  | some x, none => simp [exponentText] at h
  | some x, some y =>
    obtain ⟨hmark, htext⟩ := List.cons.inj h
    have hunsigned : ∀ z : ExponentPart, z.Proper → Unsigned z.row := by
      intro z hz
      simpa using unsigned_of_isDigits hz.row hz.nonempty []
    obtain ⟨hsign, hrow⟩ :=
      signText_append_inj (hunsigned x (hx x rfl)) (hunsigned y (hy y rfl)) htext
    cases x
    cases y
    simp_all

/-! ## Fractions -/

theorem takeFraction_pointText {fraction : Option (List Char)} {rest : List Char}
    (hfraction : ∀ row ∈ fraction, IsDigits row) (hrest : Stops isDigit rest)
    (hpoint : ∀ c ∈ rest.head?, c ≠ '.') :
    takeFraction (pointText fraction ++ rest) =
      ((fraction.getD []).filterMap digitValue?, rest) := by
  cases fraction with
  | some row =>
    have hrow := hfraction row rfl
    show (leadingDigits (row ++ rest), (row ++ rest).dropWhile isDigit) = _
    rw [leadingDigits_row hrow hrest, (span_run hrow hrest).2]
    rfl
  | none =>
    show takeFraction rest = ([], rest)
    unfold takeFraction
    split
    · exact absurd rfl (hpoint '.' (by simp))
    · rfl

theorem exists_pointText (cs : List Char) :
    ∃ fraction, (∀ row ∈ fraction, IsDigits row) ∧
      (takeFraction cs).1 = (fraction.getD []).filterMap digitValue? ∧
        cs = pointText fraction ++ (takeFraction cs).2 := by
  unfold takeFraction
  split
  · rename_i cs
    refine ⟨some (cs.takeWhile isDigit), ?_, rfl, by simp [pointText]⟩
    intro row hrow
    obtain rfl := Option.some.inj hrow
    exact isDigits_takeWhile cs
  · exact ⟨none, by simp, rfl, rfl⟩

theorem stops_pointText {fraction : Option (List Char)} {rest : List Char}
    (hrest : Stops isDigit rest) : Stops isDigit (pointText fraction ++ rest) := by
  cases fraction with
  | none => exact hrest
  | some row => exact stops_cons.2 (by decide)

theorem pointText_append_inj {a b : Option (List Char)} {rest rest' : List Char}
    (ha : ∀ row ∈ a, IsDigits row) (hb : ∀ row ∈ b, IsDigits row) (hrest : Stops isDigit rest)
    (hpoint : ∀ c ∈ rest.head?, c ≠ '.') (hrest' : Stops isDigit rest')
    (hother : ∀ c ∈ rest'.head?, c ≠ '.') (h : pointText a ++ rest = pointText b ++ rest') :
    a = b ∧ rest = rest' := by
  match a, b with
  | none, none => exact ⟨rfl, h⟩
  | none, some row =>
    obtain rfl : rest = '.' :: (row ++ rest') := h
    exact absurd rfl (hpoint '.' (by simp))
  | some row, none =>
    obtain rfl : '.' :: (row ++ rest) = rest' := h
    exact absurd rfl (hother '.' (by simp))
  | some row, some row' =>
    obtain ⟨rfl, rfl⟩ :=
      run_append_inj (ha row rfl) (hb row' rfl) hrest hrest' (List.cons.inj h).2
    exact ⟨rfl, rfl⟩

/-! ## Words -/

namespace Spelling

variable {s t : Spelling}

theorem Proper.unsigned (h : s.Proper) :
    Unsigned (s.whole ++ (pointText s.fraction ++ exponentText s.exponent)) := by
  by_cases hwhole : s.whole = []
  · obtain ⟨row, hrow, -⟩ := h.nonempty.resolve_left (by simp [hwhole])
    have hfraction : s.fraction = some row := hrow
    rw [hwhole, hfraction]
    simp [Unsigned, pointText]
  · exact unsigned_of_isDigits h.whole hwhole _

/-- The reader finds the number of a spelling. -/
theorem Proper.read?_chars (h : s.Proper) :
    ∃ numeral, read? s.chars = some numeral ∧ numeral.toDecimal = s.decimal := by
  obtain ⟨hends, hpoint⟩ := stops_exponentText h.exponent
  have hbody : Stops isDigit (pointText s.fraction ++ exponentText s.exponent) :=
    stops_pointText hends
  have hsome : ¬ (s.whole.filterMap digitValue? = [] ∧
      (s.fraction.getD []).filterMap digitValue? = []) := by
    rintro ⟨hwhole, hfraction⟩
    rcases h.nonempty with hne | ⟨row, hrow, hne⟩
    · exact values_ne_nil h.whole hne hwhole
    · have hsome : s.fraction = some row := hrow
      rw [hsome] at hfraction
      exact values_ne_nil (h.fraction row hrow) hne hfraction
  have hread : read? s.chars = some ⟨decide (s.sign = some .minus),
      s.whole.filterMap digitValue?, (s.fraction.getD []).filterMap digitValue?,
      (s.exponent.map ExponentPart.value).getD 0⟩ := by
    simp only [read?, chars, takeSign_signText s.sign h.unsigned,
      leadingDigits_row h.whole hbody, (span_run h.whole hbody).2,
      takeFraction_pointText h.fraction hends hpoint, readExponent?_exponentText h.exponent]
    rw [if_neg hsome, Option.map_some]
  have hlength : ((s.fraction.getD []).filterMap digitValue?).length =
      (s.fraction.getD []).length := by
    refine length_values ?_
    cases hfraction : s.fraction with
    | none => simp [IsDigits]
    | some row => exact h.fraction row hfraction
  refine ⟨_, hread, ?_⟩
  simp [toDecimal, decimal, spelled_eq, rowValue, hlength]

/-- A word that the reader accepts has a spelling. -/
theorem exists_of_read? {word : List Char} {numeral : Numeral}
    (h : read? word = some numeral) : ∃ s : Spelling, s.Proper ∧ s.chars = word := by
  simp only [read?] at h
  split at h
  · simp at h
  · rename_i hsome
    obtain ⟨e, hexponent, -⟩ := Option.map_eq_some_iff.1 h
    obtain ⟨sign, hsign⟩ := exists_signText word
    obtain ⟨fraction, hfraction, hvalues, hpointed⟩ :=
      exists_pointText ((takeSign word).2.dropWhile isDigit)
    obtain ⟨exponent, hproper, hrest⟩ := exists_exponentText hexponent
    refine ⟨⟨sign, (takeSign word).2.takeWhile isDigit, fraction, exponent⟩,
      ⟨isDigits_takeWhile _, hfraction, ?_, hproper⟩, ?_⟩
    · by_contra hnone
      push Not at hnone
      obtain ⟨hwhole, hrows⟩ := hnone
      have hnil : (takeSign word).2.takeWhile isDigit = [] := hwhole
      refine hsome ⟨by rw [leadingDigits, hnil, List.filterMap_nil], ?_⟩
      rw [hvalues]
      cases fraction with
      | none => rfl
      | some row =>
        obtain rfl : row = [] := hrows row rfl
        rfl
    · rw [chars, ← hrest, ← hpointed, List.takeWhile_append_dropWhile, ← hsign]

/-- A word is spelled in one way. -/
theorem chars_inj (hs : s.Proper) (ht : t.Proper) (h : s.chars = t.chars) : s = t := by
  obtain ⟨hends, hpoint⟩ := stops_exponentText hs.exponent
  obtain ⟨hends', hpoint'⟩ := stops_exponentText ht.exponent
  obtain ⟨hsign, hbody⟩ := signText_append_inj hs.unsigned ht.unsigned h
  obtain ⟨hwhole, hpointed⟩ := run_append_inj hs.whole ht.whole (stops_pointText hends)
    (stops_pointText hends') hbody
  obtain ⟨hfraction, hrest⟩ := pointText_append_inj hs.fraction ht.fraction hends hpoint hends'
    hpoint' hpointed
  have hexponent := exponentText_inj hs.exponent ht.exponent hrest
  cases s
  cases t
  simp_all

end Spelling

/-- Read as a number is what has a spelling, and the number is that of the
spelling. -/
theorem read?_eq_some_iff {word : List Char} {d : Decimal} :
    (∃ numeral, read? word = some numeral ∧ numeral.toDecimal = d) ↔
      ∃ s : Spelling, s.Proper ∧ s.chars = word ∧ s.decimal = d := by
  constructor
  · rintro ⟨numeral, hread, rfl⟩
    obtain ⟨s, hproper, rfl⟩ := Spelling.exists_of_read? hread
    obtain ⟨other, hother, hdecimal⟩ := hproper.read?_chars
    obtain rfl : other = numeral := Option.some.inj (hother.symm.trans hread)
    exact ⟨s, hproper, rfl, hdecimal.symm⟩
  · rintro ⟨s, hproper, rfl, rfl⟩
    exact hproper.read?_chars

end PrototypeLisp.Numeral
