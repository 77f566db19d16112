/-
PrototypeLisp.Proofs.Expr.RoundTrip — reading what was printed.

The readable expressions are those that have a spelling: their names and atoms
are words, their numbers lie in the exponent range, and the head of a form is a
name or a form. The grammar derives no others from the tokens of a text. The
text of a readable expression holds no semicolon and lexes to tokens that spell
the expression again (`Spelled`): a space or a parenthesis stands between two
words, a number is read with the sign, the coefficient and the exponent it has,
and a colon makes any word an atom.
-/
import PrototypeLisp.Proofs.Decimal.Notation
import PrototypeLisp.Proofs.Expr.Grammar
import PrototypeLisp.Proofs.Token.Words

namespace PrototypeLisp

/-! ## Words of numbers and atoms -/

/-- No digit of any script separates words. -/
theorem isWordChar_of_isDigit {c : Char} (h : Text.isDigit c = true) : isWordChar c = true := by
  -- the rows of digits lie between the blanks
  have hrows : ∀ z ∈ Text.digitZeros, z = 0x30 ∨ (0xA0 < z ∧ z + 10 ≤ 0x1680) ∨
      (0x1680 < z ∧ z + 10 ≤ 0x2000) ∨ 0x3000 < z := by
    decide
  obtain ⟨value, hvalue⟩ := Option.isSome_iff_exists.1 h
  obtain ⟨z, hz, hrow⟩ := List.exists_of_findSome?_eq_some hvalue
  have hzero := hrows z hz
  split at hrow
  · rename_i hbounds
    have hblank : Text.isBlank c = false := by
      simp only [Text.isBlank, Bool.or_eq_false_iff, Bool.and_eq_false_iff,
        decide_eq_false_iff_not, beq_eq_false_iff_ne]
      omega
    refine isWordChar_iff.2 ⟨hblank, ?_, ?_, ?_⟩
    · rintro rfl
      change z ≤ 0x28 ∧ 0x28 < z + 10 at hbounds
      omega
    · rintro rfl
      change z ≤ 0x29 ∧ 0x29 < z + 10 at hbounds
      omega
    · rintro rfl
      change z ≤ 0x3B ∧ 0x3B < z + 10 at hbounds
      omega
  · simp at hrow

namespace Numeral

theorem isWordChar_signText (sign : Option Sign) :
    ∀ c ∈ signText sign, isWordChar c = true := by
  match sign with
  | none => simp [signText]
  | some .plus => exact List.forall_mem_singleton.2 (by decide)
  | some .minus => exact List.forall_mem_singleton.2 (by decide)

/-- A number word is a word. -/
theorem Spelling.Proper.isWord {s : Spelling} (h : s.Proper) : IsWord s.chars := by
  obtain ⟨numeral, hread, -⟩ := h.read?_chars
  have hrow : ∀ {row : List Char}, IsDigits row → ∀ c ∈ row, isWordChar c = true :=
    fun hrow c hc => isWordChar_of_isDigit (hrow c hc)
  have hpoint : ∀ c ∈ pointText s.fraction, isWordChar c = true := by
    cases hfraction : s.fraction with
    | none => simp [pointText]
    | some row =>
      exact List.forall_mem_cons.2 ⟨by decide, hrow (h.fraction row hfraction)⟩
  have hexponent : ∀ c ∈ exponentText s.exponent, isWordChar c = true := by
    cases hpart : s.exponent with
    | none => simp [exponentText]
    | some x =>
      obtain ⟨hmark, hdigits, -⟩ := h.exponent x hpart
      refine List.forall_mem_cons.2 ⟨?_, List.forall_mem_append.2
        ⟨isWordChar_signText x.sign, hrow hdigits⟩⟩
      rcases hmark with hmark | hmark <;> rw [hmark] <;> decide
  constructor
  · intro hnil
    rw [hnil] at hread
    simp [Numeral.read?, takeSign, leadingDigits, takeFraction] at hread
  · simp only [Spelling.chars, List.forall_mem_append]
    exact ⟨isWordChar_signText s.sign, hrow h.whole, hpoint, hexponent⟩

end Numeral

/-- No number starts with a colon. -/
theorem read?_colon (cs : List Char) : Numeral.read? (':' :: cs) = none := by
  have hcolon : Text.isDigit ':' = false := by decide
  simp [Numeral.read?, Numeral.takeSign, Numeral.leadingDigits, Numeral.takeFraction, hcolon]

theorem IsWord.colon {word : List Char} (h : IsWord word) : IsWord (':' :: word) :=
  ⟨by simp, List.forall_mem_cons.2 ⟨by decide, h.2⟩⟩

theorem WordKind.of_colon {word : List Char} (h : word ≠ []) : of (':' :: word) = .atom := by
  obtain ⟨c, cs, rfl⟩ := List.exists_cons_of_ne_nil h
  exact of_eq_atom_iff.2 ⟨read?_colon _, c, cs, rfl⟩

namespace Expr

/-! ## Readable expressions -/

/-- The expressions that have a spelling. -/
inductive Readable : Expr → Prop where
  | number {value : Decimal} (hrange : value.InRange) : Readable (.number value)
  | atom {name : String} (hword : IsWord name.toList) : Readable (.atom name)
  | name {name : String} (hword : IsWord name.toList)
      (hkind : WordKind.of name.toList = .name) : Readable (.variable name)
  | named {name : String} {arguments : List Expr} (hword : IsWord name.toList)
      (hkind : WordKind.of name.toList = .name) (h : ∀ e ∈ arguments, Readable e) :
      Readable (.form name arguments)
  | headed {name : String} {inner arguments : List Expr} (hhead : Readable (.form name inner))
      (h : ∀ e ∈ arguments, Readable e) : Readable (.form "" (.form name inner :: arguments))

end Expr

namespace Grammar

open PrototypeLisp.Expr

mutual

/-- What words spell is readable. -/
theorem Expression.readable {tokens : List Token} {e : Expr} (hwords : AllWords tokens) :
    Expression tokens e → e.Readable
  | .number hread hrange => .number hrange
  | @Expression.atom text hkind => by
    obtain ⟨-, c, cs, hcs⟩ := WordKind.of_eq_atom_iff.1 hkind
    have hword := hwords text (by simp)
    rw [hcs] at hword ⊢
    refine .atom ?_
    rw [List.tail_cons, String.toList_ofList]
    exact ⟨by simp, fun c hc => hword.2 c (List.mem_cons_of_mem _ hc)⟩
  | @Expression.name text hkind => .name (hwords text (by simp)) hkind
  | .form h => h.readable hwords

theorem Form.readable {tokens : List Token} {e : Expr} (hwords : AllWords tokens) :
    Form tokens e → e.Readable
  | @Form.named name inner arguments hkind h => by
    refine .named (hwords name (by simp)) hkind (h.readable fun text htext => hwords text ?_)
    simp [htext]
  | @Form.headed first inner head arguments hhead h => by
    obtain ⟨name, items, rfl⟩ := hhead.exists_eq
    refine .headed (hhead.readable fun text htext => hwords text ?_)
      (h.readable fun text htext => hwords text ?_)
    · simp [htext]
    · simp [htext]

theorem Expressions.readable {tokens : List Token} {es : List Expr} (hwords : AllWords tokens) :
    Expressions tokens es → ∀ e ∈ es, e.Readable
  | .nil => by simp
  | .cons h hs => List.forall_mem_cons.2
    ⟨h.readable fun text htext => hwords text (List.mem_append_left _ htext),
      hs.readable fun text htext => hwords text (List.mem_append_right _ htext)⟩

end

end Grammar

namespace Expr

open Grammar

/-! ## Printed expressions -/

/-- The text of the expression has no comments, and its tokens spell the
expression. -/
structure Spelled (e : Expr) : Prop where
  plain : ';' ∉ e.chars
  derived : Expression (lexChars e.chars) e

/-- A text that is one word has no comments and is one token. -/
theorem spelled_of_word {e : Expr} {word : List Char} (hchars : e.chars = word)
    (hword : IsWord word) (h : Expression [.word (String.ofList word)] e) : e.Spelled where
  plain := hchars ▸ hword.semicolon_not_mem
  derived := by rwa [hchars, lexChars_word hword]

theorem lexChars_append_spacedChars {cs : List Char} (hcs : ';' ∉ cs) (es : List Expr) :
    lexChars (cs ++ spacedChars es) = lexChars cs ++ lexChars (spacedChars es) := by
  cases es with
  | nil => simp [spacedChars]
  | cons e es =>
    rw [spacedChars, List.cons_append, lexChars_cut hcs (.blank (by decide)), lexChars_space,
      List.nil_append]

/-- The texts of expressions with spaces between them spell the expressions one
after the other. -/
theorem spelled_joinedChars {es : List Expr} (h : ∀ e ∈ es, e.Spelled) :
    ';' ∉ joinedChars es ∧ Expressions (lexChars (joinedChars es)) es := by
  induction es with
  | nil => exact ⟨by simp [joinedChars], .nil⟩
  | cons e es ih =>
    obtain ⟨he, hes⟩ := List.forall_mem_cons.1 h
    obtain ⟨hplain, hderived⟩ := ih hes
    have hspaced : ';' ∉ spacedChars es ∧
        lexChars (spacedChars es) = lexChars (joinedChars es) := by
      cases es with
      | nil => simp [spacedChars, joinedChars]
      | cons f fs => exact ⟨by simpa [spacedChars, joinedChars] using hplain, lexChars_space _⟩
    constructor
    · simp [joinedChars, he.plain, hspaced.1]
    · rw [joinedChars, lexChars_append_spacedChars he.plain, hspaced.2]
      exact .cons he.derived hderived

/-- Parentheses around the texts of items spell the form with these items. -/
theorem spelled_of_items {items : List Expr} {e : Expr} (hbuilt : ofItems items = .ok e)
    (hitems : ∀ item ∈ items, item.Spelled)
    (hchars : e.chars = '(' :: (joinedChars items ++ [')'])) : e.Spelled := by
  obtain ⟨hplain, hderived⟩ := spelled_joinedChars hitems
  constructor
  · simp [hchars, hplain]
  · rw [hchars, lexChars_enclosed hplain]
    exact .form (form_iff.2 ⟨_, _, rfl, hderived, hbuilt⟩)

theorem spelled_name {name : String} (hword : IsWord name.toList)
    (hkind : WordKind.of name.toList = .name) : (Expr.variable name).Spelled := by
  have hname : Expression [.word (String.ofList name.toList)] (.variable name) := by
    rw [String.ofList_toList]
    exact .name hkind
  exact spelled_of_word rfl hword hname

/-- The text of a readable expression spells it. -/
theorem Readable.spelled {e : Expr} (h : e.Readable) : e.Spelled := by
  induction h with
  | @number value hrange =>
    obtain ⟨s, hproper, hchars, hdecimal⟩ := value.exists_scientificChars
    obtain ⟨numeral, hread, hvalue⟩ := hproper.read?_chars
    obtain rfl : numeral.toDecimal = value := hvalue.trans hdecimal
    refine spelled_of_word hchars.symm hproper.isWord (.number ?_ hrange)
    rwa [String.toList_ofList]
  | @atom name hword =>
    have hkind := WordKind.of_colon hword.1
    have hatom : Expression [.word (String.ofList (':' :: name.toList))]
        (.atom (String.ofList (String.ofList (':' :: name.toList)).toList.tail)) :=
      .atom (by rwa [String.toList_ofList])
    rw [String.toList_ofList, List.tail_cons, String.ofList_toList] at hatom
    exact spelled_of_word rfl hword.colon hatom
  | name hword hkind => exact spelled_name hword hkind
  | @named name arguments hword hkind _ harguments =>
    have hne : name ≠ "" := by
      rintro rfl
      exact hword.1 rfl
    have hitems : ∀ item ∈ .variable name :: arguments, item.Spelled :=
      List.forall_mem_cons.2 ⟨spelled_name hword hkind, harguments⟩
    exact spelled_of_items rfl hitems (by simp [chars, joinedChars, hne])
  | @headed name inner arguments _ _ hhead harguments =>
    have hitems : ∀ item ∈ .form name inner :: arguments, item.Spelled :=
      List.forall_mem_cons.2 ⟨hhead, harguments⟩
    exact spelled_of_items rfl hitems (by simp [chars])

/-! ## The round trip -/

theorem joinedChars_eq (es : List Expr) :
    (" ".intercalate (es.map text)).toList = joinedChars es := by
  rw [String.toList_intercalate, List.map_map]
  induction es with
  | nil => rfl
  | cons e es ih =>
    cases es with
    | nil => simp [text, joinedChars, spacedChars, List.intercalate]
    | cons f fs => simpa [text, joinedChars, spacedChars, List.intercalate] using ih

/-- Reading is the inverse of printing. Whatever is read is readable, and the
text of a readable expression is read as that expression; the texts of readable
expressions, a space between two of them, are read as these expressions. Only
nesting deeper than allowed keeps them from being read. -/
theorem reading_inverts_printing (limit : Nat) :
    (∀ (source : String) (e : Expr), parse limit source = .ok e → e.Readable) ∧
    (∀ (source : String) (es : List Expr), parseAll limit source = .ok es →
      ∀ e ∈ es, e.Readable) ∧
    (∀ e : Expr, e.Readable → (parse limit e.text = .ok e ↔ e.nesting ≤ limit)) ∧
    ∀ es : List Expr, (∀ e ∈ es, e.Readable) →
      (parseAll limit (" ".intercalate (es.map text)) = .ok es ↔
        ∀ e ∈ es, e.nesting ≤ limit) := by
  refine ⟨fun source e h => ?_, fun source es h => ?_, fun e h => ?_, fun es h => ?_⟩
  · exact (parse_eq_ok_iff.1 h).1.readable (allWords_lexChars _)
  · exact (parseAll_eq_ok_iff.1 h).1.readable (allWords_lexChars _)
  · have hderived : Expression (lex e.text) e := by
      rw [lex, text, String.toList_ofList]
      exact h.spelled.derived
    simp [parse_eq_ok_iff, hderived]
  · have hderived : Expressions (lex (" ".intercalate (es.map text))) es := by
      rw [lex, joinedChars_eq]
      exact (spelled_joinedChars fun e he => (h e he).spelled).2
    simp [parseAll_eq_ok_iff, nestingAll_le_iff, hderived]

/-- A declaration in an unusual layout, with a negative zero, an atom that looks
like a number and a number with an exponent. -/
def sprawling : String :=
  "( (.scale x)(* x -0e-11):-5 ; )\n1.50E5)"

/-- The declaration as it is printed is read as the same expression, alone and
beside another. -/
theorem reading_inverts_printing_sprawling :
    let e : Expr := .form "" [.form ".scale" [.variable "x"],
      .form "*" [.variable "x", .number ⟨true, 0, -11⟩], .atom "-5", .number ⟨false, 150, 3⟩]
    parse 2 sprawling = .ok e ∧ e.Readable ∧
      e.text = "((.scale x) (* x -0E-11) :-5 1.50E+5)" ∧ parse 2 e.text = .ok e ∧
      parseAll 2 (" ".intercalate [e.text, e.text]) = .ok [e, e] := by
  intro e
  obtain ⟨hreadable, -, hparse, hall⟩ := reading_inverts_printing 2
  have hread : parse 2 sprawling = .ok e := by rfl
  have he : e.Readable := hreadable sprawling e hread
  have hnesting : e.nesting ≤ 2 := by decide
  refine ⟨hread, he, by decide, (hparse e he).2 hnesting, ?_⟩
  exact (hall [e, e] (by simp [he])).2 (by simp [hnesting])

end Expr

end PrototypeLisp
