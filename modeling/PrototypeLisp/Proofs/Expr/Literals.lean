/-
PrototypeLisp.Proofs.Expr.Literals — literals mean what their words spell.

The words that are no names and the literals of an expression that is read
correspond, one to one and from left to right. A literal is a number when its
word has a spelling, and then it is the number of the spelling; any other
literal is an atom, whose word starts with a colon. The correspondence follows
the grammar: a name gives no literal, neither as a variable nor as the head of a
form, and a form has the literals of its items.
-/
import Mathlib.Data.List.Forall2
import PrototypeLisp.Proofs.Decimal.Spelling
import PrototypeLisp.Proofs.Expr.Grammar

namespace PrototypeLisp

open Numeral

/-! ## Number words -/

/-- The number words are those that have a spelling. -/
theorem WordKind.of_eq_number_iff {word : List Char} :
    of word = .number ↔ ∃ s : Spelling, s.Proper ∧ s.chars = word := by
  constructor
  · intro h
    unfold of at h
    split at h
    · rename_i hsome
      obtain ⟨numeral, hread⟩ := Option.isSome_iff_exists.1 hsome
      exact Spelling.exists_of_read? hread
    · split at h <;> simp at h
  · rintro ⟨s, hproper, rfl⟩
    obtain ⟨numeral, hread, -⟩ := hproper.read?_chars
    simp [of, hread]

namespace Expr

/-- What the reader makes of a spelling. -/
theorem ofWord_chars {s : Spelling} (h : s.Proper) : ofWord s.chars =
    if s.decimal.InRange then .ok (.number s.decimal) else .error .numberOutOfRange := by
  obtain ⟨numeral, hread, hdecimal⟩ := h.read?_chars
  simp [ofWord, hread, hdecimal]

theorem exists_of_outOfRange {word : List Char} (h : OutOfRange word) :
    ∃ s : Spelling, s.Proper ∧ s.chars = word ∧ ¬ s.decimal.InRange := by
  obtain ⟨numeral, hread, hrange⟩ := h
  obtain ⟨s, hproper, hchars, hdecimal⟩ := read?_eq_some_iff.1 ⟨numeral, hread, rfl⟩
  exact ⟨s, hproper, hchars, hdecimal ▸ hrange⟩

/-! ## Literals -/

/-- The word is a literal and stands for the expression. -/
inductive Literal : List Char → Expr → Prop where
  | number {s : Spelling} (hproper : s.Proper) (hrange : s.decimal.InRange) :
      Literal s.chars (.number s.decimal)
  | atom {word : List Char} (hkind : WordKind.of word = .atom) :
      Literal word (.atom (String.ofList word.tail))

/-- A literal is a number exactly when its word has a spelling. -/
theorem Literal.eq_number_iff {word : List Char} {leaf : Expr} (h : Literal word leaf)
    (d : Decimal) : leaf = .number d ↔
      ∃ s : Spelling, s.Proper ∧ s.chars = word ∧ s.decimal = d := by
  cases h with
  | @number s hproper hrange =>
    constructor
    · intro h
      exact ⟨s, hproper, rfl, by simpa using h⟩
    · rintro ⟨t, hother, hchars, rfl⟩
      rw [Spelling.chars_inj hother hproper hchars]
  | atom hkind =>
    constructor
    · intro h
      simp at h
    · rintro ⟨s, hproper, hchars, -⟩
      have hnumber := WordKind.of_eq_number_iff.2 ⟨s, hproper, hchars⟩
      simp [hkind] at hnumber

theorem Literal.atom_inv {word : List Char} {name : String} (h : Literal word (.atom name)) :
    WordKind.of word = .atom ∧ name = String.ofList word.tail := by
  cases h with
  | atom hkind => exact ⟨hkind, rfl⟩

mutual

/-- The numbers and atoms of an expression, from left to right. -/
def literals : Expr → List Expr
  | .number value => [.number value]
  | .atom name => [.atom name]
  | .variable _ => []
  | .form _ arguments => literalsAll arguments
  | .foreign _ => []

/-- The numbers and atoms of expressions, from left to right. -/
def literalsAll : List Expr → List Expr
  | [] => []
  | e :: es => e.literals ++ literalsAll es

end

/-- The words among tokens that are no names. -/
def literalWords (tokens : List Token) : List String :=
  tokens.filterMap fun
    | .word text => if WordKind.of text.toList = .name then none else some text
    | _ => none

theorem literalWords_append (a b : List Token) :
    literalWords (a ++ b) = literalWords a ++ literalWords b :=
  List.filterMap_append

theorem literalWords_name {text : String} (h : WordKind.of text.toList = .name) :
    literalWords [.word text] = [] := by
  simp [literalWords, h]

theorem literalWords_of_ne_name {text : String} (h : WordKind.of text.toList ≠ .name) :
    literalWords [.word text] = [text] := by
  simp [literalWords, h]

/-- The literals are those that the words stand for, one by one. -/
def Spell (tokens : List Token) (leaves : List Expr) : Prop :=
  List.Forall₂ (fun text leaf => Literal text.toList leaf) (literalWords tokens) leaves

theorem Spell.append {a b : List Token} {es fs : List Expr} (ha : Spell a es)
    (hb : Spell b fs) : Spell (a ++ b) (es ++ fs) := by
  unfold Spell
  rw [literalWords_append]
  exact List.rel_append ha hb

/-- Parentheses do not count. -/
theorem Spell.enclose {inner : List Token} {es : List Expr} (h : Spell inner es) :
    Spell (.opening :: inner ++ [.closing]) es := by
  have hopening : Spell [.opening] [] := .nil
  have hclosing : Spell [.closing] [] := .nil
  simpa using (hopening.append h).append hclosing

/-- Every literal is spelled by one of the words. -/
theorem Spell.exists_word {tokens : List Token} {leaves : List Expr} (h : Spell tokens leaves)
    {leaf : Expr} (hleaf : leaf ∈ leaves) :
    ∃ text, .word text ∈ tokens ∧ Literal text.toList leaf := by
  have hmem : ∀ text ∈ literalWords tokens, .word text ∈ tokens := by
    intro text htext
    obtain ⟨token, htoken, hsome⟩ := List.mem_filterMap.1 htext
    split at hsome
    · split at hsome
      · simp at hsome
      · obtain rfl := Option.some.inj hsome
        exact htoken
    · simp at hsome
  unfold Spell at h
  generalize literalWords tokens = texts at h hmem
  induction h with
  | nil => simp at hleaf
  | @cons text other texts leaves hhead _ ih =>
    obtain ⟨hfirst, hrest⟩ := List.forall_mem_cons.1 hmem
    rcases List.mem_cons.1 hleaf with rfl | hleaf
    · exact ⟨text, hfirst, hhead⟩
    · exact ih hleaf hrest

end Expr

namespace Grammar

open PrototypeLisp.Expr

mutual

/-- The tokens of an expression spell its literals. -/
theorem Expression.spell {tokens : List Token} {e : Expr} :
    Expression tokens e → Spell tokens e.literals
  | @Expression.number text numeral hread hrange => by
    obtain ⟨s, hproper, hchars, hdecimal⟩ := read?_eq_some_iff.1 ⟨numeral, hread, rfl⟩
    have hkind : WordKind.of text.toList = .number :=
      WordKind.of_eq_number_iff.2 ⟨s, hproper, hchars⟩
    unfold Spell
    rw [literalWords_of_ne_name (by simp [hkind]), ← hdecimal]
    refine .cons ?_ .nil
    rw [← hchars]
    exact .number hproper (hdecimal ▸ hrange)
  | @Expression.atom text hkind => by
    unfold Spell
    rw [literalWords_of_ne_name (by simp [hkind])]
    exact .cons (.atom hkind) .nil
  | @Expression.name text hkind => by
    unfold Spell
    rw [literalWords_name hkind]
    exact .nil
  | .form h => h.spell

theorem Form.spell {tokens : List Token} {e : Expr} : Form tokens e → Spell tokens e.literals
  | @Form.named name inner arguments hkind h => by
    have hname : Spell [.word name] [] := by
      unfold Spell
      rw [literalWords_name hkind]
      exact .nil
    have hitems := hname.append h.spell
    exact hitems.enclose
  | @Form.headed first inner head arguments hhead h => by
    have hitems := hhead.spell.append h.spell
    have hform := hitems.enclose
    rwa [← List.cons_append] at hform

theorem Expressions.spell {tokens : List Token} {es : List Expr} :
    Expressions tokens es → Spell tokens (literalsAll es)
  | .nil => .nil
  | .cons h hs => h.spell.append hs.spell

end

end Grammar

namespace Expr

/-! ## Reading numbers -/

/-- Number literals mean what they spell. The number words are those with a
spelling, and they have only one. Such a word is read as the number of its
spelling, unless that lies outside the exponent range; only then the reader
complains of the range, right after the word. In an expression that is read,
the literals belong one by one to the words that are no names, and a literal is
a number just when its word has a spelling, so no other word becomes one. -/
theorem numbers_as_spelled (limit : Nat) :
    (∀ word, WordKind.of word = .number ↔ ∃ s : Spelling, s.Proper ∧ s.chars = word) ∧
    (∀ s t : Spelling, s.Proper → t.Proper → s.chars = t.chars → s = t) ∧
    (∀ (s : Spelling) (rest : List Token), s.Proper →
      read? limit (.word (String.ofList s.chars) :: rest) =
        some (if s.decimal.InRange then .ok (.number s.decimal) else .error .numberOutOfRange,
          rest)) ∧
    (∀ tokens rest, read? limit tokens = some (.error .numberOutOfRange, rest) →
      ∃ (before : List Token) (s : Spelling), s.Proper ∧ ¬ s.decimal.InRange ∧
        tokens = before ++ .word (String.ofList s.chars) :: rest) ∧
    ∀ tokens e rest, read? limit tokens = some (.ok e, rest) →
      ∃ consumed, tokens = consumed ++ rest ∧
        List.Forall₂ (fun text leaf => ∀ d, leaf = .number d ↔
            ∃ s : Spelling, s.Proper ∧ s.chars = text.toList ∧ s.decimal = d)
          (literalWords consumed) e.literals := by
  refine ⟨fun word => WordKind.of_eq_number_iff, fun s t => Spelling.chars_inj,
    fun s rest hproper => ?_, fun tokens rest h => ?_, fun tokens e rest h => ?_⟩
  · rw [read?, String.toList_ofList, ofWord_chars hproper]
  · obtain ⟨before, text, rfl, hrange⟩ := outOfRange_of_read? h
    obtain ⟨s, hproper, hchars, hdecimal⟩ := exists_of_outOfRange hrange
    refine ⟨before, s, hproper, hdecimal, ?_⟩
    rw [hchars, String.ofList_toList]
  · obtain ⟨consumed, hconsumed, he, -⟩ := Grammar.expression_of_read? h
    exact ⟨consumed, hconsumed, he.spell.imp fun text leaf hleaf => hleaf.eq_number_iff⟩

/-- A call with a number that has no digit before its point, a negative zero,
one in other digits, three words that only look like numbers, and an atom. -/
def lookalikes : String :=
  "(f +.5e-3 -0.00 ४२. NaN Infinity 1_000 :7)"

/-- Four words of the call are literals, and three of them are numbers; a number
that is one digit too long for the exponent range is refused. -/
theorem numbers_as_spelled_lookalikes :
    let e : Expr := .form "f" [.number ⟨false, 5, -4⟩, .number ⟨true, 0, -2⟩,
      .number ⟨false, 42, 0⟩, .variable "NaN", .variable "Infinity", .variable "1_000", .atom "7"]
    read? 1 (lex lookalikes) = some (.ok e, []) ∧
    literalWords (lex lookalikes) = ["+.5e-3", "-0.00", "४२.", ":7"] ∧
    e.literals = [.number ⟨false, 5, -4⟩, .number ⟨true, 0, -2⟩, .number ⟨false, 42, 0⟩,
      .atom "7"] ∧
    List.Forall₂ (fun text leaf => ∀ d, leaf = .number d ↔
        ∃ s : Spelling, s.Proper ∧ s.chars = text.toList ∧ s.decimal = d)
      (literalWords (lex lookalikes)) e.literals ∧
    read? 1 [.word "12E+999999999999999999"] = some (.error .numberOutOfRange, []) := by
  intro e
  obtain ⟨-, -, hword, -, hliterals⟩ := numbers_as_spelled 1
  have hread : read? 1 (lex lookalikes) = some (.ok e, []) := by rfl
  obtain ⟨consumed, hconsumed, hspell⟩ := hliterals _ _ _ hread
  rw [List.append_nil] at hconsumed
  refine ⟨hread, by decide, rfl, hconsumed ▸ hspell, ?_⟩
  let long : Spelling :=
    ⟨none, ['1', '2'], none, some ⟨'E', some .plus, List.replicate 18 '9'⟩⟩
  have hproper : long.Proper := by
    refine ⟨by decide, by simp [long], .inl (by simp [long]), ?_⟩
    intro x hx
    obtain rfl := Option.some.inj hx
    exact ⟨.inr rfl, by decide, by simp⟩
  have hlong := hword long [] hproper
  rwa [if_neg (by decide +kernel)] at hlong

end Expr

end PrototypeLisp
