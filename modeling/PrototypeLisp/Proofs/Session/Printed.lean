/-
PrototypeLisp.Proofs.Session.Printed — values whose text evaluates to them.

The text of a number is one word, which spells the number with the zeros of a
positive exponent written out. Such a word is read as that number, which lies in
the exponent range when the number does, and a number evaluates to itself. The
text of an atom that was read is the word that it was read from. Evaluating
either does not depend on the store and leaves it alone.
-/
import PrototypeLisp.Proofs.Expr.Literals
import PrototypeLisp.Proofs.Expr.RoundTrip
import PrototypeLisp.Proofs.Session.Text

namespace PrototypeLisp

open Numeral

/-! ## Words of values -/

/-- Plain notation is one word, and it is read as the number with its zeros
written out. -/
theorem Decimal.ofWord_plainChars {d : Decimal} (h : d.InRange) :
    IsWord d.plainChars ∧ Expr.ofWord d.plainChars = .ok (.number d.expanded) := by
  obtain ⟨s, hproper, -, hchars, hdecimal⟩ := d.exists_plainChars
  rw [← hchars, Expr.ofWord_chars hproper, hdecimal, if_pos h.expanded]
  exact ⟨hproper.isWord, rfl⟩

/-- The text of an atom is the word that it was read from. -/
theorem Heap.text_atom {text : String} (h : WordKind.of text.toList = .atom) (heap : Heap) :
    heap.text (.atom (String.ofList text.toList.tail)) = text := by
  obtain ⟨-, c, cs, hcs⟩ := WordKind.of_eq_atom_iff.1 h
  refine String.toList_inj.1 ?_
  simp [Heap.text, hcs]

/-- Plain notation tells numbers apart whose exponents are not positive. -/
theorem Decimal.plain_inj {a b : Decimal} (ha : a.exponent ≤ 0) (hb : b.exponent ≤ 0)
    (h : a.plain = b.plain) : a = b := by
  obtain ⟨s, hproper, -, hchars, hdecimal⟩ := a.exists_plainChars
  obtain ⟨t, hother, -, hothers, hexpanded⟩ := b.exists_plainChars
  have hsame : s = t := Spelling.chars_inj hproper hother (by
    rw [hchars, hothers]
    exact String.ofList_injective h)
  rw [← expanded_of_nonpos ha, ← expanded_of_nonpos hb, ← hdecimal, ← hexpanded, hsame]

namespace Session

/-! ## Evaluating a word -/

theorem lex_word {text : String} (h : IsWord text.toList) : lex text = [.word text] := by
  rw [lex, lexChars_word h, String.ofList_toList]

/-- A word is evaluated as what it spells. -/
theorem evalText_word {limit : Nat} {text : String} {e : Expr} (hword : IsWord text.toList)
    (he : Expr.ofWord text.toList = .ok e) :
    evalText limit text = eval limit e Heap.root := by
  have hread : Expr.read? limit [.word text] = some (.ok e, []) := by
    rw [Expr.read?, he]
  have hend : ∀ last, evalTokens limit last [] = pure last :=
    fun last => evalTokens_of_none rfl
  rw [evalText, lex_word hword, evalTokens_of_ok hread]
  simp [hend]

/-- The text of a number evaluates to the number with its zeros written out. -/
theorem evalText_number {d : Decimal} (h : d.InRange) (heap : Heap) (n : Nat) (s : Store) :
    evalText (n + 1) (heap.text (.number d)) s = .ok (.number d.expanded) s := by
  have hchars : (heap.text (.number d)).toList = d.plainChars := String.toList_ofList
  obtain ⟨hword, hread⟩ := Decimal.ofWord_plainChars h
  rw [← hchars] at hword hread
  rw [evalText_word hword hread]
  rfl

/-- The text of an atom that was read evaluates to the atom. -/
theorem evalText_atom {text name : String} (hword : IsWord text.toList)
    (h : Expr.Literal text.toList (.atom name)) (heap : Heap) (n : Nat) (s : Store) :
    evalText (n + 1) (heap.text (.atom name)) s = .ok (.atom name) s := by
  obtain ⟨hkind, rfl⟩ := h.atom_inv
  rw [Heap.text_atom hkind, evalText_word hword (Grammar.expression_word_iff.1 (.atom hkind))]
  rfl

/-! ## Reading back -/

/-- Printed primitives read back. The text of a number in range is one number
word without an exponent, and evaluates to a number of the same value and sign:
to the number itself if its exponent is not positive, and at exponent zero
otherwise. The text of an atom that stands in an expression read from a source
evaluates to the atom. So numbers whose exponents are not positive have the same
text only if they are the same. -/
theorem printed_primitives_read_back (heap : Heap) (n : Nat) (s : Store) :
    (∀ d : Decimal, d.InRange →
      lex (heap.text (.number d)) = [.word (heap.text (.number d))] ∧
      WordKind.of (heap.text (.number d)).toList = .number ∧
      (∃ spelling : Spelling, spelling.Proper ∧ spelling.exponent = none ∧
        spelling.chars = (heap.text (.number d)).toList) ∧
      ∃ d' : Decimal, evalText (n + 1) (heap.text (.number d)) s = .ok (.number d') s ∧
        d'.value = d.value ∧ d'.negative = d.negative ∧ (d.exponent ≤ 0 → d' = d) ∧
        (0 < d.exponent → d'.exponent = 0)) ∧
    (∀ (source : String) (limit : Nat) (tokens rest : List Token) (e : Expr) (name : String),
      tokens <:+ lex source → Expr.read? limit tokens = some (.ok e, rest) →
        .atom name ∈ e.literals →
          evalText (n + 1) (heap.text (.atom name)) s = .ok (.atom name) s) ∧
    ∀ a b : Decimal, a.exponent ≤ 0 → b.exponent ≤ 0 →
      heap.text (.number a) = heap.text (.number b) → a = b := by
  refine ⟨fun d hrange => ?_, fun source limit tokens rest e name hsource hread hname => ?_,
    fun a b ha hb h => Decimal.plain_inj ha hb h⟩
  · have hchars : (heap.text (.number d)).toList = d.plainChars := String.toList_ofList
    obtain ⟨spelling, hproper, hnone, hspelled, -⟩ := d.exists_plainChars
    rw [← hchars] at hspelled
    refine ⟨lex_word (hspelled ▸ hproper.isWord),
      WordKind.of_eq_number_iff.2 ⟨spelling, hproper, hspelled⟩,
      ⟨spelling, hproper, hnone, hspelled⟩, d.expanded, evalText_number hrange heap n s,
      d.value_expanded, rfl, Decimal.expanded_of_nonpos, fun hpos => ?_⟩
    exact Int.min_eq_right hpos.le
  · obtain ⟨consumed, rfl, he, -⟩ := Grammar.expression_of_read? hread
    obtain ⟨text, htext, hliteral⟩ := he.spell.exists_word hname
    have hword : IsWord text.toList :=
      allWords_lexChars source.toList text (hsource.subset (List.mem_append_left _ htext))
    exact evalText_atom hword hliteral heap n s

/-- A number with two zeros to write out, a negative zero with two places, and
an atom that looks like a number are printed and read back. -/
theorem printed_primitives_read_back_signed :
    let heap := initial.heap
    heap.text (.number ⟨true, 15, 2⟩) = "-1500" ∧ heap.text (.number ⟨true, 0, -2⟩) = "-0.00" ∧
    (∃ d' : Decimal, evalText 1 (heap.text (.number ⟨true, 15, 2⟩)) initial =
        .ok (.number d') initial ∧ d'.value = Decimal.value ⟨true, 15, 2⟩ ∧ d'.exponent = 0) ∧
    evalText 1 (heap.text (.number ⟨true, 0, -2⟩)) initial =
      .ok (.number ⟨true, 0, -2⟩) initial ∧
    evalText 1 (heap.text (.atom "-5")) initial = .ok (.atom "-5") initial := by
  intro heap
  obtain ⟨hnumber, hatom, -⟩ := printed_primitives_read_back heap 0 initial
  obtain ⟨-, -, -, large, hlarge, hvalue, -, -, hzero⟩ :=
    hnumber ⟨true, 15, 2⟩ (by decide +kernel)
  obtain ⟨-, -, -, small, hsmall, -, -, hsame, -⟩ :=
    hnumber ⟨true, 0, -2⟩ (by decide +kernel)
  obtain rfl := hsame (by decide)
  have hread : Expr.read? 1 (lex "(f :-5)") = some (.ok (.form "f" [.atom "-5"]), []) := by rfl
  refine ⟨by decide, by decide, ⟨large, hlarge, hvalue, hzero (by decide)⟩, hsmall, ?_⟩
  exact hatom "(f :-5)" 1 _ _ _ "-5" (List.suffix_refl _) hread
    (by simp [Expr.literals, Expr.literalsAll])

end Session

end PrototypeLisp
