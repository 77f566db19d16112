/-
PrototypeLisp.Proofs.Expr.Grammar — the language that the reader accepts.

The grammar has expressions, forms and rows of expressions:

    E ::= number | atom | name | L
    L ::= ( name E* ) | ( L E* )

Each production says which expression its tokens spell. The reader keeps the
open forms on a stack and looks at the head of a form only when it closes, so
both directions are stated for a reader inside a form. Completeness: a row of
expressions is put on the items of the innermost form. Soundness: `Opened`
says what tokens lead to a stack, and every turn of the reader keeps it.

Nesting is part of both: an expression is read exactly when its forms are
nested no deeper than allowed. That an expression ends where the grammar says,
whatever follows, makes the grammar unambiguous.
-/
import PrototypeLisp.Expr.Stream
import PrototypeLisp.Proofs.Expr.Nesting

namespace PrototypeLisp

/-! ## Nesting -/

namespace Expr

mutual

/-- How deep the forms of an expression are nested. -/
def nesting : Expr → Nat
  | .form _ arguments => nestingAll arguments + 1
  | _ => 0

/-- How deep the forms of expressions are nested. -/
def nestingAll : List Expr → Nat
  | [] => 0
  | e :: es => max e.nesting (nestingAll es)

end

theorem nestingAll_le_iff {es : List Expr} {n : Nat} :
    nestingAll es ≤ n ↔ ∀ e ∈ es, e.nesting ≤ n := by
  induction es with
  | nil => simp [nestingAll]
  | cons e es ih => rw [nestingAll, Nat.max_le, ih, List.forall_mem_cons]

/-- A form is nested one deeper than its items. -/
theorem nesting_of_ofItems {items : List Expr} {e : Expr} (h : ofItems items = .ok e) :
    e.nesting = nestingAll items + 1 := by
  unfold ofItems at h
  split at h
  · simp at h
  · obtain rfl := Except.ok.inj h
    simp [nesting, nestingAll]
  · obtain rfl := Except.ok.inj h
    simp [nesting]
  · simp at h

end Expr

/-! ## The kinds of words -/

theorem WordKind.of_eq_name_iff {word : List Char} : of word = .name ↔
    Numeral.read? word = none ∧ ∀ c cs, word ≠ ':' :: c :: cs := by
  unfold of
  split
  · rename_i hsome
    simp [Option.isSome_iff_ne_none.1 hsome]
  · rename_i hnone
    rw [Option.not_isSome_iff_eq_none] at hnone
    split <;> simp_all

theorem WordKind.of_eq_atom_iff {word : List Char} : of word = .atom ↔
    Numeral.read? word = none ∧ ∃ c cs, word = ':' :: c :: cs := by
  unfold of
  split
  · rename_i hsome
    simp [Option.isSome_iff_ne_none.1 hsome]
  · rename_i hnone
    rw [Option.not_isSome_iff_eq_none] at hnone
    split <;> simp_all

/-! ## The grammar -/

namespace Grammar

open PrototypeLisp.Expr

mutual

/-- The tokens that spell an expression. -/
inductive Expression : List Token → Expr → Prop where
  | number {text : String} {numeral : Numeral} (hread : Numeral.read? text.toList = some numeral)
      (hrange : numeral.toDecimal.InRange) : Expression [.word text] (.number numeral.toDecimal)
  | atom {text : String} (hkind : WordKind.of text.toList = .atom) :
      Expression [.word text] (.atom (String.ofList text.toList.tail))
  | name {text : String} (hkind : WordKind.of text.toList = .name) :
      Expression [.word text] (.variable text)
  | form {tokens : List Token} {e : Expr} (h : Form tokens e) : Expression tokens e

/-- The tokens that spell a form. -/
inductive Form : List Token → Expr → Prop where
  | named {name : String} {tokens : List Token} {arguments : List Expr}
      (hkind : WordKind.of name.toList = .name) (h : Expressions tokens arguments) :
      Form (.opening :: .word name :: tokens ++ [.closing]) (.form name arguments)
  | headed {first tokens : List Token} {head : Expr} {arguments : List Expr}
      (hhead : Form first head) (h : Expressions tokens arguments) :
      Form (.opening :: first ++ tokens ++ [.closing]) (.form "" (head :: arguments))

/-- The tokens that spell expressions one after the other. -/
inductive Expressions : List Token → List Expr → Prop where
  | nil : Expressions [] []
  | cons {first tokens : List Token} {e : Expr} {es : List Expr} (h : Expression first e)
      (hs : Expressions tokens es) : Expressions (first ++ tokens) (e :: es)

end

theorem Form.exists_eq {tokens : List Token} {e : Expr} (h : Form tokens e) :
    ∃ name arguments, e = .form name arguments := by
  cases h with
  | named => exact ⟨_, _, rfl⟩
  | headed => exact ⟨_, _, rfl⟩

theorem Expressions.append {a b : List Token} {es fs : List Expr} (ha : Expressions a es)
    (hb : Expressions b fs) : Expressions (a ++ b) (es ++ fs) := by
  match ha with
  | .nil => exact hb
  | .cons h hs =>
    rw [List.append_assoc]
    exact .cons h (hs.append hb)

theorem Expressions.concat {a b : List Token} {es : List Expr} {e : Expr}
    (ha : Expressions a es) (hb : Expression b e) : Expressions (a ++ b) (es ++ [e]) := by
  have hone : Expressions (b ++ []) [e] := .cons hb .nil
  rw [List.append_nil] at hone
  exact ha.append hone

/-- A word spells what the reader makes of it. -/
theorem expression_word_iff {text : String} {e : Expr} :
    Expression [.word text] e ↔ ofWord text.toList = .ok e := by
  constructor
  · intro h
    generalize htokens : [Token.word text] = tokens at h
    cases h with
    | number hread hrange =>
      obtain rfl : text = _ := by simpa using htokens
      simp [ofWord, hread, hrange]
    | atom hkind =>
      obtain rfl : text = _ := by simpa using htokens
      obtain ⟨hnone, c, cs, hcs⟩ := WordKind.of_eq_atom_iff.1 hkind
      rw [hcs] at hnone
      simp [ofWord, hcs, hnone]
    | name hkind =>
      obtain rfl : text = _ := by simpa using htokens
      obtain ⟨hnone, hcolon⟩ := WordKind.of_eq_name_iff.1 hkind
      unfold ofWord
      split <;> simp_all
    | form h => cases h <;> simp at htokens
  · intro h
    unfold ofWord at h
    split at h
    · rename_i numeral hread
      split at h
      · rename_i hrange
        obtain rfl := Except.ok.inj h
        exact .number hread hrange
      · simp at h
    · rename_i c cs hnone hcs
      obtain rfl := Except.ok.inj h
      have hatom : Expression [.word text] (.atom (String.ofList text.toList.tail)) :=
        .atom (WordKind.of_eq_atom_iff.2 ⟨hcs ▸ hnone, c, cs, hcs⟩)
      rwa [hcs] at hatom
    · rename_i hnone hcolon
      obtain rfl := Except.ok.inj h
      rw [String.ofList_toList]
      exact .name (WordKind.of_eq_name_iff.2 ⟨hnone, fun c cs => hcolon c cs⟩)

/-- A form is a row of items between parentheses that the reader accepts as a
form. -/
theorem form_iff {tokens : List Token} {e : Expr} : Form tokens e ↔
    ∃ inner items, tokens = .opening :: inner ++ [.closing] ∧ Expressions inner items ∧
      ofItems items = .ok e := by
  constructor
  · intro h
    cases h with
    | @named name inner arguments hkind h =>
      exact ⟨.word name :: inner, .variable name :: arguments, rfl, .cons (.name hkind) h, rfl⟩
    | @headed first inner head arguments hhead h =>
      obtain ⟨name, items, rfl⟩ := hhead.exists_eq
      exact ⟨first ++ inner, .form name items :: arguments, by simp, .cons (.form hhead) h, rfl⟩
  · rintro ⟨inner, items, rfl, hitems, hbuilt⟩
    cases hitems with
    | nil => simp [ofItems] at hbuilt
    | @cons first inner head arguments hhead hrest =>
      cases hhead with
      | number => simp [ofItems] at hbuilt
      | atom => simp [ofItems] at hbuilt
      | name hkind =>
        obtain rfl := Except.ok.inj hbuilt
        exact .named hkind hrest
      | form hform =>
        obtain ⟨name, items, rfl⟩ := hform.exists_eq
        obtain rfl := Except.ok.inj hbuilt
        simpa using Form.headed hform hrest

/-! ## Completeness -/

mutual

/-- Inside a form, what the tokens of an expression spell becomes the latest
item. -/
theorem Expression.readForm_append {room : Nat} {tokens : List Token} {e : Expr}
    (hroom : e.nesting ≤ room) (outer : List (List Expr)) (items : List Expr)
    (rest : List Token) : Expression tokens e →
      readForm room outer items (tokens ++ rest) = readForm room outer (e :: items) rest
  | .number hread hrange => by
    have hword := expression_word_iff.1 (.number hread hrange)
    rw [List.singleton_append, readForm, hword]
  | .atom hkind => by
    have hword := expression_word_iff.1 (.atom hkind)
    rw [List.singleton_append, readForm, hword]
  | .name hkind => by
    have hword := expression_word_iff.1 (.name hkind)
    rw [List.singleton_append, readForm, hword]
  | .form h => h.readForm_append hroom outer items rest

theorem Form.readForm_append {room : Nat} {tokens : List Token} {e : Expr}
    (hroom : e.nesting ≤ room) (outer : List (List Expr)) (items : List Expr)
    (rest : List Token) : Form tokens e →
      readForm room outer items (tokens ++ rest) = readForm room outer (e :: items) rest
  | @Form.named name tokens arguments hkind h => by
    obtain ⟨room, rfl⟩ : ∃ inner, room = inner + 1 := Nat.exists_eq_add_of_le' (by
      simp only [nesting] at hroom
      omega)
    have hinner : nestingAll arguments ≤ room := by simpa [nesting] using hroom
    have hword := expression_word_iff.1 (.name hkind)
    simp only [List.cons_append, List.append_assoc, List.nil_append, readForm, hword,
      h.readForm_append hinner]
    simp [ofItems]
  | @Form.headed first tokens head arguments hhead h => by
    obtain ⟨room, rfl⟩ : ∃ inner, room = inner + 1 := Nat.exists_eq_add_of_le' (by
      simp only [nesting] at hroom
      omega)
    have hinner : head.nesting ≤ room ∧ nestingAll arguments ≤ room := by
      simpa [nesting, nestingAll, Nat.max_le] using hroom
    simp only [List.cons_append, List.append_assoc, List.nil_append, readForm,
      hhead.readForm_append hinner.1, h.readForm_append hinner.2]
    obtain ⟨name, inner, rfl⟩ := hhead.exists_eq
    simp [ofItems]

theorem Expressions.readForm_append {room : Nat} {tokens : List Token} {es : List Expr}
    (hroom : nestingAll es ≤ room) (outer : List (List Expr)) (items : List Expr)
    (rest : List Token) : Expressions tokens es →
      readForm room outer items (tokens ++ rest) = readForm room outer (es.reverse ++ items) rest
  | .nil => rfl
  | .cons h hs => by
    have hboth := Nat.max_le.1 hroom
    rw [List.append_assoc, h.readForm_append hboth.1, hs.readForm_append hboth.2]
    simp

end

/-- What the grammar derives at the front of the tokens is read, and nothing
after it is touched. -/
theorem Expression.read? {limit : Nat} {tokens : List Token} {e : Expr}
    (h : Expression tokens e) (hlimit : e.nesting ≤ limit) (rest : List Token) :
    Expr.read? limit (tokens ++ rest) = some (.ok e, rest) := by
  cases h with
  | number hread hrange =>
    rw [List.singleton_append, Expr.read?, expression_word_iff.1 (.number hread hrange)]
  | atom hkind =>
    rw [List.singleton_append, Expr.read?, expression_word_iff.1 (.atom hkind)]
  | name hkind =>
    rw [List.singleton_append, Expr.read?, expression_word_iff.1 (.name hkind)]
  | form h =>
    obtain ⟨inner, items, rfl, hitems, hbuilt⟩ := form_iff.1 h
    have hnesting := nesting_of_ofItems hbuilt
    obtain ⟨room, rfl⟩ : ∃ room, limit = room + 1 := Nat.exists_eq_add_of_le' (by omega)
    have hroom : nestingAll items ≤ room := by omega
    simp only [List.cons_append, List.append_assoc, List.nil_append, Expr.read?,
      hitems.readForm_append hroom]
    simp [readForm, hbuilt]

/-! ## Soundness -/

/-- What tokens have been read when a form is open with the items `items`,
`outer` are those of the forms around it, and `room` more forms may be
opened. -/
inductive Opened : Nat → List (List Expr) → List Expr → List Token → Prop where
  | outermost {room : Nat} {items : List Expr} {tokens : List Token}
      (h : Expressions tokens items.reverse) (hroom : ∀ item ∈ items, item.nesting ≤ room) :
      Opened room [] items (.opening :: tokens)
  | inner {room : Nat} {outer : List (List Expr)} {above items : List Expr}
      {before tokens : List Token} (hbefore : Opened (room + 1) outer above before)
      (h : Expressions tokens items.reverse) (hroom : ∀ item ∈ items, item.nesting ≤ room) :
      Opened room (above :: outer) items (before ++ .opening :: tokens)

namespace Opened

variable {room : Nat} {outer : List (List Expr)} {items : List Expr} {before tokens : List Token}

/-- One more item of the innermost form. -/
theorem add (h : Opened room outer items before) {e : Expr} (he : Expression tokens e)
    (hroom : e.nesting ≤ room) : Opened room outer (e :: items) (before ++ tokens) := by
  have hmore : (∀ item ∈ items, item.nesting ≤ room) →
      ∀ item ∈ e :: items, item.nesting ≤ room :=
    fun hitems => List.forall_mem_cons.2 ⟨hroom, hitems⟩
  cases h with
  | outermost h hitems =>
    refine .outermost ?_ (hmore hitems)
    rw [List.reverse_cons]
    exact h.concat he
  | inner hbefore h hitems =>
    rw [List.append_assoc, List.cons_append]
    refine .inner hbefore ?_ (hmore hitems)
    rw [List.reverse_cons]
    exact h.concat he

/-- The innermost form closes: it is a form of the grammar, after the tokens
that lead to the forms around it. -/
theorem close (h : Opened room outer items before) {e : Expr}
    (hbuilt : ofItems items.reverse = .ok e) : e.nesting ≤ room + 1 ∧
      match outer with
      | [] => Form (before ++ [.closing]) e
      | above :: outer => ∃ earlier form, before ++ [.closing] = earlier ++ form ∧
          Opened (room + 1) outer above earlier ∧ Form form e := by
  have hnesting : (∀ item ∈ items, item.nesting ≤ room) → e.nesting ≤ room + 1 := by
    intro hitems
    rw [nesting_of_ofItems hbuilt]
    exact Nat.succ_le_succ (nestingAll_le_iff.2 (by simpa using hitems))
  cases h with
  | outermost h hitems =>
    exact ⟨hnesting hitems, form_iff.2 ⟨_, _, rfl, h, hbuilt⟩⟩
  | inner hbefore h hitems =>
    exact ⟨hnesting hitems, _, _, by simp, hbefore, form_iff.2 ⟨_, _, rfl, h, hbuilt⟩⟩

end Opened

theorem nesting_of_ofWord {word : List Char} {e : Expr} (h : ofWord word = .ok e) :
    e.nesting = 0 := by
  unfold ofWord at h
  split at h
  · split at h
    · obtain rfl := Except.ok.inj h
      rfl
    · simp at h
  · obtain rfl := Except.ok.inj h
    rfl
  · obtain rfl := Except.ok.inj h
    rfl

/-- A reader inside a form that finishes has completed a form of the grammar. -/
theorem form_of_readForm {room : Nat} {outer : List (List Expr)} {items : List Expr}
    {before tokens rest : List Token} {e : Expr} (hopened : Opened room outer items before)
    (h : readForm room outer items tokens = (.ok e, rest)) :
    ∃ consumed, tokens = consumed ++ rest ∧ Form (before ++ consumed) e ∧
      e.nesting ≤ room + outer.length + 1 := by
  fun_induction readForm room outer items tokens generalizing before with
  | case1 => simp at h
  | case2 => simp at h
  | case3 outer items tokens room ih =>
    obtain ⟨consumed, rfl, hform, hnesting⟩ := ih (.inner hopened .nil (by simp)) h
    refine ⟨.opening :: consumed, rfl, by simpa using hform, ?_⟩
    simp only [List.length_cons] at hnesting
    omega
  | case4 => simp at h
  | case5 room items tokens built hbuilt =>
    obtain ⟨rfl, rfl⟩ : built = e ∧ tokens = rest := by simpa using h
    obtain ⟨hnesting, hform⟩ := hopened.close hbuilt
    exact ⟨[.closing], rfl, hform, hnesting⟩
  | case6 room items tokens built above outer hbuilt ih =>
    obtain ⟨hnesting, earlier, form, hcut, habove, hform⟩ := hopened.close hbuilt
    obtain ⟨consumed, rfl, hfinal, hlimit⟩ := ih (habove.add (.form hform) hnesting) h
    refine ⟨.closing :: consumed, rfl, ?_, ?_⟩
    · rw [← hcut, List.append_assoc] at hfinal
      exact hfinal
    · simp only [List.length_cons]
      omega
  | case7 => simp at h
  | case8 room outer items text tokens item hitem ih =>
    have hadd := hopened.add (expression_word_iff.2 hitem) (by simp [nesting_of_ofWord hitem])
    obtain ⟨consumed, rfl, hform, hnesting⟩ := ih hadd h
    exact ⟨.word text :: consumed, rfl, by simpa using hform, hnesting⟩

/-- What is read is derived by the grammar. -/
theorem expression_of_read? {limit : Nat} {tokens rest : List Token} {e : Expr}
    (h : Expr.read? limit tokens = some (.ok e, rest)) :
    ∃ consumed, tokens = consumed ++ rest ∧ Expression consumed e ∧ e.nesting ≤ limit := by
  unfold Expr.read? at h
  split at h
  · simp at h
  · rename_i tokens
    split at h
    · simp at h
    · rename_i room
      have hopened : Opened room [] [] [.opening] := .outermost .nil (by simp)
      obtain ⟨consumed, rfl, hform, hnesting⟩ := form_of_readForm hopened (Option.some.inj h)
      exact ⟨.opening :: consumed, rfl, .form hform, hnesting⟩
  · simp at h
  · rename_i text tokens
    obtain ⟨hword, rfl⟩ := Prod.mk.inj (Option.some.inj h)
    exact ⟨[.word text], rfl, expression_word_iff.2 hword, by simp [nesting_of_ofWord hword]⟩

/-! ## The reader and the grammar -/

theorem read?_eq_ok_iff {limit : Nat} {tokens rest : List Token} {e : Expr} :
    Expr.read? limit tokens = some (.ok e, rest) ↔
      ∃ consumed, tokens = consumed ++ rest ∧ Expression consumed e ∧ e.nesting ≤ limit := by
  constructor
  · exact expression_of_read?
  · rintro ⟨consumed, rfl, he, hlimit⟩
    exact he.read? hlimit rest

/-- Of the beginnings of a token list at most one is an expression, and it
spells only one. -/
theorem Expression.unique {a b restA restB : List Token} {e f : Expr} (ha : Expression a e)
    (hb : Expression b f) (h : a ++ restA = b ++ restB) : a = b ∧ e = f := by
  have hreadA := ha.read? (Nat.le_max_left e.nesting f.nesting) restA
  have hreadB := hb.read? (Nat.le_max_right e.nesting f.nesting) restB
  rw [h, hreadB] at hreadA
  obtain ⟨rfl, rfl⟩ : f = e ∧ restB = restA := by simpa using hreadA
  exact ⟨List.append_cancel_right h, rfl⟩

/-- Tokens are read to their end without a fault exactly when they spell
expressions one after the other. -/
theorem leading_eq_iff {limit : Nat} {tokens : List Token} {es : List Expr} :
    leading limit tokens = (es, none) ↔ Expressions tokens es ∧ nestingAll es ≤ limit := by
  constructor
  · intro h
    induction tokens using leading_induction limit generalizing es with
    | none tokens hread =>
      obtain rfl : [] = es := by simpa [leading_of_none hread] using h
      obtain rfl := eq_nil_of_read? hread
      exact ⟨.nil, Nat.zero_le _⟩
    | error tokens fault rest hread => simp [leading_of_error hread] at h
    | ok tokens e rest hread ih =>
      rw [leading_of_ok hread] at h
      obtain ⟨rfl, hfault⟩ := Prod.mk.inj h
      obtain ⟨hrest, hnesting⟩ := ih (Prod.ext rfl hfault)
      obtain ⟨consumed, rfl, he, hlimit⟩ := expression_of_read? hread
      exact ⟨.cons he hrest, Nat.max_le.2 ⟨hlimit, hnesting⟩⟩
  · rintro ⟨h, hnesting⟩
    induction es generalizing tokens with
    | nil =>
      cases h
      exact leading_of_none rfl
    | cons e es ih =>
      cases h with
      | cons he hrest =>
        have hboth := Nat.max_le.1 hnesting
        rw [leading_of_ok (he.read? hboth.1 _), ih hrest hboth.2]

theorem parse_eq_ok_iff {limit : Nat} {source : String} {e : Expr} :
    parse limit source = .ok e ↔ Expression (lex source) e ∧ e.nesting ≤ limit := by
  have hread : parse limit source = .ok e ↔ Expr.read? limit (lex source) = some (.ok e, []) := by
    unfold parse
    split <;> simp_all
  rw [hread, read?_eq_ok_iff]
  simp

theorem parseAll_eq_ok_iff {limit : Nat} {source : String} {es : List Expr} :
    parseAll limit source = .ok es ↔ Expressions (lex source) es ∧ nestingAll es ≤ limit := by
  rw [← leading_eq_iff]
  exact parseAll_eq_ok_iff_leading

/-- The reader accepts exactly the grammar. A stream gives an expression and
goes on with `rest` just when the tokens before `rest` spell it; only one
beginning of the tokens spells an expression, and it spells only one. So a text
holds one expression, or several, just when its tokens spell them. -/
theorem reader_accepts_exactly (limit : Nat) :
    (∀ (s : TokenStream) (e : Expr) (rest : List Token),
      (∃ t, s.readExpr limit = (.ok (some e), t) ∧ t.remaining = rest) ↔
        ∃ consumed, s.remaining = consumed ++ rest ∧ Expression consumed e ∧
          e.nesting ≤ limit) ∧
    (∀ (a b restA restB : List Token) (e f : Expr), a ++ restA = b ++ restB →
      Expression a e → Expression b f → a = b ∧ e = f) ∧
    (∀ (source : String) (e : Expr), parse limit source = .ok e ↔
      Expression (lex source) e ∧ e.nesting ≤ limit) ∧
    ∀ (source : String) (es : List Expr), parseAll limit source = .ok es ↔
      Expressions (lex source) es ∧ ∀ e ∈ es, e.nesting ≤ limit := by
  refine ⟨fun s e rest => ?_, fun a b restA restB e f h ha hb => ha.unique hb h,
    fun source e => parse_eq_ok_iff, fun source es => ?_⟩
  · rw [← read?_eq_ok_iff]
    constructor
    · rintro ⟨t, hread, rfl⟩
      exact (TokenStream.readExpr_eq_ok_iff.1 hread).2
    · intro hread
      exact ⟨⟨none, rest⟩, TokenStream.readExpr_eq_ok_iff.2 ⟨rfl, hread⟩, rfl⟩
  · rw [parseAll_eq_ok_iff, nestingAll_le_iff]

/-- A method declaration with a comment after it. -/
def declaration : String :=
  "((.scale x) (* x 1.50)) ; )("

/-- The declaration is read as a form whose head is a form, and no shorter
beginning of it is an expression. -/
theorem reader_accepts_declaration :
    let e : Expr := .form "" [.form ".scale" [.variable "x"],
      .form "*" [.variable "x", .number ⟨false, 150, -2⟩]]
    parse 2 declaration = .ok e ∧ Expression (lex declaration) e ∧
      parseAll 2 declaration = .ok [e] ∧
      ∀ a rest f, a ++ rest = lex declaration → Expression a f → a = lex declaration ∧ f = e := by
  intro e
  obtain ⟨-, hunique, hparse, hall⟩ := reader_accepts_exactly 2
  have hread : parse 2 declaration = .ok e := by rfl
  have hderived := (hparse declaration e).1 hread
  have hone : Expressions (lex declaration) [e] := by
    simpa using Expressions.cons hderived.1 .nil
  refine ⟨hread, hderived.1, (hall declaration [e]).2 ⟨hone, by simpa using hderived.2⟩, ?_⟩
  intro a rest f h hf
  exact hunique a (lex declaration) rest [] f e (by simpa using h) hf hderived.1

end Grammar

end PrototypeLisp
