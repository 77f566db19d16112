/-
PrototypeLisp.Proofs.Token.Matching — tokens by matching a pattern again and again.

The scanner reads character by character. Tokens can also be found by a loop
over matches of one pattern: blanks, as many as there are, and then a comment,
a parenthesis or a word, tried in this order. If none of them fits, a blank is
given back and they are tried again. The loop goes on behind each match and
ends when nothing matches.

None of the alternatives starts with a blank, so giving blanks back never leads
to another match (`Pattern.matched?_eq`), and only a blank text has no match
(`Pattern.matched?_eq_none_iff`). Each match moves on by a character at least
(`Pattern.length_lt_of_matched?`), so the loop ends, and it finds the tokens
that the scanner finds (`lexChars_eq_matched`).
-/
import PrototypeLisp.Proofs.Token.Segments

namespace PrototypeLisp

open Text

namespace Pattern

/-! ## The pattern -/

/-- The alternatives of the pattern, in their order, at the front of a text: the
segment that fits and the text behind it. -/
def alternative? : List Char → Option (Segment × List Char)
  | [] => none
  | c :: cs =>
    if c = ';' then some (.comment (cs.takeWhile (· != '\n')), cs.dropWhile (· != '\n'))
    else if c = '(' then some (.opening, cs)
    else if c = ')' then some (.closing, cs)
    else if isWordChar c then some (.word (c :: cs.takeWhile isWordChar), cs.dropWhile isWordChar)
    else none

/-- Try the alternatives behind the given blanks, listed latest first, and then
behind fewer and fewer of them. -/
def backtrack : (blanks : List Char) → List Char → Option (Segment × List Char)
  | [], cs => alternative? cs
  | c :: blanks, cs => (alternative? cs).or (backtrack blanks (c :: cs))

/-- Match the pattern at the front of a text. -/
def matched? (cs : List Char) : Option (Segment × List Char) :=
  backtrack (cs.takeWhile isBlank).reverse (cs.dropWhile isBlank)

/-! ## What matches -/

theorem alternative?_of_blank {c : Char} (hc : isBlank c = true) (cs : List Char) :
    alternative? (c :: cs) = none := by
  have hne (d : Char) (hd : isBlank d = false) : c ≠ d := by
    intro heq
    rw [heq, hd] at hc
    cases hc
  have hword : ¬ isWordChar c = true := by
    intro hword
    rw [(isWordChar_iff.1 hword).1] at hc
    cases hc
  rw [alternative?, if_neg (hne ';' (by decide)), if_neg (hne '(' (by decide)),
    if_neg (hne ')' (by decide)), if_neg hword]

/-- Where no blank stands, one of the alternatives fits. -/
theorem alternative?_of_not_blank {c : Char} (hc : isBlank c = false) (cs : List Char) :
    alternative? (c :: cs) = some (Segment.first c cs) := by
  rw [alternative?, Segment.first, if_neg (show ¬ isBlank c = true by simp [hc])]
  split
  · rfl
  · rename_i hsemicolon
    split
    · rfl
    · rename_i hopening
      split
      · rfl
      · rename_i hclosing
        rw [if_pos (isWordChar_iff.2 ⟨hc, hopening, hclosing, hsemicolon⟩)]

/-- Giving blanks back never leads to another match. -/
theorem backtrack_eq {blanks : List Char} (hblanks : ∀ c ∈ blanks, isBlank c = true)
    (cs : List Char) : backtrack blanks cs = alternative? cs := by
  induction blanks generalizing cs with
  | nil => rfl
  | cons c blanks ih =>
    obtain ⟨hc, hblanks⟩ := List.forall_mem_cons.1 hblanks
    rw [backtrack, ih hblanks, alternative?_of_blank hc, Option.or_none]

theorem matched?_eq (cs : List Char) : matched? cs = alternative? (cs.dropWhile isBlank) := by
  refine backtrack_eq ?_ _
  intro c hc
  exact List.mem_takeWhile_imp (List.mem_reverse.1 hc)

/-- Behind its blanks a text has ended or starts with the segment that
matches. -/
theorem matched?_cases (cs : List Char) :
    (cs.dropWhile isBlank = [] ∧ matched? cs = none) ∨
      ∃ c rest, cs.dropWhile isBlank = c :: rest ∧ matched? cs = some (Segment.first c rest) := by
  have hstops := stops_dropWhile isBlank cs
  rw [matched?_eq]
  cases hrest : cs.dropWhile isBlank with
  | nil => exact .inl ⟨rfl, rfl⟩
  | cons c rest =>
    rw [hrest] at hstops
    exact .inr ⟨c, rest, rfl, alternative?_of_not_blank (stops_cons.1 hstops) rest⟩

/-- Nothing matches only where nothing but blanks is left. -/
theorem matched?_eq_none_iff {cs : List Char} :
    matched? cs = none ↔ cs.all isBlank = true := by
  have hall : cs.dropWhile isBlank = [] ↔ cs.all isBlank = true := by
    rw [List.dropWhile_eq_nil_iff, List.all_eq_true]
  rw [← hall]
  obtain ⟨hnil, hnone⟩ | ⟨c, rest, hcons, hsome⟩ := matched?_cases cs
  · simp [hnil, hnone]
  · simp [hcons, hsome]

/-- A match is made of blanks and a segment that goes on as long as it can. -/
theorem matched?_spec {cs rest : List Char} {segment : Segment}
    (h : matched? cs = some (segment, rest)) :
    cs.dropWhile isBlank = segment.chars ++ rest ∧ segment.Shaped ∧ segment.EndsBefore rest := by
  obtain ⟨-, hnone⟩ | ⟨c, cs', hcons, hsome⟩ := matched?_cases cs
  · rw [hnone] at h
    cases h
  · have hfirst : Segment.first c cs' = (segment, rest) := Option.some.inj (hsome.symm.trans h)
    have hspec := Segment.first_spec c cs'
    rw [hfirst] at hspec
    exact ⟨hcons.trans hspec.1.symm, hspec.2⟩

/-- A match moves on. -/
theorem length_lt_of_matched? {cs rest : List Char} {segment : Segment}
    (h : matched? cs = some (segment, rest)) : rest.length < cs.length := by
  obtain ⟨hjoined, hshaped, -⟩ := matched?_spec h
  have hpos := List.length_pos_iff.2 hshaped.chars_ne_nil
  have hle := (List.dropWhile_sublist isBlank (l := cs)).length_le
  rw [hjoined, List.length_append] at hle
  omega

/-! ## The loop -/

/-- Match as long as there is a match, and list the tokens of what matched. -/
def tokens (cs : List Char) : List Token :=
  match _h : matched? cs with
  | none => []
  | some (segment, rest) => segment.tokens ++ tokens rest
termination_by cs.length
decreasing_by exact length_lt_of_matched? _h

end Pattern

/-- The scanner finds the tokens that the loop over matches finds. -/
theorem lexChars_eq_matched (cs : List Char) : lexChars cs = Pattern.tokens cs := by
  fun_induction Pattern.tokens cs with
  | case1 cs hnone => exact lexChars_of_blank (Pattern.matched?_eq_none_iff.1 hnone)
  | case2 cs segment rest hsome ih =>
    obtain ⟨hjoined, hshaped, hends⟩ := Pattern.matched?_spec hsome
    have hblanks : ∀ c ∈ cs.takeWhile isBlank, isBlank c = true :=
      fun c hc => List.mem_takeWhile_imp hc
    calc lexChars cs
      _ = lexChars (cs.takeWhile isBlank ++ cs.dropWhile isBlank) := by
        rw [List.takeWhile_append_dropWhile]
      _ = lexChars (segment.chars ++ rest) := by rw [lexChars_blanks hblanks, hjoined]
      _ = segment.tokens ++ Pattern.tokens rest := by rw [lexChars_segment hshaped hends, ih]

end PrototypeLisp
