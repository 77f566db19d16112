/-
PrototypeLisp.Proofs.Token.Words — the words of a text.

A word is a row of characters that neither separate words nor open a comment.
The scanner takes such a row for one token, and every word token it finds is
one. A text without a semicolon has no comments, so a blank or a parenthesis
after it cuts the tokens there (`lexChars_cut`).
-/
import PrototypeLisp.Proofs.Token.Lines

namespace PrototypeLisp

open Text

/-- The characters of words: all but blanks, parentheses and the semicolon. -/
def isWordChar (c : Char) : Bool :=
  !isBlank c && c != '(' && c != ')' && c != ';'

/-- A row of such characters, at least one. -/
def IsWord (word : List Char) : Prop :=
  word ≠ [] ∧ ∀ c ∈ word, isWordChar c = true

instance (word : List Char) : Decidable (IsWord word) :=
  inferInstanceAs (Decidable (_ ∧ _))

theorem isWordChar_iff {c : Char} : isWordChar c = true ↔
    isBlank c = false ∧ c ≠ '(' ∧ c ≠ ')' ∧ c ≠ ';' := by
  simp [isWordChar, and_assoc]

theorem IsWord.semicolon_not_mem {word : List Char} (h : IsWord word) : ';' ∉ word :=
  fun hmem => absurd (h.2 ';' hmem) (by decide)

/-- The words among tokens are words. -/
def AllWords (tokens : List Token) : Prop :=
  ∀ text, .word text ∈ tokens → IsWord text.toList

/-- The tokens of a character that belongs to no word and opens no comment. -/
inductive Cuts : Char → List Token → Prop where
  | blank {c : Char} (h : isBlank c = true) : Cuts c []
  | opening : Cuts '(' [.opening]
  | closing : Cuts ')' [.closing]

namespace Scanner

/-! ## Steps -/

theorem step_wordChar {s : Scanner} {c : Char} (hs : s.comment = false)
    (hc : isWordChar c = true) : s.step c = { s with word := c :: s.word } := by
  obtain ⟨hblank, hopening, hclosing, hsemicolon⟩ := isWordChar_iff.1 hc
  simp [step, hs, hblank, hopening, hclosing, hsemicolon]

/-- Outside a comment, a character that cuts leaves nothing but tokens. -/
theorem step_cut {s : Scanner} {c : Char} {own : List Token} (hs : s.comment = false)
    (hc : Cuts c own) : s.step c = start.above (own ++ s.flush) := by
  cases hc with
  | blank hblank => simp [step, hs, hblank, start, above]
  | opening =>
    have hblank : isBlank '(' = false := by decide
    simp [step, hs, hblank, start, above]
  | closing =>
    have hblank : isBlank ')' = false := by decide
    simp [step, hs, hblank, start, above]

/-- Only a semicolon opens a comment. -/
theorem comment_step {s : Scanner} {c : Char} (hs : s.comment = false) (hc : c ≠ ';') :
    (s.step c).comment = false := by
  unfold step
  rw [if_neg (by simp [hs]), if_neg hc]
  split
  · rfl
  · split
    · rfl
    · split
      · rfl
      · exact hs

theorem comment_foldl {s : Scanner} (hs : s.comment = false) {cs : List Char} (hcs : ';' ∉ cs) :
    (cs.foldl step s).comment = false := by
  induction cs generalizing s with
  | nil => exact hs
  | cons c cs ih =>
    rw [List.mem_cons, not_or] at hcs
    exact ih (comment_step hs (Ne.symm hcs.1)) hcs.2

theorem foldl_word {s : Scanner} (hs : s.comment = false) {word : List Char}
    (hword : ∀ c ∈ word, isWordChar c = true) :
    word.foldl step s = { s with word := word.reverse ++ s.word } := by
  induction word generalizing s with
  | nil => rfl
  | cons c word ih =>
    obtain ⟨hc, hrest⟩ := List.forall_mem_cons.1 hword
    have hnext : ({ s with word := c :: s.word } : Scanner).comment = false := hs
    rw [List.foldl_cons, step_wordChar hs hc, ih hnext hrest]
    simp

/-! ## The words found -/

/-- All words found are words, and so is the one being read, unless it is
empty. -/
structure Worded (s : Scanner) : Prop where
  found : AllWords s.found
  word : ∀ c ∈ s.word, isWordChar c = true

theorem Worded.flush {s : Scanner} (hs : s.Worded) : AllWords s.flush := by
  unfold Scanner.flush
  split
  · exact hs.found
  · rename_i hne
    intro text h
    rcases List.mem_cons.1 h with hlatest | hfound
    · obtain rfl := Token.word.inj hlatest
      rw [String.toList_ofList]
      exact ⟨by simpa using hne, fun c hc => hs.word c (by simpa using hc)⟩
    · exact hs.found text hfound

theorem Worded.step {s : Scanner} (hs : s.Worded) (c : Char) : (s.step c).Worded := by
  unfold Scanner.step
  split
  · exact ⟨hs.found, hs.word⟩
  · split
    · exact ⟨hs.flush, by simp⟩
    · rename_i hblank
      split
      · exact ⟨hs.flush, by simp⟩
      · rename_i hsemicolon
        split
        · exact ⟨fun text h => hs.flush text (by simpa using h), by simp⟩
        · rename_i hopening
          split
          · exact ⟨fun text h => hs.flush text (by simpa using h), by simp⟩
          · rename_i hclosing
            have hc : isWordChar c = true :=
              isWordChar_iff.2 ⟨by simpa using hblank, hopening, hclosing, hsemicolon⟩
            exact ⟨hs.found, List.forall_mem_cons.2 ⟨hc, hs.word⟩⟩

theorem Worded.foldl {s : Scanner} (hs : s.Worded) (cs : List Char) :
    (cs.foldl Scanner.step s).Worded := by
  induction cs generalizing s with
  | nil => exact hs
  | cons c cs ih => exact ih (hs.step c)

end Scanner

/-! ## Tokens -/

/-- The scanner finds nothing but words. -/
theorem allWords_lexChars (cs : List Char) : AllWords (lexChars cs) := by
  have hstart : Scanner.start.Worded := ⟨by simp [AllWords, Scanner.start], by simp [Scanner.start]⟩
  exact fun text h => (hstart.foldl cs).flush text (List.mem_reverse.1 h)

@[simp] theorem lexChars_nil : lexChars [] = [] := rfl

/-- A word is one token. -/
theorem lexChars_word {word : List Char} (h : IsWord word) :
    lexChars word = [.word (String.ofList word)] := by
  rw [lexChars, Scanner.foldl_word rfl h.2]
  simp [Scanner.start, Scanner.flush, h.1]

/-- After a text without comments, a character that belongs to no word cuts the
tokens. -/
theorem lexChars_cut {cs : List Char} (hcs : ';' ∉ cs) {c : Char} {own : List Token}
    (hc : Cuts c own) (rest : List Char) :
    lexChars (cs ++ c :: rest) = lexChars cs ++ (own ++ lexChars rest) := by
  have hcomment : (cs.foldl Scanner.step .start).comment = false := Scanner.comment_foldl rfl hcs
  have hown : own.reverse = own := by cases hc <;> rfl
  unfold lexChars
  rw [List.foldl_append, List.foldl_cons, Scanner.step_cut hcomment hc, Scanner.foldl_step_above,
    Scanner.flush_above, List.reverse_append, List.reverse_append, hown, List.append_assoc]

theorem lexChars_space (cs : List Char) : lexChars (' ' :: cs) = lexChars cs :=
  lexChars_cut List.not_mem_nil (.blank (by decide)) cs

/-- The tokens of a text without comments in parentheses. -/
theorem lexChars_enclosed {cs : List Char} (hcs : ';' ∉ cs) :
    lexChars ('(' :: (cs ++ [')'])) = .opening :: lexChars cs ++ [.closing] := by
  have hopening := lexChars_cut List.not_mem_nil .opening (cs ++ [')'])
  rw [List.nil_append] at hopening
  rw [hopening, lexChars_cut hcs .closing]
  simp

end PrototypeLisp
