/-
PrototypeLisp.Proofs.Token.Segments — the segments that a text is cut into.

Every character of a source text belongs to a segment: a run of blanks, a
comment, a parenthesis or a word. A segment goes on as long as the characters
after it fit, a comment up to the end of its line, so a text is cut in one way
only (`Partitions.eq_cut`). The scanner knows nothing of segments: it reads
character by character and finds a word when the word is over. Its tokens are
nevertheless the parentheses and the words among the segments, in order and
letter by letter (`lexChars_eq_flatMap`), so no character outside blanks and
comments is lost or used twice.
-/
import PrototypeLisp.Proofs.Text.Runs
import PrototypeLisp.Proofs.Token.Words

namespace PrototypeLisp

open Text

/-! ## Segments -/

/-- A piece of a source text. -/
inductive Segment where
  /-- A run of blanks. -/
  | blanks (run : List Char)
  /-- A semicolon and what follows it in its line. -/
  | comment (body : List Char)
  /-- An opening parenthesis. -/
  | opening
  /-- A closing parenthesis. -/
  | closing
  /-- A word. -/
  | word (letters : List Char)
deriving DecidableEq

namespace Segment

/-- The characters of a segment. -/
def chars : Segment → List Char
  | .blanks run => run
  | .comment body => ';' :: body
  | .opening => ['(']
  | .closing => [')']
  | .word letters => letters

/-- What the characters of a segment may be. -/
def Shaped : Segment → Prop
  | .blanks run => run ≠ [] ∧ ∀ c ∈ run, isBlank c = true
  | .comment body => '\n' ∉ body
  | .opening | .closing => True
  | .word letters => IsWord letters

instance (segment : Segment) : Decidable segment.Shaped :=
  match segment with
  | .blanks _ => inferInstanceAs (Decidable (_ ∧ _))
  | .comment _ => inferInstanceAs (Decidable (¬ _))
  | .opening => isTrue trivial
  | .closing => isTrue trivial
  | .word _ => inferInstanceAs (Decidable (IsWord _))

/-- A segment has at least one character. -/
theorem Shaped.chars_ne_nil {segment : Segment} (h : segment.Shaped) : segment.chars ≠ [] := by
  cases segment with
  | blanks run => exact h.1
  | word letters => exact h.1
  | comment body | opening | closing => exact List.cons_ne_nil _ _

/-- Could the segment go on with this character? -/
def goesOn : Segment → Char → Bool
  | .blanks _, c => isBlank c
  | .comment _, c => c != '\n'
  | .opening, _ | .closing, _ => false
  | .word _, c => isWordChar c

/-- The tokens of a segment: blanks and comments have none. -/
def tokens : Segment → List Token
  | .blanks _ | .comment _ => []
  | .opening => [.opening]
  | .closing => [.closing]
  | .word letters => [.word (String.ofList letters)]

/-- Does the segment stand for a token? -/
def counts : Segment → Bool
  | .blanks _ | .comment _ => false
  | .opening | .closing | .word _ => true

/-- The segment is over: nothing follows, or a character that it cannot go on
with. -/
def EndsBefore (segment : Segment) (rest : List Char) : Prop :=
  ∀ c ∈ rest.head?, segment.goesOn c = false

end Segment

/-- A text is cut into segments, each of which goes on as long as it can. -/
structure Partitions (cs : List Char) (segments : List Segment) : Prop where
  /-- Put together in order they are the text. -/
  joined : segments.flatMap Segment.chars = cs
  /-- Each is a run of blanks, a comment, a parenthesis or a word. -/
  shaped : ∀ segment ∈ segments, segment.Shaped
  /-- None could go on with the character after it. -/
  maximal : ∀ before segment after, segments = before ++ segment :: after →
    segment.EndsBefore (after.flatMap Segment.chars)

namespace Partitions

theorem nil : Partitions [] [] where
  joined := rfl
  shaped := by simp
  maximal := by simp

theorem cons {segment : Segment} {rest : List Char} {segments : List Segment}
    (hshaped : segment.Shaped) (hends : segment.EndsBefore rest) (h : Partitions rest segments) :
    Partitions (segment.chars ++ rest) (segment :: segments) where
  joined := by rw [List.flatMap_cons, h.joined]
  shaped := List.forall_mem_cons.2 ⟨hshaped, h.shaped⟩
  maximal before other after heq := by
    cases before with
    | nil =>
      obtain ⟨rfl, rfl⟩ := List.cons.inj heq
      rwa [h.joined]
    | cons first before =>
      obtain ⟨rfl, hrest⟩ := List.cons.inj heq
      exact h.maximal before other after hrest

/-- The first segment and what is left after it. -/
theorem uncons {segment : Segment} {cs : List Char} {segments : List Segment}
    (h : Partitions cs (segment :: segments)) :
    ∃ rest, cs = segment.chars ++ rest ∧ segment.Shaped ∧ segment.EndsBefore rest ∧
      Partitions rest segments := by
  obtain ⟨hshaped, hrest⟩ := List.forall_mem_cons.1 h.shaped
  refine ⟨segments.flatMap Segment.chars, ?_, hshaped, h.maximal [] segment segments rfl,
    rfl, hrest, ?_⟩
  · rw [← h.joined, List.flatMap_cons]
  · rintro before other after rfl
    exact h.maximal (segment :: before) other after rfl

end Partitions

/-! ## Cutting a text -/

namespace Segment

/-- The first segment of a text that starts with `c`, and what is left. -/
def first (c : Char) (cs : List Char) : Segment × List Char :=
  if isBlank c then (.blanks (c :: cs.takeWhile isBlank), cs.dropWhile isBlank)
  else if c = ';' then (.comment (cs.takeWhile (· != '\n')), cs.dropWhile (· != '\n'))
  else if c = '(' then (.opening, cs)
  else if c = ')' then (.closing, cs)
  else (.word (c :: cs.takeWhile isWordChar), cs.dropWhile isWordChar)

theorem length_snd_first_le (c : Char) (cs : List Char) :
    (first c cs).2.length ≤ cs.length := by
  unfold first
  split
  · exact (List.dropWhile_sublist _).length_le
  · split
    · exact (List.dropWhile_sublist _).length_le
    · split
      · exact Nat.le_refl _
      · split
        · exact Nat.le_refl _
        · exact (List.dropWhile_sublist _).length_le

/-- The segments of a text, in order. -/
def cut : List Char → List Segment
  | [] => []
  | c :: cs => (first c cs).1 :: cut (first c cs).2
termination_by cs => cs.length
decreasing_by exact Nat.lt_succ_of_le (length_snd_first_le c cs)

/-- The first segment is a segment, and goes on as long as it can. -/
theorem first_spec (c : Char) (cs : List Char) :
    (first c cs).1.chars ++ (first c cs).2 = c :: cs ∧ (first c cs).1.Shaped ∧
      (first c cs).1.EndsBefore (first c cs).2 := by
  have hall : ∀ p : Char → Bool, ∀ d ∈ cs.takeWhile p, p d = true := fun p d hd =>
    List.mem_takeWhile_imp hd
  unfold first
  split
  · rename_i hblank
    refine ⟨by simp [chars], ⟨by simp, ?_⟩, stops_dropWhile isBlank cs⟩
    exact List.forall_mem_cons.2 ⟨hblank, hall isBlank⟩
  · rename_i hblank
    split
    · rename_i hsemicolon
      refine ⟨by simp [chars, hsemicolon], ?_, stops_dropWhile (· != '\n') cs⟩
      exact fun hnewline => by simpa using hall (· != '\n') '\n' hnewline
    · rename_i hsemicolon
      split
      · rename_i hopening
        exact ⟨by simp [chars, hopening], trivial, fun _ _ => rfl⟩
      · rename_i hopening
        split
        · rename_i hclosing
          exact ⟨by simp [chars, hclosing], trivial, fun _ _ => rfl⟩
        · rename_i hclosing
          have hc : isWordChar c = true :=
            isWordChar_iff.2 ⟨by simpa using hblank, hopening, hclosing, hsemicolon⟩
          refine ⟨by simp [chars], ⟨by simp, ?_⟩, stops_dropWhile isWordChar cs⟩
          exact List.forall_mem_cons.2 ⟨hc, hall isWordChar⟩

/-- Its first character tells what a segment is, and where it ends. -/
theorem eq_first {segment : Segment} {rest : List Char} (hshaped : segment.Shaped)
    (hends : segment.EndsBefore rest) {c : Char} {cs : List Char}
    (heq : segment.chars ++ rest = c :: cs) : (segment, rest) = first c cs := by
  cases segment with
  | blanks run =>
    obtain ⟨hne, hall⟩ := hshaped
    obtain ⟨d, run, rfl⟩ := List.exists_cons_of_ne_nil hne
    rw [chars, List.cons_append] at heq
    obtain ⟨rfl, rfl⟩ := List.cons.inj heq
    obtain ⟨hblank, hall⟩ := List.forall_mem_cons.1 hall
    obtain ⟨htake, hdrop⟩ := span_run hall hends
    rw [first, if_pos hblank, htake, hdrop]
  | comment body =>
    rw [chars, List.cons_append] at heq
    obtain ⟨rfl, rfl⟩ := List.cons.inj heq
    have hall : ∀ d ∈ body, (d != '\n') = true := by
      intro d hd
      exact bne_iff_ne.2 fun hnewline => hshaped (hnewline ▸ hd)
    obtain ⟨htake, hdrop⟩ := span_run hall hends
    rw [first, if_neg (by decide), if_pos rfl, htake, hdrop]
  | opening =>
    obtain ⟨rfl, rfl⟩ := List.cons.inj heq
    rfl
  | closing =>
    obtain ⟨rfl, rfl⟩ := List.cons.inj heq
    rfl
  | word letters =>
    obtain ⟨hne, hall⟩ := hshaped
    obtain ⟨d, letters, rfl⟩ := List.exists_cons_of_ne_nil hne
    rw [chars, List.cons_append] at heq
    obtain ⟨rfl, rfl⟩ := List.cons.inj heq
    obtain ⟨hd, hall⟩ := List.forall_mem_cons.1 hall
    obtain ⟨hblank, hopening, hclosing, hsemicolon⟩ := isWordChar_iff.1 hd
    obtain ⟨htake, hdrop⟩ := span_run hall hends
    rw [first, if_neg (by simp [hblank]), if_neg hsemicolon, if_neg hopening, if_neg hclosing,
      htake, hdrop]

end Segment

theorem partitions_cut (cs : List Char) : Partitions cs (Segment.cut cs) := by
  fun_induction Segment.cut cs with
  | case1 => exact .nil
  | case2 c cs ih =>
    obtain ⟨hjoined, hshaped, hends⟩ := Segment.first_spec c cs
    have hcons := ih.cons hshaped hends
    rwa [hjoined] at hcons

/-- A text is cut into segments in one way only. -/
theorem Partitions.eq_cut {cs : List Char} {segments : List Segment}
    (h : Partitions cs segments) : segments = Segment.cut cs := by
  induction segments generalizing cs with
  | nil =>
    obtain rfl : [] = cs := h.joined
    rw [Segment.cut]
  | cons segment segments ih =>
    obtain ⟨rest, rfl, hshaped, hends, hrest⟩ := h.uncons
    cases hcs : segment.chars ++ rest with
    | nil => exact absurd (List.append_eq_nil_iff.1 hcs).1 hshaped.chars_ne_nil
    | cons c cs =>
      have hfirst := Segment.eq_first hshaped hends hcs
      rw [Segment.cut, ← hfirst, ← ih hrest]

/-! ## The tokens of segments -/

namespace Scanner

/-- A character outside words finds the scanner as at the start, but for the
tokens before it. -/
theorem step_border {s : Scanner} (hs : s.comment = false) {c : Char}
    (hc : isWordChar c = false) : s.step c = (start.step c).above s.flush := by
  unfold step
  rw [if_neg (by simp [hs]), if_neg (show ¬ start.comment = true by decide)]
  split
  · rfl
  · rename_i hblank
    split
    · rfl
    · rename_i hsemicolon
      split
      · rfl
      · rename_i hopening
        split
        · rfl
        · rename_i hclosing
          have hword : isWordChar c = true :=
            isWordChar_iff.2 ⟨by simpa using hblank, hopening, hclosing, hsemicolon⟩
          rw [hword] at hc
          cases hc

theorem foldl_comment {s : Scanner} (hs : s.comment = true) {body : List Char}
    (hbody : '\n' ∉ body) : body.foldl step s = s := by
  induction body with
  | nil => rfl
  | cons c body ih =>
    rw [List.mem_cons, not_or] at hbody
    have hstep : s.step c = s := by
      have hne : (c != '\n') = true := bne_iff_ne.2 (Ne.symm hbody.1)
      rw [step, if_pos hs, hne, ← hs]
    rw [List.foldl_cons, hstep, ih hbody.2]

end Scanner

/-- After a text without comments, a character outside words cuts the tokens
in two. -/
theorem lexChars_border {cs : List Char} (hcs : ';' ∉ cs) {rest : List Char}
    (hrest : ∀ c ∈ rest.head?, isWordChar c = false) :
    lexChars (cs ++ rest) = lexChars cs ++ lexChars rest := by
  cases rest with
  | nil => simp
  | cons c rest =>
    have hcomment : (cs.foldl Scanner.step .start).comment = false :=
      Scanner.comment_foldl rfl hcs
    unfold lexChars
    rw [List.foldl_append, List.foldl_cons, List.foldl_cons,
      Scanner.step_border hcomment (hrest c rfl), Scanner.foldl_step_above, Scanner.flush_above,
      List.reverse_append]

/-- A comment holds no tokens. -/
theorem lexChars_comment {body : List Char} (hbody : '\n' ∉ body) :
    lexChars (';' :: body) = [] := by
  have hopened : Scanner.start.step ';' = ⟨[], [], true⟩ := by decide
  rw [lexChars, List.foldl_cons, hopened, Scanner.foldl_comment rfl hbody]
  rfl

/-- Blanks in front of a text do not matter: each is a cut of its own. -/
theorem lexChars_blanks {run : List Char} (hrun : ∀ c ∈ run, isBlank c = true)
    (rest : List Char) : lexChars (run ++ rest) = lexChars rest := by
  induction run with
  | nil => rfl
  | cons c run ih =>
    obtain ⟨hc, hrun⟩ := List.forall_mem_cons.1 hrun
    exact (lexChars_cut List.not_mem_nil (.blank hc) (run ++ rest)).trans (ih hrun)

/-- The scanner takes a segment that is over for its tokens. -/
theorem lexChars_segment {segment : Segment} (hshaped : segment.Shaped) {rest : List Char}
    (hends : segment.EndsBefore rest) :
    lexChars (segment.chars ++ rest) = segment.tokens ++ lexChars rest := by
  cases segment with
  | blanks run => exact lexChars_blanks hshaped.2 rest
  | comment body =>
    cases rest with
    | nil => rw [List.append_nil]; exact lexChars_comment hshaped
    | cons c rest =>
      -- only a line feed ends a comment
      obtain rfl : c = '\n' := by simpa [Segment.goesOn] using hends c rfl
      have hrest : lexChars ('\n' :: rest) = lexChars rest := lexChars_newline [] rest
      rw [Segment.chars, lexChars_newline, hrest, lexChars_comment hshaped]
      rfl
  | opening => exact lexChars_cut List.not_mem_nil .opening rest
  | closing => exact lexChars_cut List.not_mem_nil .closing rest
  | word letters =>
    have hword : IsWord letters := hshaped
    rw [Segment.chars, lexChars_border hword.semicolon_not_mem hends, lexChars_word hword]
    rfl

/-- The tokens of a text are those of its segments, in order. -/
theorem lexChars_eq_flatMap {cs : List Char} {segments : List Segment}
    (h : Partitions cs segments) : lexChars cs = segments.flatMap Segment.tokens := by
  induction segments generalizing cs with
  | nil =>
    obtain rfl : [] = cs := h.joined
    rfl
  | cons segment segments ih =>
    obtain ⟨rest, rfl, hshaped, hends, hrest⟩ := h.uncons
    rw [lexChars_segment hshaped hends, ih hrest, List.flatMap_cons]

/-! ## Texts and kinds -/

/-- A token with the kind of its word. -/
def Token.labelled : Token → Option WordKind × String
  | .opening => (none, "(")
  | .closing => (none, ")")
  | .word text => (some (WordKind.of text.toList), text)

/-- A segment that counts, with the kind of its word. -/
def Segment.labelled : Segment → Option WordKind × String
  | .word letters => (some (WordKind.of letters), String.ofList letters)
  | segment => (none, String.ofList segment.chars)

/-- A segment that counts stands for one token, which has its characters, and
the others for none. -/
theorem Segment.tokens_spec (segment : Segment) :
    segment.tokens.map Token.labelled = ([segment].filter counts).map labelled ∧
      segment.tokens.flatMap (·.text.toList) = ([segment].filter counts).flatMap chars := by
  cases segment with
  | blanks _ | comment _ => exact ⟨rfl, rfl⟩
  | opening | closing => exact ⟨rfl, rfl⟩
  | word letters =>
    have hcounts : [word letters].filter counts = [word letters] := rfl
    rw [hcounts]
    simp [tokens, Token.labelled, labelled, Token.text, chars]

theorem Segment.map_labelled_flatMap (segments : List Segment) :
    (segments.flatMap tokens).map Token.labelled = (segments.filter counts).map labelled := by
  induction segments with
  | nil => rfl
  | cons segment segments ih =>
    rw [List.flatMap_cons, List.map_append, ih, segment.tokens_spec.1, ← List.map_append,
      ← List.filter_append]
    rfl

theorem Segment.text_flatMap (segments : List Segment) :
    (segments.flatMap tokens).flatMap (·.text.toList) =
      (segments.filter counts).flatMap chars := by
  induction segments with
  | nil => rfl
  | cons segment segments ih =>
    rw [List.flatMap_cons, List.flatMap_append, ih, segment.tokens_spec.2, ← List.flatMap_append,
      ← List.filter_append]
    rfl

/-- How the tokens of a source text come from the segments it is cut into. -/
structure LexedFrom (source : String) (segments : List Segment) : Prop where
  /-- The text is cut into these segments. -/
  partitions : Partitions source.toList segments
  /-- It cannot be cut in another way. -/
  unique : ∀ other, Partitions source.toList other → other = segments
  /-- The tokens are those of the segments, in order. -/
  tokens : lex source = segments.flatMap Segment.tokens
  /-- There is one for each parenthesis and each word, with its text unchanged,
  and a word has the kind that its letters spell. -/
  labels : (lex source).map Token.labelled = (segments.filter Segment.counts).map Segment.labelled
  /-- Outside blanks and comments every character is in one token. -/
  kept : (lex source).flatMap (·.text.toList) =
    (segments.filter Segment.counts).flatMap Segment.chars

/-- Lexing cuts every source text into its segments. -/
theorem lex_partitions (source : String) : ∃ segments, LexedFrom source segments := by
  have hcut := partitions_cut source.toList
  have hlex : lex source = (Segment.cut source.toList).flatMap Segment.tokens :=
    lexChars_eq_flatMap hcut
  refine ⟨Segment.cut source.toList, hcut, fun _ hother => hother.eq_cut, hlex, ?_, ?_⟩
  · rw [hlex, Segment.map_labelled_flatMap]
  · rw [hlex, Segment.text_flatMap]

/-- Words, parentheses and comments that touch each other. -/
example : Segment.cut "(a;b)\n :c)1".toList =
    [.opening, .word ['a'], .comment ['b', ')'], .blanks ['\n', ' '], .word [':', 'c'],
      .closing, .word ['1']] := by
  decide +kernel

end PrototypeLisp
