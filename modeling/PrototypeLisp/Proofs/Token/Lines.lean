/-
PrototypeLisp.Proofs.Token.Lines — tokens do not reach over the end of a line.

A line feed ends the word and the comment that it meets, so after it the
scanner is as it was at the start, apart from the tokens found. Hence the
tokens of lines put together are those of the lines one after the other
(`lex_join_append`). A text is the lines it is cut into, and all of them but
the last end in a line feed.
-/
import PrototypeLisp.Repl

namespace PrototypeLisp

open Text

/-! ## The scanner -/

namespace Scanner

/-- The state with earlier tokens below those found. -/
def above (earlier : List Token) (s : Scanner) : Scanner :=
  { s with found := s.found ++ earlier }

theorem flush_above (earlier : List Token) (s : Scanner) :
    (s.above earlier).flush = s.flush ++ earlier := by
  unfold flush above
  split <;> simp_all

/-- Earlier tokens make no difference to a step. -/
theorem step_above (earlier : List Token) (s : Scanner) (c : Char) :
    (s.above earlier).step c = (s.step c).above earlier := by
  have hflush := flush_above earlier s
  unfold step
  split
  · rename_i hcomment
    have hc : s.comment = true := hcomment
    rw [if_pos hc]
    rfl
  · rename_i hcomment
    have hc : ¬ s.comment = true := hcomment
    rw [if_neg hc, hflush]
    split
    · rfl
    · split
      · rfl
      · split
        · rfl
        · split <;> rfl

theorem foldl_step_above (earlier : List Token) (s : Scanner) (cs : List Char) :
    cs.foldl step (s.above earlier) = (cs.foldl step s).above earlier := by
  induction cs generalizing s with
  | nil => rfl
  | cons c cs ih => rw [List.foldl_cons, List.foldl_cons, step_above, ih]

/-- Inside a comment no word is being read. -/
def Tidy (s : Scanner) : Prop :=
  s.comment = true → s.word = []

theorem tidy_step {s : Scanner} (hs : s.Tidy) (c : Char) : (s.step c).Tidy := by
  unfold step
  split
  · rename_i hcomment
    exact fun _ => hs hcomment
  · split
    · exact fun _ => rfl
    · split
      · exact fun _ => rfl
      · split
        · exact fun _ => rfl
        · split
          · exact fun _ => rfl
          · rename_i hcomment _ _ _ _
            exact fun h => absurd h hcomment

theorem tidy_foldl {s : Scanner} (hs : s.Tidy) (cs : List Char) : (cs.foldl step s).Tidy := by
  induction cs generalizing s with
  | nil => exact hs
  | cons c cs ih => exact ih (tidy_step hs c)

/-- After a line feed nothing but the tokens found is left. -/
theorem step_newline {s : Scanner} (hs : s.Tidy) : s.step '\n' = start.above s.flush := by
  unfold step
  by_cases hcomment : s.comment = true
  · rw [if_pos hcomment]
    simp [start, above, flush, hs hcomment]
  · rw [if_neg hcomment, if_pos (by decide)]
    rfl

end Scanner

/-- A line feed cuts the tokens of a text in two. -/
theorem lexChars_newline (cs rest : List Char) :
    lexChars (cs ++ '\n' :: rest) = lexChars cs ++ lexChars rest := by
  have htidy : (cs.foldl Scanner.step .start).Tidy :=
    Scanner.tidy_foldl (fun h => by simp [Scanner.start] at h) cs
  unfold lexChars
  rw [List.foldl_append, List.foldl_cons, Scanner.step_newline htidy, Scanner.foldl_step_above,
    Scanner.flush_above, List.reverse_append]

/-- Blanks hold no tokens. -/
theorem lexChars_of_blank {cs : List Char} (h : cs.all isBlank = true) :
    lexChars cs = [] := by
  have hstart : cs.foldl Scanner.step .start = .start := by
    induction cs with
    | nil => rfl
    | cons c cs ih =>
      rw [List.all_cons, Bool.and_eq_true] at h
      have hstep : Scanner.start.step c = .start := by
        simp [Scanner.step, Scanner.start, Scanner.flush, h.1]
      rw [List.foldl_cons, hstep, ih h.2]
  rw [lexChars, hstart]
  rfl

/-! ## Lines -/

/-- The text ends in a line feed. -/
def Terminated (line : String) : Prop :=
  ∃ cs, line.toList = cs ++ ['\n']

/-- The tokens of terminated lines followed by any text. -/
theorem lexChars_flatMap_append {lines : List String} (h : ∀ line ∈ lines, Terminated line)
    (rest : List Char) : lexChars (lines.flatMap String.toList ++ rest) =
      lexChars (lines.flatMap String.toList) ++ lexChars rest := by
  induction lines with
  | nil => rfl
  | cons line lines ih =>
    obtain ⟨cs, hcs⟩ := h line (by simp)
    have hrest := ih fun other hother => h other (List.mem_cons_of_mem _ hother)
    simp only [List.flatMap_cons, hcs, List.append_assoc, List.cons_append, List.nil_append,
      lexChars_newline, hrest]

/-- The tokens of lines put together, of which the first ones are
terminated. -/
theorem lex_join_append {lines rest : List String}
    (h : rest ≠ [] → ∀ line ∈ lines, Terminated line) :
    lex (String.join (lines ++ rest)) = lex (String.join lines) ++ lex (String.join rest) := by
  cases rest with
  | nil => simp [lex, lexChars, Scanner.start, Scanner.flush]
  | cons line rest =>
    have hlines := h (by simp)
    simp only [lex, String.toList_join, List.flatMap_append]
    exact lexChars_flatMap_append hlines _

/-- How many more parentheses tokens open than they close. -/
def opened : List Token → Int
  | [] => 0
  | token :: tokens => token.opens + opened tokens

@[simp] theorem opened_nil : opened [] = 0 := rfl

@[simp] theorem opened_cons (token : Token) (tokens : List Token) :
    opened (token :: tokens) = token.opens + opened tokens := rfl

theorem foldl_opens (tokens : List Token) (n : Int) :
    (tokens.map Token.opens).foldl (· + ·) n = n + opened tokens := by
  induction tokens generalizing n with
  | nil => simp
  | cons token tokens ih =>
    rw [List.map_cons, List.foldl_cons, ih, opened_cons, Int.add_assoc]

theorem depth_eq (source : String) : depth source = opened (lex source) := by
  rw [depth, foldl_opens, Int.zero_add]

namespace Repl

theorem flatMap_linesFrom (current cs : List Char) :
    (linesFrom current cs).flatMap String.toList = current.reverse ++ cs := by
  induction cs generalizing current with
  | nil =>
    unfold linesFrom
    split <;> simp_all
  | cons c cs ih =>
    unfold linesFrom
    split
    · simp_all
    · simp [ih]

/-- A text is its lines. -/
theorem join_lines (text : String) : String.join (lines text) = text := by
  apply String.toList_inj.1
  rw [String.toList_join, lines, flatMap_linesFrom]
  rfl

theorem terminated_linesFrom {current cs : List Char} {before after : List String}
    (h : linesFrom current cs = before ++ after) (hafter : after ≠ []) :
    ∀ line ∈ before, Terminated line := by
  induction cs generalizing current before with
  | nil =>
    unfold linesFrom at h
    split at h
    · have hnil : before = [] := (List.append_eq_nil_iff.1 h.symm).1
      simp [hnil]
    · cases before with
      | nil => simp
      | cons line before =>
        obtain ⟨-, hrest⟩ := List.cons.inj h
        exact absurd (List.append_eq_nil_iff.1 hrest.symm).2 hafter
  | cons c cs ih =>
    unfold linesFrom at h
    split at h
    · rename_i hc
      cases before with
      | nil => simp
      | cons line before =>
        obtain ⟨hline, hrest⟩ := List.cons.inj h
        intro other hother
        rcases List.mem_cons.1 hother with rfl | hother
        · exact ⟨current.reverse, by rw [← hline, hc]; simp⟩
        · exact ih hrest other hother
    · exact ih h

/-- A line has characters, and none of them but the last is a line feed. -/
def IsLine (line : String) : Prop :=
  line.toList ≠ [] ∧ '\n' ∉ line.toList.dropLast

theorem isLine_linesFrom {current : List Char} (hcurrent : '\n' ∉ current) (cs : List Char) :
    ∀ line ∈ linesFrom current cs, IsLine line := by
  induction cs generalizing current with
  | nil =>
    unfold linesFrom
    split
    · simp
    · rename_i hne
      intro line hline
      obtain rfl := List.mem_singleton.1 hline
      refine ⟨by simpa using hne, fun hmem => hcurrent ?_⟩
      simpa using (List.dropLast_subset _ hmem)
  | cons c cs ih =>
    unfold linesFrom
    split
    · intro line hline
      rcases List.mem_cons.1 hline with rfl | hline
      · simpa [IsLine] using hcurrent
      · exact ih (by simp) line hline
    · rename_i hc
      refine ih ?_
      simp only [List.mem_cons, not_or]
      exact ⟨fun h => hc h.symm, hcurrent⟩

/-- The lines of a text: put together they are the text, and each ends at its
first line feed, or at the end of the text. -/
structure LinesOf (text : String) (lines : List String) : Prop where
  join : String.join lines = text
  line : ∀ line ∈ lines, IsLine line
  terminated : ∀ before after, lines = before ++ after → after ≠ [] →
    ∀ line ∈ before, Terminated line

theorem linesOf_lines (text : String) : LinesOf text (lines text) where
  join := join_lines text
  line := isLine_linesFrom (by simp) text.toList
  terminated _ _ h hafter := terminated_linesFrom h hafter

end Repl

end PrototypeLisp
