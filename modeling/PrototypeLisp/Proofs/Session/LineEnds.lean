/-
PrototypeLisp.Proofs.Session.LineEnds — lines may end in any spelling.

A line feed cuts the tokens of a text in two, in the middle of a word or of a
comment as well. A file may end its lines in a carriage return too, alone or
with a line feed after it; when it is read, a line feed takes the place of both
(`Unified`). Among blanks that changes nothing but their number, and a comment
before such a pair only loses its last character. So every segment keeps its
tokens (`exists_unified_segment`) and so does the text, and loading a file is
evaluating what it holds.

A carriage return alone inside a comment is the exception: it does not end the
comment, and the line feed in its place does.
-/
import PrototypeLisp.Proofs.Eval.Events
import PrototypeLisp.Proofs.Expr.Balance
import PrototypeLisp.Proofs.Session.Streaming
import PrototypeLisp.Proofs.Token.Segments

namespace PrototypeLisp

open Text

/-! ## Carriage returns in comments -/

/-- If the segment is a comment, every carriage return in it has a line feed
right after it; `rest` is the text after the segment. -/
def Segment.ReturnsFeed (segment : Segment) (rest : List Char) : Prop :=
  ∀ body, segment = .comment body → ∀ tail, '\r' :: tail <:+ body →
    (tail ++ rest).head? = some '\n'

/-- Every carriage return inside a comment has a line feed right after it. -/
def ReturnsFeed (segments : List Segment) : Prop :=
  ∀ before segment after, segments = before ++ segment :: after →
    segment.ReturnsFeed (after.flatMap Segment.chars)

theorem returnsFeed_nil : ReturnsFeed [] := by
  simp [ReturnsFeed]

theorem returnsFeed_cons {segment : Segment} {segments : List Segment} :
    ReturnsFeed (segment :: segments) ↔
      segment.ReturnsFeed (segments.flatMap Segment.chars) ∧ ReturnsFeed segments := by
  constructor
  · intro h
    refine ⟨h [] segment segments rfl, ?_⟩
    rintro before other after rfl
    exact h (segment :: before) other after rfl
  · rintro ⟨hfirst, hrest⟩ before other after heq
    cases before with
    | nil =>
      obtain ⟨rfl, rfl⟩ := List.cons.inj heq
      exact hfirst
    | cons first before =>
      obtain ⟨rfl, hsegments⟩ := List.cons.inj heq
      exact hrest before other after hsegments

/-- Only blanks go on with a line feed, and these go on with a carriage return
as well. -/
theorem Segment.goesOn_return (segment : Segment) :
    segment.goesOn '\r' = true ∨ segment.goesOn '\n' = false := by
  cases segment with
  | blanks run => exact .inl rfl
  | comment body => exact .inr rfl
  | opening | closing => exact .inr rfl
  | word letters => exact .inr rfl

namespace Session

/-! ## Unifying line ends -/

/-- A text, and the same text with its line ends unified: a line feed takes the
place of a carriage return and a line feed, and of a carriage return alone. -/
inductive Unified : List Char → List Char → Prop where
  | nil : Unified [] []
  | pair {cs unified : List Char} (h : Unified cs unified) :
      Unified ('\r' :: '\n' :: cs) ('\n' :: unified)
  | lone {cs unified : List Char} (hnext : cs.head? ≠ some '\n') (h : Unified cs unified) :
      Unified ('\r' :: cs) ('\n' :: unified)
  | other {c : Char} {cs unified : List Char} (hc : c ≠ '\r') (h : Unified cs unified) :
      Unified (c :: cs) (c :: unified)

/-- Unify the line ends of what is left of a text; the flag says that a
carriage return stood before it. -/
def unifyFrom (returned : Bool) : List Char → List Char
  | [] => []
  | c :: cs =>
    if c = '\r' then '\n' :: unifyFrom true cs
    else if c = '\n' ∧ returned then unifyFrom false cs
    else c :: unifyFrom false cs

theorem foldl_unifyStep (cs earlier : List Char) (returned : Bool) :
    (cs.foldl unifyStep (earlier, returned)).1 = (unifyFrom returned cs).reverse ++ earlier := by
  induction cs generalizing earlier returned with
  | nil => rfl
  | cons c cs ih =>
    rw [List.foldl_cons, unifyStep, unifyFrom]
    split
    · simp [ih]
    · split <;> simp [ih]

theorem unifyLineEnds_eq (cs : List Char) : unifyLineEnds cs = unifyFrom false cs := by
  simp [unifyLineEnds, foldl_unifyStep]

/-- Only a line feed can tell that a carriage return stood before it. -/
theorem unifyFrom_true {cs : List Char} (h : cs.head? ≠ some '\n') :
    unifyFrom true cs = unifyFrom false cs := by
  cases cs with
  | nil => rfl
  | cons c cs =>
    have hc : c ≠ '\n' := by simpa using h
    simp [unifyFrom, hc]

/-- A character is kept, or a line feed takes its place. -/
theorem unifyFrom_cons (c : Char) (cs : List Char) : unifyFrom false (c :: cs) =
    (if c = '\r' then '\n' else c) :: unifyFrom (decide (c = '\r')) cs := by
  by_cases hc : c = '\r' <;> simp [unifyFrom, hc]

/-- Characters other than carriage returns are kept. -/
theorem unifyFrom_run {run : List Char} (hrun : '\r' ∉ run) (rest : List Char) :
    unifyFrom false (run ++ rest) = run ++ unifyFrom false rest := by
  induction run with
  | nil => rfl
  | cons c run ih =>
    rw [List.mem_cons, not_or] at hrun
    have hc : c ≠ '\r' := Ne.symm hrun.1
    rw [List.cons_append, unifyFrom_cons, if_neg hc, decide_eq_false hc, ih hrun.2]
    rfl

/-- Unifying line ends does what it should, also after a carriage return. -/
theorem unified_unifyFrom (cs : List Char) :
    Unified cs (unifyFrom false cs) ∧ Unified ('\r' :: cs) ('\n' :: unifyFrom true cs) := by
  induction cs with
  | nil => exact ⟨.nil, .lone (by simp) .nil⟩
  | cons c cs ih =>
    have hfirst : Unified (c :: cs) (unifyFrom false (c :: cs)) := by
      rw [unifyFrom_cons]
      by_cases hc : c = '\r'
      · rw [if_pos hc, decide_eq_true hc, hc]
        exact ih.2
      · rw [if_neg hc, decide_eq_false hc]
        exact .other hc ih.1
    refine ⟨hfirst, ?_⟩
    by_cases hc : c = '\n'
    · subst hc
      exact .pair ih.1
    · have hnext : (c :: cs).head? ≠ some '\n' := by simpa using hc
      rw [unifyFrom_true hnext]
      exact .lone hnext hfirst

/-! ## Segments with unified line ends -/

/-- What cannot go on with the rest of a text cannot go on with it when its
line ends are unified. -/
theorem stops_unifyFrom {p : Char → Bool} (hp : p '\r' = true ∨ p '\n' = false)
    {rest : List Char} (h : Stops p rest) : Stops p (unifyFrom false rest) := by
  cases rest with
  | nil => exact stops_nil
  | cons c rest =>
    rw [stops_cons] at h
    rw [unifyFrom_cons, stops_cons]
    by_cases hc : c = '\r'
    · rw [if_pos hc]
      refine hp.resolve_left fun hreturn => ?_
      rw [← hc, h] at hreturn
      cases hreturn
    · rwa [if_neg hc]

/-- Blanks stay blanks. -/
theorem exists_unified_blanks {run rest : List Char} (hrun : ∀ c ∈ run, isBlank c = true)
    (hrest : Stops isBlank rest) (returned : Bool) : ∃ blanks, (∀ c ∈ blanks, isBlank c = true) ∧
      unifyFrom returned (run ++ rest) = blanks ++ unifyFrom false rest := by
  induction run generalizing returned with
  | nil =>
    refine ⟨[], by simp, ?_⟩
    cases returned with
    | false => rfl
    | true =>
      refine unifyFrom_true fun hfeed => ?_
      have hblank := hrest '\n' hfeed
      revert hblank
      decide
  | cons c run ih =>
    obtain ⟨hc, hrun⟩ := List.forall_mem_cons.1 hrun
    rw [List.cons_append, unifyFrom]
    split
    · obtain ⟨blanks, hblanks, heq⟩ := ih hrun true
      exact ⟨'\n' :: blanks, List.forall_mem_cons.2 ⟨by decide, hblanks⟩, by rw [heq]; rfl⟩
    · obtain ⟨blanks, hblanks, heq⟩ := ih hrun false
      split
      · exact ⟨blanks, hblanks, heq⟩
      · exact ⟨c :: blanks, List.forall_mem_cons.2 ⟨hc, hblanks⟩, by rw [heq]; rfl⟩

/-- A segment stays a segment, and keeps its tokens. -/
theorem exists_unified_segment {segment : Segment} {rest : List Char} (hshaped : segment.Shaped)
    (hends : segment.EndsBefore rest) (hreturns : segment.ReturnsFeed rest) :
    ∃ unified : Segment, unified.Shaped ∧ unified.EndsBefore (unifyFrom false rest) ∧
      unified.tokens = segment.tokens ∧
      unifyFrom false (segment.chars ++ rest) = unified.chars ++ unifyFrom false rest := by
  have hends' : segment.EndsBefore (unifyFrom false rest) :=
    stops_unifyFrom segment.goesOn_return hends
  cases segment with
  | blanks run =>
    obtain ⟨hne, hall⟩ := hshaped
    obtain ⟨c, run, rfl⟩ := List.exists_cons_of_ne_nil hne
    obtain ⟨hc, hall⟩ := List.forall_mem_cons.1 hall
    obtain ⟨blanks, hblanks, heq⟩ := exists_unified_blanks hall hends (decide (c = '\r'))
    have hfirst : isBlank (if c = '\r' then '\n' else c) = true := by
      split
      · decide
      · exact hc
    refine ⟨.blanks ((if c = '\r' then '\n' else c) :: blanks),
      ⟨by simp, List.forall_mem_cons.2 ⟨hfirst, hblanks⟩⟩, hends', rfl, ?_⟩
    rw [Segment.chars, List.cons_append, unifyFrom_cons, heq]
    rfl
  | comment body =>
    by_cases hbody : '\r' ∈ body
    · obtain ⟨kept, tail, rfl, hkept⟩ := List.eq_append_cons_of_mem hbody
      have hnext := hreturns _ rfl tail (List.suffix_append _ _)
      -- a comment holds no line feed, so the carriage return is its last character
      cases tail with
      | cons c tail =>
        obtain rfl : c = '\n' := by simpa using hnext
        exact absurd (by simp) hshaped
      | nil =>
        obtain ⟨rest, rfl⟩ : ∃ after, rest = '\n' :: after := List.head?_eq_some_iff.1 hnext
        have hkept' : '\r' ∉ ';' :: kept := by simpa using hkept
        have hfeed : '\n' ∉ kept := fun hmem => hshaped (List.mem_append_left _ hmem)
        refine ⟨.comment kept, hfeed, hends', rfl, ?_⟩
        calc unifyFrom false (';' :: (kept ++ ['\r']) ++ '\n' :: rest)
          _ = unifyFrom false ((';' :: kept) ++ '\r' :: '\n' :: rest) := by simp
          _ = (';' :: kept) ++ unifyFrom false ('\r' :: '\n' :: rest) := unifyFrom_run hkept' _
          _ = (';' :: kept) ++ unifyFrom false ('\n' :: rest) := by simp [unifyFrom]
    · have hreturn : '\r' ∉ ';' :: body := by simpa using hbody
      exact ⟨.comment body, hshaped, hends', rfl, unifyFrom_run hreturn rest⟩
  | opening => exact ⟨.opening, trivial, hends', rfl, unifyFrom_run (by decide) rest⟩
  | closing => exact ⟨.closing, trivial, hends', rfl, unifyFrom_run (by decide) rest⟩
  | word letters =>
    have hword : IsWord letters := hshaped
    have hreturn : '\r' ∉ letters := fun hmem => absurd (hword.2 '\r' hmem) (by decide)
    exact ⟨.word letters, hshaped, hends', rfl, unifyFrom_run hreturn rest⟩

/-- The segments of a text stay segments, and keep their tokens. -/
theorem exists_unified_segments {cs : List Char} {segments : List Segment}
    (h : Partitions cs segments) (hreturns : ReturnsFeed segments) :
    ∃ unified, Partitions (unifyFrom false cs) unified ∧
      unified.flatMap Segment.tokens = segments.flatMap Segment.tokens := by
  induction segments generalizing cs with
  | nil =>
    obtain rfl : [] = cs := h.joined
    exact ⟨[], .nil, rfl⟩
  | cons segment segments ih =>
    obtain ⟨rest, rfl, hshaped, hends, hrest⟩ := h.uncons
    obtain ⟨hfirst, hothers⟩ := returnsFeed_cons.1 hreturns
    rw [hrest.joined] at hfirst
    obtain ⟨first, hshaped', hends', htokens, heq⟩ := exists_unified_segment hshaped hends hfirst
    obtain ⟨others, hpartitions, htokens'⟩ := ih hrest hothers
    refine ⟨first :: others, ?_, ?_⟩
    · rw [heq]
      exact hpartitions.cons hshaped' hends'
    · rw [List.flatMap_cons, List.flatMap_cons, htokens, htokens']

/-- Unifying line ends does not show in the tokens. -/
theorem lex_unifyFrom {text : String} (h : ReturnsFeed (Segment.cut text.toList)) :
    lex (String.ofList (unifyFrom false text.toList)) = lex text := by
  have hcut := partitions_cut text.toList
  obtain ⟨unified, hunified, htokens⟩ := exists_unified_segments hcut h
  rw [lex, lex, String.toList_ofList, lexChars_eq_flatMap hunified, htokens,
    ← lexChars_eq_flatMap hcut]

/-! ## Files -/

/-- The bytes of a text spell the text, and reading them unifies its line
ends. -/
theorem decode?_toUTF8 (text : String) :
    decode? text.toUTF8 = some (String.ofList (unifyFrom false text.toList)) := by
  have hspelled : String.fromUTF8? text.toUTF8 = some text := by
    simp only [String.fromUTF8?, String.toUTF8_eq_toByteArray, text.isValidUTF8, dite_true]
    rfl
  simp only [decode?, hspelled, Option.map_some, unifyLineEnds_eq]

/-- Evaluating a text does not look at the log. -/
theorem blind_evalText (limit : Nat) (source : String) : Eval.Blind (evalText limit source) := by
  rw [evalText, evalTokens_eq]
  refine (Eval.compositional_blind.evalBlock (Eval.blind_eval limit) Heap.root _ _).bind ?_
  intro value
  cases (Expr.leading limit (lex source)).2 with
  | none => exact .pure value
  | some fault => exact .throw _

/-- Loading a file is evaluating what it holds, after its name is noted. -/
theorem load_toUTF8 {text : String} (h : ReturnsFeed (Segment.cut text.toList)) (limit : Nat)
    (path : String) (s : Store) : load limit path (.ok text.toUTF8) s =
      evalText limit text ⟨s.heap, .loading path :: s.events⟩ := by
  have hload : load limit path (.ok text.toUTF8) s =
      evalText limit (String.ofList (unifyFrom false text.toList))
        ⟨s.heap, .loading path :: s.events⟩ := by
    simp only [load, decode?_toUTF8]
    rfl
  rw [hload, evalText, evalText, lex_unifyFrom h]

/-- A line feed cuts the tokens of every text and splits its depth. If every
carriage return inside a comment has a line feed right after it, unifying line
ends, which is how a file is read, leaves the tokens as they are. Loading a file
that holds the text then has the outcome of evaluating the text: the same value
or failure, the same heap and the same events, after the note of its name. -/
theorem line_ends_invisible :
    (∀ source more, lex (source ++ "\n" ++ more) = lex source ++ lex more ∧
      depth (source ++ "\n" ++ more) = depth source + depth more) ∧
    ∀ text, ReturnsFeed (Segment.cut text.toList) →
      (∃ unified, Unified text.toList unified.toList ∧ decode? text.toUTF8 = some unified ∧
        lex unified = lex text) ∧
      ∀ limit path s, ∃ outcome, evalText limit text s = Eval.noting s.events outcome ∧
        load limit path (.ok text.toUTF8) s =
          Eval.noting (.loading path :: s.events) outcome := by
  constructor
  · intro source more
    have hlex := lex_append_newline source more
    refine ⟨hlex, ?_⟩
    rw [depth_eq, depth_eq, depth_eq, hlex, opened_append]
  · intro text htext
    constructor
    · refine ⟨_, ?_, decode?_toUTF8 text, lex_unifyFrom htext⟩
      rw [String.toList_ofList]
      exact (unified_unifyFrom text.toList).1
    · intro limit path s
      refine ⟨evalText limit text ⟨s.heap, []⟩, blind_evalText limit text s.heap s.events, ?_⟩
      rw [load_toUTF8 htext]
      exact blind_evalText limit text s.heap _

/-- A text whose lines end in a pair after a comment, and in lone carriage
returns elsewhere. -/
def mixed : String :=
  "(def x 1) ; one (\r\n(+ x\r2)\r"

theorem returnsFeed_mixed : ReturnsFeed (Segment.cut mixed.toList) := by
  have hcut : Segment.cut mixed.toList =
      [.opening, .word "def".toList, .blanks [' '], .word ['x'], .blanks [' '], .word ['1'],
        .closing, .blanks [' '], .comment " one (\r".toList, .blanks ['\n'], .opening,
        .word ['+'], .blanks [' '], .word ['x'], .blanks ['\r'], .word ['2'], .closing,
        .blanks ['\r']] := by
    decide +kernel
  rw [hcut]
  simp [returnsFeed_cons, returnsFeed_nil, Segment.ReturnsFeed, Segment.chars,
    List.suffix_cons_iff]

/-- The text can be evaluated, and a file that holds it is loaded with the same
value and the same heap. -/
theorem line_ends_invisible_mixed :
    depth ("(a ; b" ++ "\n" ++ "c)") = depth "(a ; b" + depth "c)" ∧
    ReturnsFeed (Segment.cut mixed.toList) ∧
    (∃ unified, Unified mixed.toList unified.toList ∧ decode? mixed.toUTF8 = some unified ∧
      lex unified = lex mixed) ∧
    ∃ value t u, evalText 9 mixed initial = .ok value t ∧
      load 9 "mixed" (.ok mixed.toUTF8) initial = .ok value u ∧ u.heap = t.heap := by
  obtain ⟨cuts, unifies⟩ := line_ends_invisible
  obtain ⟨hunified, hloads⟩ := unifies mixed returnsFeed_mixed
  refine ⟨(cuts "(a ; b" "c)").2, returnsFeed_mixed, hunified, ?_⟩
  have hsucceeds : (evalText 9 mixed).succeeds initial = true := by decide +kernel
  obtain ⟨value, t, hvalue⟩ := Eval.exists_of_succeeds hsucceeds
  obtain ⟨outcome, htext, hload⟩ := hloads 9 "mixed" initial
  rw [hvalue] at htext
  cases outcome with
  | ok other w =>
    obtain ⟨rfl, rfl⟩ := EStateM.Result.ok.inj htext
    exact ⟨value, _, _, hvalue, hload, rfl⟩
  | error failure w => cases htext

/-- A carriage return alone does not end a comment; a line feed in its place
does. -/
example : lexChars ";a\rb".toList = [] ∧
    lexChars (unifyLineEnds ";a\rb".toList) = [.word "b"] := by
  decide +kernel

end Session

end PrototypeLisp
