/-
PrototypeLisp.Proofs.Repl.Chunks — the prompt loop chunk by chunk.

The loop joins lines until they leave no parenthesis open. `chunksFrom` cuts a
list of lines accordingly, without evaluating anything: into chunks that are
the shortest runs of lines that leave nothing open, and a tail that no such
run starts. `play` evaluates chunks as wholes; reading line by line does the
same (`run_eq_play`), up to the failure that ends the loop.
-/
import PrototypeLisp.Proofs.Token.Lines

namespace PrototypeLisp

/-- The log is made of the lines of events. -/
theorem Store.eq_of_mem_log {verbose : Bool} {s : Store} {text : String}
    (h : .err text ∈ s.log verbose) :
    verbose = true ∧ ∃ event : Event, text = event.line ++ "\n" := by
  unfold log at h
  split at h
  · rename_i hverbose
    obtain ⟨event, -, hevent⟩ := List.mem_map.1 h
    exact ⟨hverbose, event, by simpa using hevent.symm⟩
  · simp at h

/-- A turn with earlier output before its own. -/
def Turn.after (outputs : List Output) (turn : Turn) : Turn :=
  { turn with outputs := outputs ++ turn.outputs }

namespace Repl

/-! ## Chunks of lines -/

/-- Lines of which every run from the first one on leaves a parenthesis
open. -/
def Unfinished (lines : List String) : Prop :=
  ∀ run, run ≠ [] → run <+: lines → 0 < depth (String.join run)

/-- A run of lines that leaves no parenthesis open, when no shorter one from
its first line on does. -/
structure Shortest (chunk : List String) : Prop where
  nonempty : chunk ≠ []
  closed : depth (String.join chunk) ≤ 0
  shorter : ∀ run, run ≠ [] → run <+: chunk → run ≠ chunk → 0 < depth (String.join run)

/-- Cut lines into chunks and a tail, after the unfinished lines `pending`. -/
def chunksFrom (pending : List String) : List String → List (List String) × List String
  | [] => ([], pending)
  | line :: lines =>
    if 0 < depth (String.join (pending ++ [line])) then chunksFrom (pending ++ [line]) lines
    else
      let (chunks, tail) := chunksFrom [] lines
      ((pending ++ [line]) :: chunks, tail)

theorem chunksFrom_of_open {pending lines : List String} {line : String}
    (h : 0 < depth (String.join (pending ++ [line]))) :
    chunksFrom pending (line :: lines) = chunksFrom (pending ++ [line]) lines := by
  rw [chunksFrom, if_pos h]

theorem chunksFrom_of_closed {pending lines : List String} {line : String}
    (h : ¬ 0 < depth (String.join (pending ++ [line]))) :
    chunksFrom pending (line :: lines) =
      ((pending ++ [line]) :: (chunksFrom [] lines).1, (chunksFrom [] lines).2) := by
  rw [chunksFrom, if_neg h]

/-- The chunks and the tail are the lines. -/
theorem flatten_chunksFrom (pending lines : List String) :
    (chunksFrom pending lines).1.flatten ++ (chunksFrom pending lines).2 = pending ++ lines := by
  induction lines generalizing pending with
  | nil => simp [chunksFrom]
  | cons line lines ih =>
    by_cases h : 0 < depth (String.join (pending ++ [line]))
    · rw [chunksFrom_of_open h, ih]
      simp
    · rw [chunksFrom_of_closed h]
      simp only [List.flatten_cons, List.append_assoc, ih]
      simp

theorem unfinished_nil : Unfinished [] := by
  intro run hrun hprefix
  exact absurd (List.prefix_nil.1 hprefix) hrun

/-- One more line keeps lines unfinished if all of them together leave a
parenthesis open. -/
theorem unfinished_concat {pending : List String} {line : String} (hp : Unfinished pending)
    (h : 0 < depth (String.join (pending ++ [line]))) : Unfinished (pending ++ [line]) := by
  intro run hrun hprefix
  rcases List.prefix_concat_iff.1 hprefix with rfl | hprefix
  · exact h
  · exact hp run hrun hprefix

theorem shortest_concat {pending : List String} {line : String} (hp : Unfinished pending)
    (h : ¬ 0 < depth (String.join (pending ++ [line]))) : Shortest (pending ++ [line]) where
  nonempty := by simp
  closed := Int.not_lt.1 h
  shorter run hrun hprefix hne := by
    rcases List.prefix_concat_iff.1 hprefix with rfl | hprefix
    · exact absurd rfl hne
    · exact hp run hrun hprefix

theorem unfinished_chunksFrom {pending : List String} (hp : Unfinished pending)
    (lines : List String) : Unfinished (chunksFrom pending lines).2 := by
  induction lines generalizing pending with
  | nil => exact hp
  | cons line lines ih =>
    by_cases h : 0 < depth (String.join (pending ++ [line]))
    · rw [chunksFrom_of_open h]
      exact ih (unfinished_concat hp h)
    · rw [chunksFrom_of_closed h]
      exact ih unfinished_nil

theorem shortest_chunksFrom {pending : List String} (hp : Unfinished pending)
    (lines : List String) : ∀ chunk ∈ (chunksFrom pending lines).1, Shortest chunk := by
  induction lines generalizing pending with
  | nil => simp [chunksFrom]
  | cons line lines ih =>
    by_cases h : 0 < depth (String.join (pending ++ [line]))
    · rw [chunksFrom_of_open h]
      exact ih (unfinished_concat hp h)
    · rw [chunksFrom_of_closed h]
      intro chunk hchunk
      rcases List.mem_cons.1 hchunk with rfl | hchunk
      · exact shortest_concat hp h
      · exact ih unfinished_nil chunk hchunk

/-- Unfinished lines have no chunk among them. -/
theorem chunksFrom_of_unfinished {pending lines : List String}
    (h : Unfinished (pending ++ lines)) : chunksFrom pending lines = ([], pending ++ lines) := by
  induction lines generalizing pending with
  | nil => simp [chunksFrom]
  | cons line lines ih =>
    have hassoc : pending ++ line :: lines = (pending ++ [line]) ++ lines := by simp
    rw [hassoc] at h ⊢
    have hopen := h (pending ++ [line]) (by simp) (List.prefix_append _ _)
    rw [chunksFrom_of_open hopen, ih h]

/-- A chunk at the front of the lines is found. -/
theorem chunksFrom_of_shortest {pending rest : List String} (hrest : rest ≠ [])
    (h : Shortest (pending ++ rest)) (lines : List String) :
    chunksFrom pending (rest ++ lines) =
      ((pending ++ rest) :: (chunksFrom [] lines).1, (chunksFrom [] lines).2) := by
  induction rest generalizing pending with
  | nil => exact absurd rfl hrest
  | cons line rest ih =>
    have hassoc : pending ++ line :: rest = (pending ++ [line]) ++ rest := by simp
    rw [hassoc] at h ⊢
    rw [List.cons_append]
    by_cases hend : rest = []
    · subst hend
      simp only [List.append_nil, List.nil_append] at h ⊢
      exact chunksFrom_of_closed (Int.not_lt.2 h.closed)
    · have hopen :=
        h.shorter (pending ++ [line]) (by simp) (List.prefix_append _ _) (by simp [hend])
      rw [chunksFrom_of_open hopen, ih hend h]

/-- There is only one way to cut lines into shortest chunks and an unfinished
tail. -/
theorem chunksFrom_eq {chunks : List (List String)} {tail : List String}
    (hchunks : ∀ chunk ∈ chunks, Shortest chunk) (htail : Unfinished tail) :
    chunksFrom [] (chunks.flatten ++ tail) = (chunks, tail) := by
  induction chunks with
  | nil => exact chunksFrom_of_unfinished htail
  | cons chunk chunks ih =>
    have hfirst := hchunks chunk (by simp)
    have hrest := ih fun other hother => hchunks other (List.mem_cons_of_mem _ hother)
    rw [List.flatten_cons, List.append_assoc,
      chunksFrom_of_shortest hfirst.nonempty (by simpa using hfirst), hrest]
    simp

/-! ## Playing chunks -/

/-- The prompts shown before the lines of a chunk. -/
def prompts : List String → List Output
  | [] => []
  | _ :: lines => .out "> " :: lines.map fun _ => .out ". "

theorem err_not_mem_prompts (text : String) (chunk : List String) :
    .err text ∉ prompts chunk := by
  cases chunk <;> simp [prompts]

/-- Is there nothing but blanks in the lines? -/
def Blank (chunk : List String) : Prop :=
  (String.join chunk).toList.all Text.isBlank = true

instance (chunk : List String) : Decidable (Blank chunk) :=
  inferInstanceAs (Decidable (_ = true))

/-- Evaluate a chunk as one text, or skip it if it is blank. -/
def playChunk (limit : Nat) (verbose : Bool) (store : Store) (chunk : List String) : Turn :=
  Turn.after (prompts chunk)
    (if Blank chunk then ⟨[], ⟨store, ""⟩, none⟩
    else submit limit verbose store (String.join chunk))

/-- Play chunks until a failure ends the loop; the tail is left pending at the
end. -/
def play (limit : Nat) (verbose : Bool) (tail : List String) (store : Store) :
    List (List String) → Turn
  | [] =>
    Turn.after (prompts tail)
      ⟨[.out (prompt ⟨store, String.join tail⟩), .out "\n"], ⟨store, String.join tail⟩, none⟩
  | chunk :: chunks =>
    let turn := playChunk limit verbose store chunk
    match turn.raised with
    | some _ => turn
    | none => (play limit verbose tail turn.next.store chunks).after turn.outputs

/-- The prompt after unfinished lines tells whether there are any. -/
theorem prompt_pending {pending : List String} (hp : Unfinished pending) (store : Store) :
    prompt ⟨store, String.join pending⟩ = if pending = [] then "> " else ". " := by
  unfold prompt
  by_cases h : pending = []
  · simp [h]
  · have hopen := hp pending h (List.prefix_refl _)
    have hne : String.join pending ≠ "" := by
      intro hempty
      rw [hempty] at hopen
      exact absurd hopen (by decide)
    simp [h, hne]

theorem prompts_concat {pending : List String} (hp : Unfinished pending) (store : Store)
    (line : String) : prompts (pending ++ [line]) =
      prompts pending ++ [.out (prompt ⟨store, String.join pending⟩)] := by
  rw [prompt_pending hp]
  cases pending with
  | nil => rfl
  | cons first rest => simp [prompts]

/-- Nothing is pending after a chunk. -/
theorem pending_playChunk (limit : Nat) (verbose : Bool) (store : Store) (chunk : List String) :
    (playChunk limit verbose store chunk).next.pending = "" := by
  unfold playChunk Turn.after submit
  split
  · rfl
  · split
    · rfl
    · split <;> rfl

/-- A line that finishes a chunk plays the chunk. -/
theorem feed_of_closed {pending : List String} {line : String}
    (h : ¬ 0 < depth (String.join (pending ++ [line]))) (hp : Unfinished pending) (limit : Nat)
    (verbose : Bool) (store : Store) :
    Turn.after (prompts pending ++ [.out (prompt ⟨store, String.join pending⟩)])
      (feed limit verbose ⟨store, String.join pending⟩ line) =
      playChunk limit verbose store (pending ++ [line]) := by
  have hsource : String.join pending ++ line = String.join (pending ++ [line]) := by simp
  rw [playChunk, prompts_concat hp store]
  unfold feed Blank
  simp only [hsource]
  rw [if_neg h]
  rfl

/-- Reading line by line plays the chunks of the lines. -/
theorem run_eq_play {pending : List String} (hp : Unfinished pending) (limit : Nat)
    (verbose : Bool) (store : Store) (lines : List String) :
    Turn.after (prompts pending) (run limit verbose ⟨store, String.join pending⟩ lines) =
      play limit verbose (chunksFrom pending lines).2 store (chunksFrom pending lines).1 := by
  induction lines generalizing pending store with
  | nil => rfl
  | cons line lines ih =>
    by_cases h : 0 < depth (String.join (pending ++ [line]))
    · have hsource : String.join pending ++ line = String.join (pending ++ [line]) := by simp
      have hfeed : feed limit verbose ⟨store, String.join pending⟩ line =
          ⟨[], ⟨store, String.join (pending ++ [line])⟩, none⟩ := by
        unfold feed
        simp only [hsource]
        rw [if_pos h]
      rw [chunksFrom_of_open h, ← ih (unfinished_concat hp h), prompts_concat hp store, run, hfeed]
      simp [Turn.after]
    · have hfeed := feed_of_closed h hp limit verbose store
      have hpending := pending_playChunk limit verbose store (pending ++ [line])
      rw [← hfeed] at hpending
      rw [chunksFrom_of_closed h, play, ← hfeed, run]
      cases hturn : feed limit verbose ⟨store, String.join pending⟩ line with
      | mk outputs next raised =>
        rw [hturn] at hpending
        obtain ⟨nextStore, nextPending⟩ := next
        obtain rfl : nextPending = "" := hpending
        cases raised with
        | some failure => simp [Turn.after]
        | none =>
          have hrest := ih unfinished_nil nextStore
          simp only [prompts, String.join_nil] at hrest
          simp only [Turn.after, ← hrest]
          simp

/-- Lines cut into shortest chunks and an unfinished tail are played as they
are cut. -/
theorem run_flatten {chunks : List (List String)} {tail : List String}
    (hchunks : ∀ chunk ∈ chunks, Shortest chunk) (htail : Unfinished tail) (limit : Nat)
    (verbose : Bool) (store : Store) :
    run limit verbose ⟨store, ""⟩ (chunks.flatten ++ tail) =
      play limit verbose tail store chunks := by
  have hplay := run_eq_play unfinished_nil limit verbose store (chunks.flatten ++ tail)
  rw [chunksFrom_eq hchunks htail] at hplay
  exact hplay

/-- The chunk whose failure ends the loop is the last one that matters. -/
theorem play_of_raised {limit : Nat} {verbose : Bool} {tail : List String} {store : Store}
    {chunks : List (List String)} {failure : Failure}
    (h : (play limit verbose tail store chunks).raised = some failure) :
    ∃ before chunk after, chunks = before ++ chunk :: after ∧
      play limit verbose [] store (before ++ [chunk]) = play limit verbose tail store chunks := by
  induction chunks generalizing store with
  | nil => simp [play, Turn.after] at h
  | cons chunk chunks ih =>
    cases hturn : (playChunk limit verbose store chunk).raised with
    | some failure' => exact ⟨[], chunk, chunks, rfl, by simp [play, hturn]⟩
    | none =>
      have hrest : (play limit verbose tail (playChunk limit verbose store chunk).next.store
          chunks).raised = some failure := by
        simpa [play, hturn, Turn.after] using h
      obtain ⟨before, last, after, rfl, hplay⟩ := ih hrest
      exact ⟨chunk :: before, last, after, rfl, by simp [play, hturn, hplay]⟩

end Repl

end PrototypeLisp
