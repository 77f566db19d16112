/-
PrototypeLisp.Scope.Basic — nested frames of bindings.

A frame binds names to values, in the order in which the names were first
bound, and may have an outer frame. `Scopes` holds all frames; a frame is
referred to by its number. An outer frame always has a smaller number than the
frames inside it, which is why walking outwards ends. The walk from a frame
outwards is its chain: a name resolves to the binding of the first frame on
the chain that has one.
-/

namespace PrototypeLisp

/-- Names with values, in the order in which the names were first bound. -/
abbrev Bindings (α : Type) := List (String × α)

namespace Bindings

variable {α : Type}

/-- The value of a name. -/
def get? (bindings : Bindings α) (name : String) : Option α :=
  bindings.lookup name

/-- Bind a name: a new name comes last, a bound one keeps its place. -/
def set (bindings : Bindings α) (name : String) (value : α) : Bindings α :=
  match bindings with
  | [] => [(name, value)]
  | (other, old) :: rest =>
    if other = name then (other, value) :: rest else (other, old) :: set rest name value

/-- Remove the binding of a name. -/
def remove (bindings : Bindings α) (name : String) : Bindings α :=
  bindings.filter fun binding => binding.1 != name

/-- The bound names, in order. -/
def names (bindings : Bindings α) : List String :=
  bindings.map Prod.fst

/-- The bindings of `inner` put over those of `outer`. -/
def overlay (outer inner : Bindings α) : Bindings α :=
  inner.foldl (fun bindings binding => bindings.set binding.1 binding.2) outer

/-- The bindings as text, in braces. -/
def text (render : α → String) (bindings : Bindings α) : String :=
  "\x7b" ++
    ", ".intercalate (bindings.map fun binding => binding.1 ++ ": " ++ render binding.2) ++
    "\x7d"

end Bindings

/-- The number of a frame. -/
abbrev FrameId := Nat

/-- Bindings of one block, call or object. -/
structure Frame (α : Type) where
  /-- The names bound in this frame. -/
  bindings : Bindings α
  /-- The frame around this one. -/
  outer : Option FrameId

/-- All frames, in the order of their creation. -/
structure Scopes (α : Type) where
  /-- The frames by their numbers. -/
  frames : Array (Frame α)
  /-- An outer frame is older than the frames inside it. -/
  outer_lt : ∀ (f : FrameId) (h : f < frames.size) (o : FrameId),
    frames[f].outer = some o → o < f

namespace Scopes

variable {α : Type}

/-- No frames. -/
def empty : Scopes α :=
  ⟨#[], fun _ h => absurd h (Nat.not_lt_zero _)⟩

/-- How many frames there are. -/
def size (s : Scopes α) : Nat :=
  s.frames.size

/-- The bindings of a frame itself; none for a frame that does not exist. -/
def bindings (s : Scopes α) (f : FrameId) : Bindings α :=
  match s.frames[f]? with
  | some frame => frame.bindings
  | none => []

/-- The frame around a frame. -/
def outer? (s : Scopes α) (f : FrameId) : Option FrameId :=
  s.frames[f]?.bind Frame.outer

/-- The frame around a frame is older. -/
theorem lt_of_outer? {s : Scopes α} {f o : FrameId} (h : s.outer? f = some o) : o < f := by
  simp only [outer?, Option.bind_eq_some_iff] at h
  obtain ⟨frame, hframe, ho⟩ := h
  obtain ⟨hlt, rfl⟩ := Array.getElem?_eq_some_iff.1 hframe
  exact s.outer_lt f hlt o ho

/-- A new frame inside `outer`, and its number. An `outer` that does not exist
counts as none. -/
def push (s : Scopes α) (outer : Option FrameId) : FrameId × Scopes α :=
  (s.size,
    { frames := s.frames.push ⟨[], outer.filter (· < s.size)⟩
      outer_lt := by
        intro f h o ho
        rw [Array.getElem_push] at ho
        split at ho
        · exact s.outer_lt f ‹_› o ho
        · simp only [Option.filter_eq_some_iff, size] at ho
          exact Nat.lt_of_lt_of_le (of_decide_eq_true ho.2) (Nat.le_of_not_lt ‹_›) })

/-- Replace the bindings of a frame. -/
def update (s : Scopes α) (f : FrameId) (change : Bindings α → Bindings α) : Scopes α where
  frames := s.frames.modify f fun frame => { frame with bindings := change frame.bindings }
  outer_lt := by
    intro g h o ho
    rw [Array.getElem_modify] at ho
    have hg : g < s.frames.size := by simpa using h
    split at ho <;> exact s.outer_lt g hg o ho

/-- Bind a name in a frame. -/
def define (s : Scopes α) (f : FrameId) (name : String) (value : α) : Scopes α :=
  s.update f (·.set name value)

/-- Bind several names in a frame, in order. -/
def defineAll (s : Scopes α) (f : FrameId) (bindings : Bindings α) : Scopes α :=
  bindings.foldl (fun s binding => s.define f binding.1 binding.2) s

/-- Remove the binding of a name from a frame. -/
def delete (s : Scopes α) (f : FrameId) (name : String) : Scopes α :=
  s.update f (·.remove name)

/-- The value of a name in the frame itself. -/
def own? (s : Scopes α) (f : FrameId) (name : String) : Option α :=
  (s.bindings f).get? name

/-- Is the name bound in the frame itself? -/
def contains (s : Scopes α) (f : FrameId) (name : String) : Bool :=
  (s.own? f name).isSome

/-- The frames from `f` outwards. -/
def chain (s : Scopes α) (f : FrameId) : List FrameId :=
  match _h : s.outer? f with
  | none => [f]
  | some o => f :: s.chain o
termination_by f
decreasing_by exact lt_of_outer? _h

/-- The nearest frame, from `f` outwards, that binds the name. -/
def find? (s : Scopes α) (f : FrameId) (name : String) : Option FrameId :=
  if s.contains f name then some f
  else
    match _h : s.outer? f with
    | none => none
    | some o => s.find? o name
termination_by f
decreasing_by exact lt_of_outer? _h

/-- The value that a name has in a frame: that of the nearest frame, going
outwards, that binds it. -/
def resolve? (s : Scopes α) (f : FrameId) (name : String) : Option α :=
  (s.find? f name).bind fun g => s.own? g name

/-- All names visible in a frame with their values. The names of the outermost
frame come first. -/
def snapshot (s : Scopes α) (f : FrameId) : Bindings α :=
  match _h : s.outer? f with
  | none => s.bindings f
  | some o => (s.snapshot o).overlay (s.bindings f)
termination_by f
decreasing_by exact lt_of_outer? _h

/-- The outermost frame around `f`. -/
def root (s : Scopes α) (f : FrameId) : FrameId :=
  match _h : s.outer? f with
  | none => f
  | some o => s.root o
termination_by f
decreasing_by exact lt_of_outer? _h

/-- A frame as text, with a mark that there is an outer one. -/
def frameText (render : α → String) (s : Scopes α) (f : FrameId) : String :=
  (s.bindings f).text render ++ if (s.outer? f).isSome then " -> ..." else ""

/-- A chain of frames as text. -/
def chainText (render : α → String) (s : Scopes α) (f : FrameId) : String :=
  "<Environment chain: " ++
    " -> ".intercalate ((s.chain f).map fun g => (s.bindings g).text render) ++ ">"

end Scopes

end PrototypeLisp
