/-
PrototypeLisp.Path — file paths in normal form.

A path is a root, which may be empty, and components. Empty components and
single dots mean nothing and are left out; a double dot is kept, because what
it leads to depends on the file system. Exactly two leading slashes are a root
of their own.
-/

namespace PrototypeLisp

/-- Where a path starts. -/
inductive Path.Root where
  /-- At the working directory. -/
  | relative
  /-- At the root directory. -/
  | slash
  /-- At the root that two slashes stand for. -/
  | doubleSlash
deriving DecidableEq

/-- A file path. -/
structure Path where
  root : Path.Root
  components : List String
deriving DecidableEq

namespace Path

/-- Where a text that spells a path starts. -/
def rootOf : List Char → Root
  | '/' :: '/' :: '/' :: _ => .slash
  | '/' :: '/' :: _ => .doubleSlash
  | '/' :: _ => .slash
  | _ => .relative

/-- The path that a text spells. -/
def ofText (text : String) : Path :=
  ⟨rootOf text.toList, (text.splitOn "/").filter fun part => part ≠ "" ∧ part ≠ "."⟩

/-- The text of a root. -/
def Root.text : Root → String
  | .relative => ""
  | .slash => "/"
  | .doubleSlash => "//"

/-- The text of a path; a dot when there is nothing else to write. -/
def text (p : Path) : String :=
  match p.root, p.components with
  | .relative, [] => "."
  | root, components => root.text ++ "/".intercalate components

end Path

end PrototypeLisp
