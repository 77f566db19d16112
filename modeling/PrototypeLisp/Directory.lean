/-
PrototypeLisp.Directory — a working directory with known contents.

A directory is given by its files, each with the components of its path; the
directories on the way to a file exist because the file does. Reading a path
walks its components. Nothing is known of what lies above the working
directory except that it consists of directories.
-/
import PrototypeLisp.Error
import PrototypeLisp.Path

namespace PrototypeLisp

/-- The files below a working directory. -/
structure Directory where
  files : List (List String × ByteArray)

namespace Directory

/-- A directory on the way to a file. -/
inductive Place where
  /-- Somewhere above the working directory. -/
  | above
  /-- Below the working directory. -/
  | inside (components : List String)

/-- The directory that contains a place. -/
def Place.parent : Place → Place
  | .above => .above
  | .inside [] => .above
  | .inside components => .inside components.dropLast

/-- Is there a file below these components? -/
def isOnTheWay (d : Directory) (components : List String) : Bool :=
  d.files.any fun file => components.isPrefixOf file.1

/-- Read the file that the components lead to from a place. -/
def readFrom (d : Directory) : Place → List String → Except FileFault ByteArray
  | _, [] => .error .isADirectory
  | place, name :: rest =>
    if name = ".." then d.readFrom place.parent rest
    else
      match place with
      | .above => .error .missing
      | .inside components =>
        let here := components ++ [name]
        match d.files.lookup here with
        | some bytes => if rest = [] then .ok bytes else .error .notADirectory
        | none =>
          if d.isOnTheWay here then d.readFrom (.inside here) rest else .error .missing

/-- Read the file at a path. -/
def read (d : Directory) (p : Path) : Except FileFault ByteArray :=
  match p.root with
  | .relative => d.readFrom (.inside []) p.components
  | _ => d.readFrom .above p.components

end Directory

end PrototypeLisp
