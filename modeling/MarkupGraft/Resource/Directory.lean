import MarkupGraft.Resource.Error
import MarkupGraft.Resource.FileTree

/-!
Documents in files. Paths are meant from a base directory; they may lead out of it, unless the
documents are confined to it.
-/

namespace MarkupGraft

def ResourceError.ofFileError (path : String) : FileError → ResourceError
  | .notFound => .notFound path
  | e => .unreadable path e.message

/-- The document at a path meant from `base`, where `read` gives the files of rooted paths. -/
def loadUnder (read : String → Except FileError Bytes) (base path : String) :
    Except ResourceError Bytes :=
  (read (Path.under base path)).mapError (.ofFileError path)

structure Directory where
  tree : FileTree
  base : String
  /-- Whether documents outside of the base are refused. -/
  confined : Bool

namespace Directory
variable (d : Directory)

/-- Whether names lead to the base or to a place below it. -/
def encloses (names : List String) : Bool :=
  match d.tree.canonical d.base with
  | .ok base => base.isPrefixOf names
  | .error _ => false

/-- What is read at a path, unless it is refused. A path that leads nowhere is refused if it goes up
anywhere. -/
def read? (path : String) : Option (Except FileError Bytes) :=
  let place := Path.under d.base path
  if !d.confined then some (d.tree.read place)
  else if Path.isRooted path then none
  else
    match d.tree.canonical place with
    | .ok names => if d.encloses names then some (d.tree.readAt names) else none
    | .error _ => if (Path.segments path).contains ".." then none else some (d.tree.read place)

def load (path : String) : Except ResourceError Bytes :=
  match d.read? path with
  | some result => result.mapError (.ofFileError path)
  | none => .error (.notFound (s!"{path} (outside " ++ d.base ++ ")"))

/-- Whether a path leads to a document. -/
def contains (path : String) : Bool := (d.read? path).any Except.isOk

end Directory
end MarkupGraft
