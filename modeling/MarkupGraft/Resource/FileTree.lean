import MarkupGraft.Link.Path
import MarkupGraft.Text.Utf8

/-!
Files in directories, and the way a path leads through them: segment by segment, where each has to
be found in a directory before the next one counts.
-/

namespace MarkupGraft

inductive FileError where
  | notFound
  | isDirectory
  | notDirectory
  | nameTooLong
  | nameWithNul
  /-- Any other reason that the system gives. -/
  | other (reason : String)
  deriving DecidableEq, Repr

def FileError.message : FileError → String
  | .notFound => "No such file or directory (os error 2)"
  | .isDirectory => "Is a directory (os error 21)"
  | .notDirectory => "Not a directory (os error 20)"
  | .nameTooLong => "File name too long (os error 36)"
  | .nameWithNul => "file name contained an unexpected NUL byte"
  | .other reason => reason

inductive FileTree where
  | file (data : Bytes)
  | directory (entries : List (String × FileTree))

namespace FileTree

def empty : FileTree := .directory []

/-- What names lead to, one inside the other. -/
def find? : FileTree → List String → Option FileTree
  | tree, [] => some tree
  | .file _, _ :: _ => none
  | .directory entries, name :: names => (entries.lookup name).bind fun tree => tree.find? names

/-- Puts a tree where names lead, through directories that are made where there are none. -/
def insert (tree : FileTree) (names : List String) (content : FileTree) : FileTree :=
  match names with
  | [] => content
  | name :: names =>
    let entries :=
      match tree with
      | .directory entries => entries
      | .file _ => []
    let inner := ((entries.lookup name).getD empty).insert names content
    .directory ((name, inner) :: entries.filter fun e => e.1 ≠ name)

variable (t : FileTree)

/-- Goes from a place, given by its names with the innermost first, along one segment. A name has at
most 255 bytes. -/
def follow (place : List String) (segment : String) : Except FileError (List String) :=
  match t.find? place.reverse with
  | none => .error .notFound
  | some (.file _) => .error .notDirectory
  | some (.directory entries) =>
    if Path.isIdle segment then .ok place
    else if segment = ".." then .ok place.tail
    else if 255 < segment.utf8ByteSize then .error .nameTooLong
    else if (entries.lookup segment).isSome then .ok (segment :: place)
    else .error .notFound

/-- The names by which the place at the end of a rooted path is reached from the top. -/
def canonical (path : String) : Except FileError (List String) :=
  if path.toList.contains '\x00' then .error .nameWithNul
  else ((Path.segments path).foldlM t.follow []).map List.reverse

def readAt (names : List String) : Except FileError Bytes :=
  match t.find? names with
  | some (.file data) => .ok data
  | some (.directory _) => .error .isDirectory
  | none => .error .notFound

/-- The file at the end of a rooted path, which has to have less than 4096 bytes. -/
def read (path : String) : Except FileError Bytes := do
  if path.toList.contains '\x00' then throw .nameWithNul
  if 4096 ≤ path.utf8ByteSize then throw .nameTooLong
  t.readAt (← t.canonical path)

/-- Goes from one directory to another. -/
def enter (cwd path : String) : Except FileError String := do
  if path = "" then throw .notFound
  if 4096 ≤ path.utf8ByteSize then throw .nameTooLong
  let names ← t.canonical (Path.under cwd path)
  match t.find? names with
  | some (.directory _) => pure (Path.ofSegments true names)
  | some (.file _) => throw .notDirectory
  | none => throw .notFound

end FileTree
end MarkupGraft
