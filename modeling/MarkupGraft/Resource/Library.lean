import MarkupGraft.Resource.Error
import MarkupGraft.Text.Utf8

/-! Documents held in memory, under the exact paths by which they are asked for. -/

namespace MarkupGraft

structure Library where
  /-- Each path once. -/
  documents : List (String × Bytes) := []

namespace Library

def erase (l : Library) (path : String) : Library := ⟨l.documents.filter fun d => d.1 ≠ path⟩

/-- Adds a document; it takes the place of one with the same path. -/
def insert (l : Library) (path : String) (data : Bytes) : Library :=
  ⟨(path, data) :: (l.erase path).documents⟩

def ofList (documents : List (String × Bytes)) : Library :=
  documents.foldl (fun l (path, data) => l.insert path data) {}

def get? (l : Library) (path : String) : Option Bytes := l.documents.lookup path

def contains (l : Library) (path : String) : Bool := (l.get? path).isSome

def size (l : Library) : Nat := l.documents.length

def isEmpty (l : Library) : Bool := l.documents.isEmpty

def load (l : Library) (path : String) : Except ResourceError Bytes :=
  match l.get? path with
  | some data => .ok data
  | none => .error (.notFound path)

end Library
end MarkupGraft
