import MarkupGraft.Store.Node

/-!
The ordered tree that a flat sequence of nodes stands for. The sequence is read from its end: there
every end marker comes before what it ends.
-/

namespace MarkupGraft

inductive Tree where
  | element (name : Name) (attributes : List (Name × String)) (children : List Tree)
  | text (value : String)
  | comment (value : String)
  | instruction (value : String)
  | doctype (value : String)
  deriving Repr, Inhabited

namespace Tree

/-- What has been read of the inside of a container. -/
structure Inside where
  attributes : List (Name × String) := []
  children : List Tree := []

def Inside.addChild (i : Inside) (child : Tree) : Inside :=
  { i with children := child :: i.children }

def Inside.addAttribute (i : Inside) (name : Name) (value : String) : Inside :=
  { i with attributes := (name, value) :: i.attributes }

/-- The innermost inside, which is empty when nothing is open. -/
def innermost : List Inside → Inside
  | [] => {}
  | i :: _ => i

/-- Changes the innermost inside. -/
def modifyInnermost (f : Inside → Inside) (opened : List Inside) : List Inside :=
  f (innermost opened) :: opened.tail

/-- Takes a node in front of what has been read. The document node is no part of a tree. -/
def prepend (node : Node) (opened : List Inside) : List Inside :=
  match node with
  | .finish => {} :: opened
  | .element name =>
    let inside := innermost opened
    modifyInnermost (·.addChild (.element name inside.attributes inside.children)) opened.tail
  | .attribute name value => modifyInnermost (·.addAttribute name value) opened
  | .text value => modifyInnermost (·.addChild (.text value)) opened
  | .comment value => modifyInnermost (·.addChild (.comment value)) opened
  | .instruction value => modifyInnermost (·.addChild (.instruction value)) opened
  | .doctype value => modifyInnermost (·.addChild (.doctype value)) opened
  | .document => opened

/-- The insides that are open in front of a sequence, innermost first. -/
def insides (nodes : List Node) : List Inside := nodes.foldr prepend []

/-- The trees of a balanced run of nodes. -/
def forest (nodes : List Node) : List Tree := (innermost (insides nodes)).children

end Tree
end MarkupGraft
