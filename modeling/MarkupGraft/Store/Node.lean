import MarkupGraft.Store.Name

/-!
Nodes of the flat sequence that holds a document: an element comes first, then its attributes, then
its content, then the marker that ends it.
-/

namespace MarkupGraft

inductive Node where
  /-- The node that holds everything else. -/
  | document
  | element (name : Name)
  /-- Ends the innermost document or element that is open. -/
  | finish
  | attribute (name : Name) (value : String)
  | text (value : String)
  | comment (value : String)
  | instruction (value : String)
  | doctype (value : String)
  deriving DecidableEq, Repr, Inhabited

inductive NodeKind where
  | document
  | element
  | finish
  | attribute
  | text
  | comment
  | instruction
  | doctype
  deriving DecidableEq, Repr

namespace Node

def kind : Node → NodeKind
  | .document => .document
  | .element _ => .element
  | .finish => .finish
  | .attribute _ _ => .attribute
  | .text _ => .text
  | .comment _ => .comment
  | .instruction _ => .instruction
  | .doctype _ => .doctype

/-- Whether a marker ends the node. -/
def isContainer : Node → Bool
  | .document | .element _ => true
  | _ => false

def isElement : Node → Bool
  | .element _ => true
  | _ => false

def isAttribute : Node → Bool
  | .attribute _ _ => true
  | _ => false

def isFinish : Node → Bool
  | .finish => true
  | _ => false

/-- Whether the node is a child of the container it stands in. -/
def isChild : Node → Bool
  | .attribute _ _ | .finish => false
  | _ => true

/-- The name of an element or an attribute. -/
def name? : Node → Option Name
  | .element name | .attribute name _ => some name
  | _ => none

/-- The text of a leaf; a container has none of its own. -/
def value : Node → String
  | .attribute _ value | .text value | .comment value | .instruction value | .doctype value => value
  | .document | .element _ | .finish => ""

/-- The text of a leaf, or all text inside a container. -/
def stringValue (node : Node) (inside : List Node) : String :=
  if node.isContainer then
    "".intercalate <| inside.filterMap fun
      | .text value => some value
      | _ => none
  else node.value

/-- Gives a leaf another text. -/
def withValue (value : String) : Node → Node
  | .attribute name _ => .attribute name value
  | .text _ => .text value
  | .comment _ => .comment value
  | .instruction _ => .instruction value
  | .doctype _ => .doctype value
  | node => node

end Node

def NodeKind.label : NodeKind → String
  | .document => "Document"
  | .element => "Element"
  | .finish => "ElementEnd"
  | .attribute => "Attribute"
  | .text => "Text"
  | .comment => "Comment"
  | .instruction => "ProcessingInstruction"
  | .doctype => "Doctype"

end MarkupGraft
