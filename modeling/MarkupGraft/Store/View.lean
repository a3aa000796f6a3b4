import MarkupGraft.Text.Blank
import MarkupGraft.Query.Evaluation
import MarkupGraft.Store.Document

/-!
Documents as queries see them. A document type declaration is nobody's child, and counts as a
comment where a query begins at one.
-/

namespace MarkupGraft

/-- The first word of a processing instruction. -/
def instructionTarget (value : String) : String := (Text.words value).headD ""

namespace Node

def isDoctype : Node → Bool
  | .doctype _ => true
  | _ => false

def queryType : Node → Query.NodeType
  | .document => .root
  | .element _ | .finish => .element
  | .attribute _ _ => .attribute
  | .text _ => .text
  | .comment _ | .doctype _ => .comment
  | .instruction _ => .instruction

def queryName? : Node → Option Query.NodeName
  | .element name | .attribute name _ =>
    some ⟨if name.space = "" then none else some name.space, name.base⟩
  | .instruction value => some ⟨none, instructionTarget value⟩
  | _ => none

end Node

/-- The positions from `position` on that hold attributes, up to the first one that does not. -/
def attributeRun (nodes : Array Node) (position : Nat) : List Nat :=
  match _h : nodes[position]? with
  | some (.attribute _ _) => position :: attributeRun nodes (position + 1)
  | _ => []
termination_by nodes.size - position
decreasing_by
  have := (Array.getElem?_eq_some_iff.mp _h).1
  omega

namespace Document

/-- The nodes and their places are looked up in arrays, since a query asks for many of them. -/
def view (d : Document) : Query.View :=
  let nodes := d.nodes.toArray
  let places := d.outline.toArray
  let node (n : Nat) : Node := nodes.getD n default
  let place (n : Nat) : Place := places.getD n ⟨none, n, []⟩
  { size := d.length
    type := fun n => (node n).queryType
    name? := fun n => (node n).queryName?
    stringValue := fun n =>
      (node n).stringValue (nodes.extract (n + 1) (place n).last).toList
    attributes := fun n => if (node n).isElement then attributeRun nodes (n + 1) else []
    children := fun n => (place n).children.filter fun c => !(node c).isDoctype
    parent? := fun n => (place n).parent? }

/-- The node at which queries begin: the document element, or the document without one. -/
def contextNode (d : Document) : Nat := d.documentElement?.getD 0

end Document
end MarkupGraft
