import MarkupGraft.Query.Expression

/-!
Trees as queries see them. Nodes are numbers in document order: an element comes before its
attributes, and these before its children. Walks go to greater numbers downward and to smaller ones
upward.
-/

namespace MarkupGraft.Query

inductive NodeType where
  | root
  | element
  | attribute
  | text
  | comment
  | instruction
  deriving DecidableEq, Repr

/-- The last part of a name, with the namespace if there is one. -/
structure NodeName where
  space? : Option String
  base : String
  deriving DecidableEq, Repr

structure View where
  /-- All nodes are smaller. -/
  size : Nat
  type : Nat → NodeType
  /-- The name of an element or attribute, or the target of a processing instruction. -/
  name? : Nat → Option NodeName
  stringValue : Nat → String
  attributes : Nat → List Nat
  children : Nat → List Nat
  parent? : Nat → Option Nat

namespace View
variable (v : View)

/-- Everything inside a node, attributes apart, in document order. -/
def descendants (n : Nat) : List Nat :=
  (v.children n).flatMap fun c => if n < c ∧ c < v.size then c :: descendants c else []
termination_by v.size - n

/-- The nodes around a node, innermost first. -/
def ancestors (n : Nat) : List Nat :=
  match v.parent? n with
  | some p => if p < n then p :: ancestors p else []
  | none => []
termination_by n

def root (n : Nat) : Nat := (v.ancestors n).getLast?.getD n

/-- The siblings before and after a node. An attribute has none. -/
def siblings (n : Nat) : List Nat × List Nat :=
  match v.type n, v.parent? n with
  | .attribute, _ | _, none => ([], [])
  | _, some p =>
    let all := v.children p
    if all.contains n then
      let before := all.takeWhile (· ≠ n)
      (before, all.drop (before.length + 1))
    else ([], [])

def followingSiblings (n : Nat) : List Nat := (v.siblings n).2

/-- The nearest sibling first. -/
def precedingSiblings (n : Nat) : List Nat := (v.siblings n).1.reverse

def withDescendants (n : Nat) : List Nat := n :: v.descendants n

/-- The nodes on an axis: in document order, or nearest first on a reverse axis. -/
def collect (axis : Axis) (n : Nat) : List Nat :=
  match axis with
  | .child => v.children n
  | .attribute => v.attributes n
  | .self => [n]
  | .parent => (v.parent? n).toList
  | .descendant => v.descendants n
  | .descendantOrSelf => v.withDescendants n
  | .ancestor => v.ancestors n
  | .ancestorOrSelf => n :: v.ancestors n
  | .followingSibling => v.followingSiblings n
  | .precedingSibling => v.precedingSiblings n
  | .following =>
    (n :: v.ancestors n).flatMap fun a => (v.followingSiblings a).flatMap v.withDescendants
  | .preceding =>
    (n :: v.ancestors n).flatMap fun a =>
      (v.precedingSiblings a).flatMap fun s => (v.withDescendants s).reverse

/-- Whether a node on an axis passes a test. Names are tested on attributes along the attribute axis
and on elements along the others. -/
def passes (axis : Axis) (test : NodeTest) (n : Nat) : Bool :=
  let principal := if axis = .attribute then NodeType.attribute else .element
  match test with
  | .any => v.type n = principal
  | .name base => v.type n = principal && (v.name? n).any (·.base = base)
  | .node => true
  | .text => v.type n = .text
  | .comment => v.type n = .comment
  | .instruction => v.type n = .instruction

end View
end MarkupGraft.Query
