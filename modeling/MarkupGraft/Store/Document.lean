import MarkupGraft.Markup.Mode
import MarkupGraft.Store.Fragment
import MarkupGraft.Store.Outline
import MarkupGraft.Store.Tree

/-!
Documents: a flat sequence of nodes, each with an identity that it keeps while others come and go.
A handle names a node of one document by its identity.
-/

namespace MarkupGraft

/-- A stable reference to a node of one document. -/
structure Handle where
  document : Nat
  ident : Nat
  deriving DecidableEq, Repr, Inhabited

/-- A node with its identity. -/
structure Entry where
  node : Node
  ident : Nat
  deriving DecidableEq, Repr, Inhabited

/-- The first entry is the document node and the last one its end marker. -/
structure Document where
  id : Nat
  mode : Markup.Mode
  entries : List Entry
  /-- All identities handed out so far are smaller. -/
  nextIdent : Nat
  /-- Bindings that a detached copy takes from the place it was cut out of. -/
  inherited : Scope

inductive Operation where
  | replaceChildren
  | setText
  | insertBefore
  | insertAfter
  | remove
  | extract
  deriving DecidableEq, Repr

inductive StoreError where
  | invalidKind (operation : Operation) (kind : NodeKind)
  | staleHandle
  deriving DecidableEq, Repr

def Operation.label : Operation → String
  | .replaceChildren => "replace_children"
  | .setText => "set_text"
  | .insertBefore => "insert_before"
  | .insertAfter => "insert_after"
  | .remove => "remove"
  | .extract => "extract"

def StoreError.message : StoreError → String
  | .invalidKind operation kind => s!"{operation.label} is not supported on {kind.label} nodes"
  | .staleHandle => "stale node handle"

namespace Document

/-- A document of a complete sequence, with fresh identities. -/
def ofNodes (id : Nat) (mode : Markup.Mode) (nodes : List Node) : Document where
  id
  mode
  entries := nodes.zipIdx.map fun (node, ident) => ⟨node, ident⟩
  nextIdent := nodes.length
  inherited := {}

/-- A document that holds a fragment, under the bindings it was cut out under. -/
def ofFragment (id : Nat) (f : Fragment) : Document :=
  { ofNodes id .xml (.document :: f.nodes ++ [.finish]) with inherited := f.scope }

def empty (id : Nat) : Document := ofFragment id {}

def ofText (id : Nat) (text : String) : Document := ofFragment id (.ofText text)

variable (d : Document)

def nodes : List Node := d.entries.map (·.node)

/-- A copy whose nodes have identities of their own. -/
def copy (id : Nat) : Document := { ofNodes id d.mode d.nodes with inherited := d.inherited }

def length : Nat := d.entries.length

/-- Whether there is nothing but the document node. -/
def isEmpty : Bool := d.length ≤ 2

/-! Positions -/

def outline : List Place := Outline.ofNodes d.nodes

def node (position : Nat) : Node := d.nodes.getD position default

def place (position : Nat) : Place := d.outline.getD position ⟨none, position, []⟩

def parent? (position : Nat) : Option Nat := (d.place position).parent?

/-- The position of the end marker for a container, and `position` otherwise. -/
def last (position : Nat) : Nat := (d.place position).last

/-- The children of a node; attributes are none. -/
def children (position : Nat) : List Nat := (d.place position).children

/-- The first position behind the attributes of a container. -/
def contentStart (position : Nat) : Nat :=
  position + 1 + ((d.nodes.drop (position + 1)).takeWhile Node.isAttribute).length

def attributes (position : Nat) : List Nat :=
  if (d.node position).isElement then
    (List.range (d.contentStart position)).drop (position + 1)
  else []

/-- The nodes from `start` up to, not including, `stop`. -/
def slice (start stop : Nat) : List Node := (d.nodes.take stop).drop start

/-- The node with all that belongs to it. -/
def extent (position : Nat) : List Node := d.slice position (d.last position + 1)

/-- All text inside a container, or the text of a leaf. -/
def stringValue (position : Nat) : String :=
  (d.node position).stringValue (d.slice (position + 1) (d.last position))

/-- The open containers around a position, innermost first. -/
def ancestors (position : Nat) : List Nat :=
  match d.parent? position with
  | some p => if p < position then p :: ancestors p else []
  | none => []
termination_by position

/-- Adds the bindings that the element at a position declares. -/
def declare (s : Scope) (position : Nat) : Scope :=
  (d.attributes position).foldl (fun s p =>
    match d.node p with
    | .attribute name value =>
      match name.declares? with
      | some mark => s.insert mark value
      | none => s
    | _ => s) s

/-- The bindings in scope inside the node at a position. -/
def scopeAt (position : Nat) : Scope :=
  (position :: d.ancestors position).reverse.foldl
    (fun s p => if (d.node p).isElement then d.declare s p else s)
    (Scope.base.override d.inherited)

/-! Handles -/

def handleAt (position : Nat) : Handle :=
  ⟨d.id, (d.entries.getD position default).ident⟩

def root : Handle := d.handleAt 0

/-- The position of the node that a handle names. -/
def locate? (h : Handle) : Option Nat :=
  if h.document = d.id then d.entries.findIdx? (·.ident = h.ident) else none

def locate (h : Handle) : Except StoreError Nat :=
  match d.locate? h with
  | some position => .ok position
  | none => .error .staleHandle

/-- Whether a handle names a node of this document. -/
def contains (h : Handle) : Bool := (d.locate? h).isSome

/-- The position of the only element that stands at the top, if there is exactly one. -/
def documentElement? : Option Nat :=
  match (d.children 0).filter fun p => (d.node p).isElement with
  | [p] => some p
  | _ => none

/-- The value of the attribute without a prefix that has the given name. -/
def attribute? (position : Nat) (base : String) : Option String :=
  (d.attributes position).findSome? fun p =>
    match d.node p with
    | .attribute name value => if name = Name.plain base then some value else none
    | _ => none

end Document
end MarkupGraft
