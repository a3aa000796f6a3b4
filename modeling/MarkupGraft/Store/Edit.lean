import MarkupGraft.Store.Document

/-!
Structural edits. Each replaces a range of positions, so the handles of the nodes outside the range
keep naming their nodes. Identities are never used twice.
-/

namespace MarkupGraft.Document

/-- Numbers nodes that come into a document. -/
def identify (next : Nat) (nodes : List Node) : List Entry :=
  nodes.zipIdx.map fun (node, i) => ⟨node, next + i⟩

/-- Puts a fragment in the place of the positions from `start` up to `stop`, inside the container at
`parent`. -/
def splice (d : Document) (start stop : Nat) (f : Fragment) (parent : Nat) : Document :=
  let nodes := if f.isEmpty then [] else f.placedUnder (d.scopeAt parent)
  { d with
    entries := d.entries.take start ++ identify d.nextIdent nodes ++ d.entries.drop stop
    nextIdent := d.nextIdent + nodes.length }

/-- Puts a fragment in the place of a container's children. Its attributes stay. -/
def replaceChildren (d : Document) (target : Handle) (f : Fragment) :
    Except StoreError Document := do
  let position ← d.locate target
  if (d.node position).isContainer then
    pure (d.splice (d.contentStart position) (d.last position) f position)
  else throw (.invalidKind .replaceChildren (d.node position).kind)

/-- Gives the node at a position another text. -/
def setValue (d : Document) (position : Nat) (text : String) : Document :=
  { d with entries := d.entries.modify position fun e => { e with node := e.node.withValue text } }

/-- Gives a leaf another text, and a container a single text child, or none when the text is
empty. -/
def setText (d : Document) (target : Handle) (text : String) : Except StoreError Document := do
  let position ← d.locate target
  match d.node position with
  | .document | .element _ => d.replaceChildren target (if text = "" then {} else .ofText text)
  | .finish => throw (.invalidKind .setText .finish)
  | _ => pure (d.setValue position text)

/-- The position of a node that can have siblings. -/
def siblingAnchor (d : Document) (target : Handle) (operation : Operation) :
    Except StoreError Nat := do
  let position ← d.locate target
  match d.node position with
  | .document | .finish | .attribute _ _ =>
    throw (.invalidKind operation (d.node position).kind)
  | _ => pure position

def insertBefore (d : Document) (target : Handle) (f : Fragment) : Except StoreError Document := do
  let position ← d.siblingAnchor target .insertBefore
  pure (d.splice position position f ((d.parent? position).getD 0))

/-- Inserts behind all that belongs to the target. -/
def insertAfter (d : Document) (target : Handle) (f : Fragment) : Except StoreError Document := do
  let position ← d.siblingAnchor target .insertAfter
  let stop := d.last position + 1
  pure (d.splice stop stop f ((d.parent? position).getD 0))

/-- Removes a node with all that belongs to it. -/
def remove (d : Document) (target : Handle) : Except StoreError Document := do
  let position ← d.locate target
  match d.node position with
  | .document | .finish => throw (.invalidKind .remove (d.node position).kind)
  | _ => pure (d.splice position (d.last position + 1) {} 0)

/-- All content at the top. -/
def contents (d : Document) : Fragment :=
  ⟨d.slice 1 (d.length - 1), d.inherited⟩

/-- A copy of a subtree. The document node yields all content, and an attribute a text node with its
value. -/
def extract (d : Document) (target : Handle) : Except StoreError Fragment := do
  let position ← d.locate target
  let scope :=
    match d.parent? position with
    | some parent => (d.scopeAt parent).without .base
    | none => d.inherited
  match d.node position with
  | .document => pure ⟨d.slice 1 (d.last position), d.inherited⟩
  | .attribute _ value => pure (.ofText value)
  | .finish => throw (.invalidKind .extract .finish)
  | _ => pure ⟨d.extent position, scope⟩

/-- A document of its own that holds a copy of a subtree. -/
def copySubtree (d : Document) (id : Nat) (target : Handle) : Except StoreError Document := do
  let f ← d.extract target
  pure { Document.ofFragment id f with mode := d.mode }

end MarkupGraft.Document
