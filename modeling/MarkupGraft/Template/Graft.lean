import MarkupGraft.Template.Error
import MarkupGraft.Template.Item

/-!
How a selection comes into a template, and how the copies made of a target or of a whole template
come into its place.
-/

namespace MarkupGraft

namespace Document

/-- The children of a node, detached. -/
def detachChildren (d : Document) (position : Nat) : Except StoreError Fragment :=
  Fragment.join <$> (d.children position).mapM fun child => d.extract (d.handleAt child)

end Document

/-- What an item fills a copy with: the content of a container, and other items as they are. -/
def Item.filling : Item → Except StoreError Fragment
  | .node document position =>
    if (document.node position).isContainer then document.detachChildren position
    else Item.toFragment (.node document position)
  | .text value => .ok (.ofText value)

namespace Document
variable (d : Document) (target : Handle)

/-- Puts a selection into a target: copies as the children of a container, and text elsewhere. -/
def graft (items : List Item) : Except StoreError Document := do
  let position ← d.locate target
  if (d.node position).isContainer then d.replaceChildren target (← Item.gather items)
  else d.setText target (Item.concat items)

/-- Fills a target with what a single item holds. -/
def fill (item : Item) : Except StoreError Document := do
  let position ← d.locate target
  if (d.node position).isContainer then d.replaceChildren target (← item.filling)
  else d.setText target item.toText

/-- A document of its own that holds a copy of a target, and the handle of the copy there. -/
def detach (id : Nat) : Except StoreError (Document × Handle) := do
  let position ← d.locate target
  let copy ← d.copySubtree id target
  match d.node position, copy.children 0 with
  | .document, _ | _, [] => pure (copy, copy.root)
  | _, child :: _ => pure (copy, copy.handleAt child)

/-- What is inside a target, detached, or the whole content when the target is gone. -/
def contentsOf : Except StoreError Fragment :=
  match d.locate? target with
  | some 0 | none => .ok d.contents
  | some position => d.detachChildren position

/-- Puts the contents of copies, in order, in the place of a target. -/
def substitute (copies : List Document) : Except StoreError Document := do
  let filled ← copies.foldlM (fun d copy => d.insertBefore target copy.contents) d
  filled.remove target

end Document
end MarkupGraft
