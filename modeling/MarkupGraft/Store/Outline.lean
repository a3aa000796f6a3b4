import MarkupGraft.Store.Node

/-!
What follows from the order of a node sequence alone: for each position the innermost open
container, the last position that belongs to the node, and the positions of its children. Reading
forward, the open containers are known at each position; reading backward, the content of each
container is.
-/

namespace MarkupGraft

/-- The place of one node in a sequence. -/
structure Place where
  parent? : Option Nat
  /-- The position of its end marker for a container, and its own position otherwise. -/
  last : Nat
  /-- Positions of the children, attributes and end markers left out. -/
  children : List Nat
  deriving DecidableEq, Repr, Inhabited

namespace Outline

/-- The innermost open container at each position from `position` on, when the containers at the
positions `opened` are open there. -/
def parentsFrom (opened : List Nat) (position : Nat) : List Node → List (Option Nat)
  | [] => []
  | node :: nodes =>
    let opened' :=
      match node with
      | .document | .element _ => position :: opened
      | .finish => opened.tail
      | _ => opened
    opened.head? :: parentsFrom opened' (position + 1) nodes

/-- The content of a container whose end marker has been read. -/
structure Content where
  last : Nat
  children : List Nat
  deriving DecidableEq, Repr, Inhabited

/-- Adds a child in front of the innermost content. -/
def addChild (position : Nat) : List Content → List Content
  | [] => []
  | c :: opened => { c with children := position :: c.children } :: opened

/-- The content at each position from `position` on, and the contents whose containers begin before
it, innermost first. -/
def contentsFrom (position : Nat) : List Node → List Content × List Content
  | [] => ([], [])
  | node :: nodes =>
    let (contents, opened) := contentsFrom (position + 1) nodes
    match node with
    | .finish => (⟨position, []⟩ :: contents, ⟨position, []⟩ :: opened)
    | .document | .element _ =>
      match opened with
      | [] => (⟨position, []⟩ :: contents, [])
      | content :: opened => (content :: contents, addChild position opened)
    | .attribute _ _ => (⟨position, []⟩ :: contents, opened)
    | _ => (⟨position, []⟩ :: contents, addChild position opened)

/-- The places of all nodes of a sequence. -/
def ofNodes (nodes : List Node) : List Place :=
  (parentsFrom [] 0 nodes).zipWith (fun parent? c => ⟨parent?, c.last, c.children⟩)
    (contentsFrom 0 nodes).1

end Outline
end MarkupGraft
