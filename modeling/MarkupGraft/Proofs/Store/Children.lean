import MarkupGraft.Proofs.Store.Refinement

/-!
Children of containers. Reading backward, each tree of a listing adds the position at which it begins
to the innermost content; so a container that lists branches has their heads for children, in their
order.
-/

namespace MarkupGraft

namespace Outline
open MarkupGraft.Tree (listing listingAll attributeNodes)

/-- Where trees that are listed from a position on begin. -/
def starts (position : Nat) : List Tree → List Nat
  | [] => []
  | t :: ts => position :: starts (position + t.listing.length) ts

private theorem opened_attributeNodes (start : Nat) (attributes : List (Name × String))
    (rest : List Node) : (contentsFrom start (attributeNodes attributes ++ rest)).2 =
      (contentsFrom (start + attributes.length) rest).2 := by
  induction attributes generalizing start with
  | nil => rfl
  | cons a attributes ih =>
    have hhead : attributeNodes (a :: attributes) ++ rest =
        .attribute a.1 a.2 :: (attributeNodes attributes ++ rest) := rfl
    rw [hhead, contentsFrom, ih, List.length_cons, Nat.add_right_comm, Nat.add_assoc]

/-- The children of a container in front of trees, for whatever is open behind it. -/
private theorem addChild_starts (position finish : Nat) (ts : List Tree) (opened : List Content) :
    (starts position ts).foldr addChild (⟨finish, []⟩ :: opened) =
      ⟨finish, starts position ts⟩ :: opened := by
  induction ts generalizing position with
  | nil => rfl
  | cons t ts ih => rw [starts, List.foldr_cons, ih, addChild]

mutual

private theorem opened_listing (start : Nat) (rest : List Node) : ∀ t : Tree,
    (contentsFrom start (listing t ++ rest)).2 =
      addChild start (contentsFrom (start + (listing t).length) rest).2
  | .element name attributes children => by
    have hinner : (contentsFrom (start + 1) (attributeNodes attributes ++
        (listingAll children ++ .finish :: rest))).2 =
          ⟨start + 1 + attributes.length + (listingAll children).length,
            starts (start + 1 + attributes.length) children⟩ ::
            (contentsFrom (start + 1 + attributes.length + (listingAll children).length + 1)
              rest).2 := by
      rw [opened_attributeNodes, opened_listingAll _ _ children, contentsFrom, addChild_starts]
    have hlength : start + (listing (.element name attributes children)).length =
        start + 1 + attributes.length + (listingAll children).length + 1 := by
      simp only [listing, attributeNodes, List.length_cons, List.length_append, List.length_map,
        List.length_nil]
      omega
    rw [hlength, listing, List.cons_append, List.append_assoc, List.append_assoc,
      List.singleton_append, contentsFrom]
    simp only [hinner]
  | .text _ | .comment _ | .instruction _ | .doctype _ => rfl

private theorem opened_listingAll (start : Nat) (rest : List Node) : ∀ ts : List Tree,
    (contentsFrom start (listingAll ts ++ rest)).2 =
      (starts start ts).foldr addChild (contentsFrom (start + (listingAll ts).length) rest).2
  | [] => rfl
  | t :: ts => by
    rw [listingAll, List.append_assoc, opened_listing start _ t, opened_listingAll _ rest ts,
      starts, List.foldr_cons, List.length_append, Nat.add_assoc]

end

/-- The children of a container are where the trees that it lists begin. -/
theorem placeAt_children_of_listing {nodes before rest : List Node} {node : Node}
    {attributes : List (Name × String)} {children : List Tree} (hc : node.isContainer)
    (h : nodes = before ++ node :: (attributeNodes attributes ++
      (listingAll children ++ .finish :: rest))) :
    (placeAt nodes before.length).children =
      starts (before.length + 1 + attributes.length) children := by
  have hlt : before.length < nodes.length := by simp [h]
  have hinner := opened_attributeNodes (before.length + 1) attributes
    (listingAll children ++ .finish :: rest)
  rw [opened_listingAll, contentsFrom, addChild_starts] at hinner
  rw [placeAt_eq hlt, h, List.drop_left]
  cases node with
  | document | element => simp only [headContent, contentsFrom, hinner, List.headD_cons]
  | _ => simp [Node.isContainer] at hc

end Outline

namespace Document
open Outline (starts)
open Branch (entriesAll eraseAll)
variable {d : Document}

/-- Where branches begin that stand in a row, there are their heads. -/
private theorem handleAt_starts {before after : List Entry} {bs : List Branch}
    (h : d.entries = before ++ (entriesAll bs ++ after)) :
    (starts before.length (eraseAll bs)).map d.handleAt = bs.map fun b => ⟨d.id, b.ident⟩ := by
  induction bs generalizing before with
  | nil => rfl
  | cons b bs ih =>
    obtain ⟨head, rest, hb, -⟩ := b.entries_head
    have hhead : d.handleAt before.length = ⟨d.id, b.ident⟩ := by
      rw [handleAt, h, entriesAll, hb]
      simp
    have hlength : before.length + b.erase.listing.length = (before ++ b.entries).length := by
      rw [List.length_append, ← b.nodes_entries, List.length_map]
    have hrest := @ih (before ++ b.entries) (by rw [h, entriesAll]; simp)
    rw [eraseAll, starts, List.map_cons, hhead, hlength, hrest, List.map_cons]

/-- The children of a container are the heads of the branches that it lists. -/
theorem handles_children {before rest : List Entry} {head finish : Entry}
    {attributes : List OwnedAttribute} {children : List Branch} (hc : head.node.isContainer)
    (hf : finish.node = .finish)
    (h : d.entries = before ++ head ::
      (attributes.map OwnedAttribute.entry ++ (entriesAll children ++ finish :: rest))) :
    (d.children before.length).map d.handleAt = children.map fun b => ⟨d.id, b.ident⟩ := by
  have hnodes : d.nodes = before.map (·.node) ++ head.node ::
      (Tree.attributeNodes (attributes.map fun a => (a.name, a.value)) ++
        (Tree.listingAll (eraseAll children) ++ .finish :: rest.map (·.node))) := by
    simp [nodes, h, hf, Branch.nodes_entriesAll, Tree.attributeNodes, OwnedAttribute.entry,
      Function.comp_def]
  have hplace := Outline.placeAt_children_of_listing hc hnodes
  rw [List.length_map, List.length_map] at hplace
  have hchildren : d.children before.length =
      starts (before.length + 1 + attributes.length) (eraseAll children) := hplace
  have hentries : d.entries = (before ++ head :: attributes.map OwnedAttribute.entry) ++
      (entriesAll children ++ finish :: rest) := by
    rw [h]
    simp
  have hstarts := handleAt_starts hentries
  rw [List.length_append, List.length_cons, List.length_map, ← Nat.add_assoc,
    Nat.add_right_comm] at hstarts
  rw [hchildren, hstarts]

end Document
end MarkupGraft
