import MarkupGraft.Proofs.Store.Listing
import MarkupGraft.Store.Fragment

/-!
What a fragment becomes where it is placed: each outermost element takes namespace declarations in
front of its attributes, and nothing else changes.
-/

namespace MarkupGraft

namespace Name

@[simp] theorem declares?_declaring (mark : String) : (declaring mark).declares? = some mark := by
  unfold declaring
  split
  · rename_i h
    rw [h]
    rfl
  · rfl

end Name

namespace Node

/-- The name and the value of an attribute. -/
def pair? : Node → Option (Name × String)
  | .attribute name value => some (name, value)
  | _ => none

end Node

open MarkupGraft.Tree (listing listingAll attributeNodes)

namespace Tree
variable (scope target : Scope)

/-- The declarations that an outermost element takes where `target` is in scope. -/
def declared : Tree → List (Name × String)
  | .element name attributes children =>
    (Placement.declarations scope target name
      (attributeNodes attributes ++ (listingAll children ++ [.finish]))).filterMap Node.pair?
  | _ => []

/-- A tree with declarations in front of the attributes of its outermost element. -/
def withDeclarations (declarations : List (Name × String)) : Tree → Tree
  | .element name attributes children => .element name (declarations ++ attributes) children
  | tree => tree

/-- An outermost tree of a fragment as it is placed where `target` is in scope. -/
def placed (tree : Tree) : Tree := tree.withDeclarations (tree.declared scope target)

end Tree

namespace Placement
variable (scope target : Scope)

private theorem attributeNodes_filterMap {nodes : List Node} (h : ∀ n ∈ nodes, n.isAttribute) :
    attributeNodes (nodes.filterMap Node.pair?) = nodes := by
  induction nodes with
  | nil => rfl
  | cons node nodes ih =>
    have hn := h node List.mem_cons_self
    have ih := ih fun n hn => h n (List.mem_cons_of_mem _ hn)
    cases node with
    | «attribute» name value =>
      exact congrArg (Node.attribute name value :: ·) ih
    | _ => simp [Node.isAttribute] at hn

/-- Each declaration is an attribute that declares a prefix. -/
theorem exists_declaring_of_mem {name : Name} {following : List Node} {node : Node}
    (h : node ∈ declarations scope target name following) :
    ∃ mark space, node = .attribute (Name.declaring mark) space := by
  simp only [declarations] at h
  split at h
  · rcases List.mem_append.mp h with h | h
    · obtain ⟨b, -, rfl⟩ := List.mem_map.mp h
      exact ⟨_, _, rfl⟩
    · exact ⟨_, _, List.mem_singleton.mp h⟩
  · obtain ⟨b, -, rfl⟩ := List.mem_map.mp h
    exact ⟨_, _, rfl⟩

theorem attributeNodes_declared (name : Name) (attributes : List (Name × String))
    (children : List Tree) :
    attributeNodes ((Tree.element name attributes children).declared scope target) =
      declarations scope target name
        (attributeNodes attributes ++ (listingAll children ++ [.finish])) := by
  refine attributeNodes_filterMap fun n hn => ?_
  obtain ⟨mark, space, rfl⟩ := exists_declaring_of_mem scope target hn
  rfl

/-- What an element takes where it is placed are namespace declarations. -/
theorem declares?_of_mem_declared {tree : Tree} {a : Name × String}
    (h : a ∈ tree.declared scope target) : a.1.declares?.isSome := by
  cases tree with
  | element name attributes children =>
    obtain ⟨node, hm, hp⟩ := List.mem_filterMap.mp h
    obtain ⟨mark, space, rfl⟩ := exists_declaring_of_mem scope target hm
    cases hp
    simp
  | _ => cases h

/-! Complete trees at a depth -/

private theorem throughFinish?_attributes (depth : Nat) (attributes : List (Name × String))
    (rest : List Node) : throughFinish? depth (attributeNodes attributes ++ rest) =
      (throughFinish? depth rest).map (attributeNodes attributes ++ ·) := by
  induction attributes with
  | nil => simp [attributeNodes]
  | cons a attributes ih =>
    rw [attributeNodes, List.map_cons, List.cons_append, throughFinish?]
    · rw [attributeNodes] at ih
      simp [ih, Function.comp_def]
    all_goals simp

private theorem place_attributes (depth : Nat) (attributes : List (Name × String))
    (rest : List Node) : place scope target depth (attributeNodes attributes ++ rest) =
      attributeNodes attributes ++ place scope target depth rest := by
  induction attributes with
  | nil => rfl
  | cons a attributes ih => exact congrArg _ ih

mutual

private theorem throughFinish?_listing (depth : Nat) (rest : List Node) : ∀ t : Tree,
    throughFinish? (depth + 1) (listing t ++ rest) =
      (throughFinish? (depth + 1) rest).map (listing t ++ ·)
  | .element name attributes children => by
    rw [listing, List.cons_append, List.append_assoc, List.append_assoc, throughFinish?,
      throughFinish?_attributes, throughFinish?_listingAll (depth + 1), List.singleton_append,
      throughFinish?]
    simp [Function.comp_def]
  | .text _ | .comment _ | .instruction _ | .doctype _ => rfl

private theorem throughFinish?_listingAll (depth : Nat) (rest : List Node) : ∀ ts : List Tree,
    throughFinish? (depth + 1) (listingAll ts ++ rest) =
      (throughFinish? (depth + 1) rest).map (listingAll ts ++ ·)
  | [] => by simp [listingAll]
  | t :: ts => by
    rw [listingAll, List.append_assoc, throughFinish?_listing depth _ t,
      throughFinish?_listingAll depth rest ts]
    simp [Function.comp_def]

end

mutual

private theorem place_listing_inside (depth : Nat) (rest : List Node) : ∀ t : Tree,
    place scope target (depth + 1) (listing t ++ rest) =
      listing t ++ place scope target (depth + 1) rest
  | .element name attributes children => by
    rw [listing, List.cons_append, List.append_assoc, List.append_assoc, place,
      if_neg (Nat.succ_ne_zero depth), place_attributes, place_listingAll_inside (depth + 1),
      List.singleton_append, place]
    simp
  | .text _ | .comment _ | .instruction _ | .doctype _ => rfl

private theorem place_listingAll_inside (depth : Nat) (rest : List Node) : ∀ ts : List Tree,
    place scope target (depth + 1) (listingAll ts ++ rest) =
      listingAll ts ++ place scope target (depth + 1) rest
  | [] => rfl
  | t :: ts => by
    rw [listingAll, List.append_assoc, place_listing_inside depth _ t,
      place_listingAll_inside depth rest ts, List.append_assoc]

end

theorem ownPrefixes_attributes (attributes : List (Name × String)) (children : List Tree)
    (rest : List Node) :
    ownPrefixes (attributeNodes attributes ++ (listingAll children ++ ([Node.finish] ++ rest))) =
      attributes.filterMap (·.1.declares?) := by
  rw [ownPrefixes, Tree.takeWhile_isAttribute, attributeNodes, List.filterMap_map]
  rfl

theorem inside_attributes (attributes : List (Name × String)) (children : List Tree)
    (rest : List Node) :
    inside (attributeNodes attributes ++ (listingAll children ++ ([Node.finish] ++ rest))) =
      attributeNodes attributes ++ (listingAll children ++ [.finish]) := by
  rw [inside, throughFinish?_attributes, throughFinish?_listingAll 0, List.singleton_append,
    throughFinish?]
  rfl

/-- The declarations of an element depend on what belongs to it alone. -/
private theorem declarations_append (name : Name) (attributes : List (Name × String))
    (children : List Tree) (rest : List Node) :
    declarations scope target name
        (attributeNodes attributes ++ (listingAll children ++ ([Node.finish] ++ rest))) =
      declarations scope target name
        (attributeNodes attributes ++ (listingAll children ++ [.finish])) := by
  have hown := ownPrefixes_attributes attributes children []
  have hinside := inside_attributes attributes children []
  rw [List.append_nil] at hown hinside
  simp only [declarations, ownPrefixes_attributes, inside_attributes, hown, hinside]

theorem place_listing (rest : List Node) (t : Tree) :
    place scope target 0 (listing t ++ rest) =
      listing (t.placed scope target) ++ place scope target 0 rest := by
  cases t with
  | element name attributes children =>
    have hd := attributeNodes_declared scope target name attributes children
    have hl : listing ((Tree.element name attributes children).placed scope target) =
        .element name :: (declarations scope target name
          (attributeNodes attributes ++ (listingAll children ++ [.finish])) ++
            (attributeNodes attributes ++ (listingAll children ++ [.finish]))) := by
      rw [Tree.placed, Tree.withDeclarations, listing, Tree.attributeNodes_append, hd,
        List.append_assoc]
    rw [hl, listing, List.cons_append, List.append_assoc, List.append_assoc, place, if_pos rfl,
      declarations_append, place_attributes, place_listingAll_inside, List.singleton_append, place]
    simp
  | _ => rfl

theorem place_listingAll (rest : List Node) (ts : List Tree) :
    place scope target 0 (listingAll ts ++ rest) =
      listingAll (ts.map (Tree.placed scope target)) ++ place scope target 0 rest := by
  induction ts with
  | nil => rfl
  | cons t ts ih =>
    rw [listingAll, List.append_assoc, place_listing, ih, List.map_cons, listingAll,
      List.append_assoc]

end Placement

namespace Fragment

/-- The trees of a fragment. -/
def trees (f : Fragment) : List Tree := Tree.forest f.nodes

/-- A fragment is a run of complete trees. -/
def Complete (f : Fragment) : Prop := ∃ ts, f.nodes = listingAll ts

theorem Complete.nodes_eq {f : Fragment} (h : f.Complete) : f.nodes = listingAll f.trees := by
  obtain ⟨ts, h⟩ := h
  rw [trees, h, Tree.forest_listingAll]

/-- Placing a fragment places its trees. -/
theorem Complete.placedUnder_eq {f : Fragment} (h : f.Complete) (target : Scope) :
    f.placedUnder target = listingAll (f.trees.map (Tree.placed f.scope target)) := by
  have hp := Placement.place_listingAll f.scope target [] f.trees
  rw [List.append_nil, ← h.nodes_eq, Placement.place, List.append_nil] at hp
  exact hp

end Fragment
end MarkupGraft
