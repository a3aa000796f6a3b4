import MarkupGraft.Proofs.Store.Listing
import MarkupGraft.Proofs.Store.Nesting

/-!
The outline of the listing of trees: what it opens it closes, a container ends behind the listing of
its children, and attributes stand only behind the element they belong to.
-/

namespace MarkupGraft
namespace Outline
open MarkupGraft.Tree (listing listingAll attributeNodes)

/-! Listings of trees close what they open -/

private theorem closes_attributeNodes (depth : Nat) (attributes : List (Name × String))
    (rest : List Node) : Closes depth (attributeNodes attributes ++ rest) ↔ Closes depth rest := by
  induction attributes with
  | nil => rfl
  | cons a attributes ih => exact ih

mutual

theorem closes_listing (depth : Nat) (rest : List Node) : ∀ t : Tree,
    Closes depth (listing t ++ rest) ↔ Closes depth rest
  | .element name attributes children => by
    simp only [listing, List.cons_append, List.append_assoc, Closes, closes_attributeNodes]
    rw [closes_listingAll (depth + 1) _ children]
    simp [Closes]
  | .text _ | .comment _ | .instruction _ | .doctype _ => Iff.rfl

theorem closes_listingAll (depth : Nat) (rest : List Node) : ∀ ts : List Tree,
    Closes depth (listingAll ts ++ rest) ↔ Closes depth rest
  | [] => Iff.rfl
  | t :: ts => by
    rw [listingAll, List.append_assoc, closes_listing depth _ t, closes_listingAll depth rest ts]

end

/-- Where the contents end that are left when a run has been read backward. -/
def lasts (start : Nat) (nodes : List Node) : List Nat := (contentsFrom start nodes).2.map (·.last)

private theorem map_last_addChild (position : Nat) (contents : List Content) :
    (addChild position contents).map (·.last) = contents.map (·.last) := by
  cases contents <;> rfl

theorem lasts_container {start : Nat} {node : Node} (h : node.isContainer) (rest : List Node) :
    lasts start (node :: rest) = (lasts (start + 1) rest).tail := by
  cases node with
  | document | element =>
    simp only [lasts, contentsFrom]
    cases (contentsFrom (start + 1) rest).2 <;> simp [map_last_addChild]
  | _ => simp [Node.isContainer] at h

theorem lasts_leaf {start : Nat} {node : Node} (hc : ¬node.isContainer) (hf : node ≠ .finish)
    (rest : List Node) : lasts start (node :: rest) = lasts (start + 1) rest := by
  cases node with
  | document | element => simp [Node.isContainer] at hc
  | finish => exact absurd rfl hf
  | «attribute» => rfl
  | _ => simp [lasts, contentsFrom, map_last_addChild]

theorem lasts_finish (start : Nat) (rest : List Node) :
    lasts start (.finish :: rest) = start :: lasts (start + 1) rest := rfl

private theorem lasts_attributeNodes (start : Nat) (attributes : List (Name × String))
    (rest : List Node) :
    lasts start (attributeNodes attributes ++ rest) = lasts (start + attributes.length) rest := by
  induction attributes generalizing start with
  | nil => rfl
  | cons a attributes ih =>
    rw [attributeNodes, List.map_cons, List.cons_append,
      lasts_leaf (by simp [Node.isContainer]) (by simp)]
    rw [attributeNodes] at ih
    rw [ih, List.length_cons]
    congr 1
    omega

mutual

theorem lasts_listing (start : Nat) (rest : List Node) : ∀ t : Tree,
    lasts start (listing t ++ rest) = lasts (start + (listing t).length) rest
  | .element name attributes children => by
    rw [listing, List.cons_append, lasts_container rfl, List.append_assoc, lasts_attributeNodes,
      List.append_assoc, lasts_listingAll _ _ children, List.singleton_append, lasts_finish,
      List.tail_cons]
    simp only [List.length_cons, List.length_append, List.length_nil, attributeNodes,
      List.length_map]
    congr 1
    omega
  | .text _ => lasts_leaf (by simp [Node.isContainer]) (by simp) rest
  | .comment _ => lasts_leaf (by simp [Node.isContainer]) (by simp) rest
  | .instruction _ => lasts_leaf (by simp [Node.isContainer]) (by simp) rest
  | .doctype _ => lasts_leaf (by simp [Node.isContainer]) (by simp) rest

theorem lasts_listingAll (start : Nat) (rest : List Node) : ∀ ts : List Tree,
    lasts start (listingAll ts ++ rest) = lasts (start + (listingAll ts).length) rest
  | [] => rfl
  | t :: ts => by
    rw [listingAll, List.append_assoc, lasts_listing start _ t, lasts_listingAll _ rest ts,
      List.length_append]
    congr 1
    omega

end

/-- A container in front of a listing ends behind it. -/
theorem placeAt_last_of_listing {nodes before rest : List Node} {node : Node}
    {attributes : List (Name × String)} {children : List Tree} (hc : node.isContainer)
    (h : nodes = before ++ node :: (attributeNodes attributes ++
      (listingAll children ++ .finish :: rest))) :
    (placeAt nodes before.length).last =
      before.length + 1 + attributes.length + (listingAll children).length := by
  have hlt : before.length < nodes.length := by simp [h]
  have hlasts : lasts (before.length + 1) (attributeNodes attributes ++
      (listingAll children ++ .finish :: rest)) =
        (before.length + 1 + attributes.length + (listingAll children).length) ::
          lasts (before.length + 1 + attributes.length + (listingAll children).length + 1) rest := by
    rw [lasts_attributeNodes, lasts_listingAll, lasts_finish]
  rw [placeAt_eq hlt, h, List.drop_left]
  cases node with
  | document | element =>
    simp only [headContent, contentsFrom]
    rw [lasts] at hlasts
    cases hk : (contentsFrom (before.length + 1) (attributeNodes attributes ++
      (listingAll children ++ .finish :: rest))).2 with
    | nil => simp [hk] at hlasts
    | cons k ks =>
      rw [hk] at hlasts
      simpa using (List.cons.inj hlasts).1
  | _ => simp [Node.isContainer] at hc

/-! Attributes -/

/-- Whether an attribute can follow a node. -/
def leadsAttribute (node : Node) : Bool := node.isElement || node.isAttribute

/-- Every attribute follows an element or another attribute; `led` tells whether what stands in
front is one. -/
def AttributesLed (led : Bool) : List Node → Prop
  | [] => True
  | node :: nodes => (node.isAttribute → led) ∧ AttributesLed (leadsAttribute node) nodes

private theorem attributesLed_attributeNodes (attributes : List (Name × String)) (rest : List Node)
    (h : ∀ led, AttributesLed led rest) : AttributesLed true (attributeNodes attributes ++ rest) := by
  induction attributes with
  | nil => exact h true
  | cons a attributes ih => exact ⟨fun _ => rfl, ih⟩

mutual

theorem attributesLed_listing (rest : List Node) (h : ∀ led, AttributesLed led rest) (led : Bool) :
    ∀ t : Tree, AttributesLed led (listing t ++ rest)
  | .element name attributes children => by
    rw [listing, List.cons_append, List.append_assoc, List.append_assoc]
    have hend (led : Bool) : AttributesLed led ([.finish] ++ rest) :=
      ⟨fun ha => by simp [Node.isAttribute] at ha, h _⟩
    exact ⟨fun ha => by simp [Node.isAttribute] at ha, attributesLed_attributeNodes _ _ fun led =>
      attributesLed_listingAll _ hend led children⟩
  | .text _ | .comment _ | .instruction _ | .doctype _ =>
    ⟨fun ha => by simp [Node.isAttribute] at ha, h _⟩

theorem attributesLed_listingAll (rest : List Node) (h : ∀ led, AttributesLed led rest)
    (led : Bool) : ∀ ts : List Tree, AttributesLed led (listingAll ts ++ rest)
  | [] => h led
  | t :: ts => by
    rw [listingAll, List.append_assoc]
    exact attributesLed_listing _ (fun led => attributesLed_listingAll rest h led ts) led t

end

/-- In front of an attribute stands an element or an attribute. -/
theorem leadsAttribute_of_led {nodes : List Node} (h : AttributesLed false nodes) {position : Nat}
    (hp : position < nodes.length) (ha : (nodeAt nodes position).isAttribute) :
    ∃ k, position = k + 1 ∧ leadsAttribute (nodeAt nodes k) := by
  have hdrop (k : Nat) (hk : k < nodes.length) :
      AttributesLed (leadsAttribute (nodeAt nodes k)) (nodes.drop (k + 1)) := by
    induction k with
    | zero =>
      rw [← List.drop_zero (l := nodes), drop_eq_nodeAt_cons hk] at h
      exact h.2
    | succ k ih =>
      have h := ih (by omega)
      rw [drop_eq_nodeAt_cons hk] at h
      exact h.2
  cases position with
  | zero =>
    rw [← List.drop_zero (l := nodes), drop_eq_nodeAt_cons hp] at h
    exact absurd (h.1 ha) (by simp)
  | succ k =>
    have h := hdrop k (by omega)
    rw [drop_eq_nodeAt_cons hp] at h
    exact ⟨k, rfl, h.1 ha⟩

/-- An attribute stands in the run behind its element, which is the innermost container. -/
theorem exists_element_of_attribute {nodes : List Node} (h : AttributesLed false nodes)
    {position : Nat} (hp : position < nodes.length) (ha : (nodeAt nodes position).isAttribute) :
    ∃ e, (openedAt nodes position).head? = some e ∧ (nodeAt nodes e).isElement ∧ e < position ∧
      ∀ q, e < q → q ≤ position → (nodeAt nodes q).isAttribute := by
  induction position with
  | zero =>
    obtain ⟨k, hk, -⟩ := leadsAttribute_of_led h hp ha
    omega
  | succ position ih =>
    obtain ⟨k, hk, hl⟩ := leadsAttribute_of_led h hp ha
    obtain rfl : position = k := by omega
    rw [openedAt_succ (by omega)]
    rw [leadsAttribute, Bool.or_eq_true] at hl
    rcases hl with hl | hl
    · refine ⟨position, ?_, hl, by omega, fun q hq hqp => ?_⟩
      · cases hn : nodeAt nodes position <;> simp_all [enter, Node.isElement]
      · obtain rfl : q = position + 1 := by omega
        exact ha
    · obtain ⟨e, ho, he, hlt, hrun⟩ := ih (by omega) hl
      refine ⟨e, ?_, he, by omega, fun q hq hqp => ?_⟩
      · cases hn : nodeAt nodes position <;> simp_all [enter, Node.isAttribute]
      · rcases Nat.lt_or_eq_of_le hqp with hlt | rfl
        · exact hrun q hq (by omega)
        · exact ha

end Outline
end MarkupGraft
