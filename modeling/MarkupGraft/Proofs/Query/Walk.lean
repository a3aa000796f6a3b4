import Mathlib.Data.List.Sort
import Mathlib.Data.Nat.Find
import MarkupGraft.Store.View
import MarkupGraft.Proofs.Store.Content

/-!
The nodes that a walk through a document meets, in document order, and how their extents lie: the
extents of two nodes are nested or apart, and what lies inside a container lies in the extent of
exactly one of its children.
-/

namespace MarkupGraft

/-- Attributes, end markers and document types are off the paths that lead through a tree. -/
def Node.isWalked : Node → Bool
  | .attribute _ _ | .finish | .doctype _ => false
  | _ => true

namespace Document
variable (d : Document)

/-- The positions that a walk meets. -/
def walk : List Nat := (List.range d.length).filter fun m => (d.node m).isWalked

/-! What a view shows -/

@[simp] theorem view_type (n : Nat) : d.view.type n = (d.node n).queryType := by
  simp [view, node, Array.getD_eq_getD_getElem?, List.getD_eq_getElem?_getD]

@[simp] theorem view_parent? (n : Nat) : d.view.parent? n = d.parent? n := by
  simp [view, parent?, place, Array.getD_eq_getD_getElem?, List.getD_eq_getElem?_getD]

theorem view_children (n : Nat) :
    d.view.children n = (d.children n).filter fun c => !(d.node c).isDoctype := by
  simp [view, children, place, node, Array.getD_eq_getD_getElem?, List.getD_eq_getElem?_getD]

theorem view_attributes (n : Nat) : d.view.attributes n =
    if (d.node n).isElement then attributeRun d.nodes.toArray (n + 1) else [] := by
  simp [view, node, Array.getD_eq_getD_getElem?, List.getD_eq_getElem?_getD]

variable {d}

theorem mem_walk {m : Nat} : m ∈ d.walk ↔ m < d.length ∧ (d.node m).isWalked := by
  simp [walk]

theorem pairwise_walk : d.walk.Pairwise (· < ·) := List.pairwise_lt_range.filter _

theorem isWalked_of_isContainer {n : Node} (h : n.isContainer) : n.isWalked := by
  cases n <;> simp_all [Node.isContainer, Node.isWalked]

theorem isWalked_iff_isChild {n : Node} : n.isWalked ↔ n.isChild ∧ !n.isDoctype := by
  cases n <;> simp [Node.isWalked, Node.isChild, Node.isDoctype]

theorem ne_finish_of_isWalked {n : Node} (h : n.isWalked) : n ≠ .finish := by
  rintro rfl
  cases h

/-! Choosing nodes of a walk -/

section
variable {p q r : Nat → Prop} [DecidablePred p] [DecidablePred q] [DecidablePred r]

theorem mem_walk_filter {m : Nat} : m ∈ d.walk.filter (p ·) ↔ m ∈ d.walk ∧ p m := by
  simp

theorem pairwise_walk_filter : (d.walk.filter (p ·)).Pairwise (· < ·) := pairwise_walk.filter _

/-- A list in document order is told by its members. -/
theorem eq_walk_filter {l : List Nat} (h : l.Pairwise (· < ·))
    (hm : ∀ m, m ∈ l ↔ m ∈ d.walk ∧ p m) : l = d.walk.filter (p ·) :=
  h.eq_of_mem_iff pairwise_walk_filter fun m => by rw [hm, mem_walk_filter]

theorem walk_filter_append (h : ∀ m ∈ d.walk, r m ↔ p m ∨ q m) (hlt : ∀ a b, p a → q b → a < b) :
    d.walk.filter (p ·) ++ d.walk.filter (q ·) = d.walk.filter (r ·) := by
  refine eq_walk_filter (List.pairwise_append.mpr ⟨pairwise_walk_filter, pairwise_walk_filter,
    fun a ha b hb => hlt a b (mem_walk_filter.mp ha).2 (mem_walk_filter.mp hb).2⟩) fun m => ?_
  rw [List.mem_append, mem_walk_filter, mem_walk_filter]
  constructor
  · rintro (⟨hm, hp⟩ | ⟨hm, hq⟩)
    · exact ⟨hm, (h m hm).mpr (.inl hp)⟩
    · exact ⟨hm, (h m hm).mpr (.inr hq)⟩
  · rintro ⟨hm, hr⟩
    exact ((h m hm).mp hr).imp (⟨hm, ·⟩) (⟨hm, ·⟩)

end

/-! Extents -/

namespace WellFormed
variable (w : d.WellFormed)
include w

theorem length_pos : 0 < d.length := by
  have := w.last_root
  omega

theorem isContainer_zero : (d.node 0).isContainer := by
  rw [(w.document_iff w.length_pos).mpr rfl]
  rfl

theorem parent_spec {m p : Nat} (hm : m < d.length) (h : d.parent? m = some p) :
    p < m ∧ (d.node p).isContainer ∧ m ≤ d.last p := ((w.parent_iff hm).mp h).1

/-- Nothing that is open at a node begins behind its parent. -/
theorem le_parent {m p b : Nat} (hm : m < d.length) (h : d.parent? m = some p) (hb : b < m)
    (hc : (d.node b).isContainer) (hl : m ≤ d.last b) : b ≤ p :=
  ((w.parent_iff hm).mp h).2 b hb hc hl

theorem parent_zero : d.parent? 0 = none := by
  refine Option.eq_none_iff_forall_ne_some.mpr fun p h => ?_
  have := (w.parent_spec w.length_pos h).1
  omega

/-- Every node but the document stands in a container. -/
theorem exists_parent {m : Nat} (hm : m < d.length) (h : 0 < m) : ∃ p, d.parent? m = some p := by
  let opened (b : Nat) : Prop := b < m ∧ (d.node b).isContainer ∧ m ≤ d.last b
  have : DecidablePred opened := fun b => inferInstanceAs (Decidable (_ ∧ _ ∧ _))
  have hroot : opened 0 := ⟨h, w.isContainer_zero, by have := w.last_root; omega⟩
  refine ⟨Nat.findGreatest opened m, (w.parent_iff hm).mpr
    ⟨Nat.findGreatest_spec (Nat.zero_le m) hroot, fun b hb hc hl => ?_⟩⟩
  exact Nat.le_findGreatest (Nat.le_of_lt hb) ⟨hb, hc, hl⟩

theorem isContainer_of_lt_last {c : Nat} (hc : c < d.length) (h : c < d.last c) :
    (d.node c).isContainer := by
  by_contra hn
  have := (w.alone hc hn).1
  omega

/-- A node that is walked is no end marker. -/
theorem ne_last {c m : Nat} (hm : m ∈ d.walk) (hc : c < m) (hl : m ≤ d.last c) : m < d.last c := by
  obtain ⟨hlt, hw⟩ := mem_walk.mp hm
  have hk := w.isContainer_of_lt_last (by omega) (Nat.lt_of_lt_of_le hc hl)
  refine Nat.lt_of_le_of_ne hl fun he => ne_finish_of_isWalked hw ?_
  rw [he]
  exact (w.paired (by omega) hk).2.2.1

/-- What begins inside a container ends inside it. -/
theorem last_inside {c m : Nat} (hm : m < d.length) (hc : c < m) (hl : m < d.last c) :
    d.last m < d.last c := by
  by_cases hk : (d.node m).isContainer
  · exact w.nested hm (w.isContainer_of_lt_last (by omega) (by omega)) hk hc hl
  · rwa [(w.alone hm hk).1]

/-- The extents of two siblings lie apart. -/
theorem last_lt_sibling {a b p : Nat} (ha : a < d.length) (hb : b < d.length)
    (hpa : d.parent? a = some p) (hpb : d.parent? b = some p) (hab : a < b) : d.last a < b := by
  by_contra hl
  have hl : b ≤ d.last a := by omega
  have hc := w.isContainer_of_lt_last ha (Nat.lt_of_lt_of_le hab hl)
  have := w.le_parent hb hpb hab hc hl
  have := (w.parent_spec ha hpa).1
  omega

theorem parent_mem_walk {m p : Nat} (hm : m < d.length) (h : d.parent? m = some p) : p ∈ d.walk := by
  obtain ⟨hpm, hc, -⟩ := w.parent_spec hm h
  exact mem_walk.mpr ⟨by omega, isWalked_of_isContainer hc⟩

/-- What lies inside a container lies in the extent of a child. -/
theorem exists_child_of_inside {p m : Nat} (hm : m ∈ d.walk) (hp : p < m) (hl : m < d.last p) :
    ∃ c ∈ d.walk, d.parent? c = some p ∧ c ≤ m ∧ m ≤ d.last c := by
  obtain ⟨hlt, hw⟩ := mem_walk.mp hm
  have hpl : p < d.length := by omega
  have hk := w.isContainer_of_lt_last hpl (by omega)
  have hs : d.contentStart p ≤ m := by
    by_contra hs
    have ha := (isAttribute_iff_lt_contentStart hp (by omega)).mpr (Nat.not_le.mp hs)
    cases hn : d.node m <;> simp [hn, Node.isAttribute, Node.isWalked] at ha hw
  obtain ⟨c, hc, hcm, hmc⟩ := (w.exists_child_iff hpl hk).mpr ⟨hs, hl⟩
  obtain ⟨hcl, hparent, hchild⟩ := (w.mem_children_iff hpl hk).mp hc
  refine ⟨c, mem_walk.mpr ⟨hcl, isWalked_iff_isChild.mpr ⟨hchild, ?_⟩⟩, hparent, hcm, hmc⟩
  -- A document type holds nothing but itself, and `m` is none.
  cases hn : d.node c with
  | doctype value =>
    have hlc := (w.alone hcl (by simp [hn, Node.isContainer])).1
    obtain rfl : c = m := by omega
    simp [hn, Node.isWalked] at hw
  | _ => rfl

/-- The children that a view shows are the walked nodes whose parent it is. -/
theorem children_eq_walk {p : Nat} (hp : p < d.length) :
    d.view.children p = d.walk.filter fun m => d.parent? m = some p := by
  rw [view_children]
  by_cases hc : (d.node p).isContainer
  · rw [w.children_eq hp hc, walk, List.filter_filter, List.filter_filter]
    refine List.filter_congr fun m _ => ?_
    have := isWalked_iff_isChild (n := d.node m)
    grind
  · rw [(w.alone hp hc).2, List.filter_nil, eq_comm, List.filter_eq_nil_iff]
    intro m hm h
    exact hc (w.parent_spec (mem_walk.mp hm).1 (of_decide_eq_true h)).2.1

theorem mem_view_children {p c : Nat} (hp : p < d.length) :
    c ∈ d.view.children p ↔ c ∈ d.walk ∧ d.parent? c = some p := by
  rw [w.children_eq_walk hp, mem_walk_filter]

end WellFormed
end Document
end MarkupGraft
