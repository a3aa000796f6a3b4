import Mathlib.Data.List.Nodup
import Mathlib.Data.Nat.Find
import MarkupGraft.Proofs.Store.Branch
import MarkupGraft.Proofs.Store.Extent

/-!
Well-formed documents. What a document keeps is its order alone; well-formedness says that the
outline found from the order pairs and nests as a tree does, and that identities name one node
each. A document is well formed exactly when it lists a tree under distinct identities.
-/

namespace MarkupGraft

/-- What every document keeps, in terms of its positions. -/
structure Document.WellFormed (d : Document) : Prop where
  document_iff {p : Nat} (h : p < d.length) : d.node p = .document ↔ p = 0
  last_root : d.last 0 + 1 = d.length
  /-- A container is paired with a later end marker, whose parent it is. -/
  paired {p : Nat} (h : p < d.length) (hc : (d.node p).isContainer) :
    p < d.last p ∧ d.last p < d.length ∧ d.node (d.last p) = .finish ∧
      d.parent? (d.last p) = some p
  /-- Every end marker is the one of a container. -/
  started {q : Nat} (h : q < d.length) (hf : d.node q = .finish) :
    ∃ p < q, (d.node p).isContainer ∧ d.last p = q
  nested {p q : Nat} (hq : q < d.length) (hcp : (d.node p).isContainer)
    (hcq : (d.node q).isContainer) (hpq : p < q) (hql : q < d.last p) : d.last q < d.last p
  /-- The parent is the innermost container that is open at the node. -/
  parent_iff {p c : Nat} (h : p < d.length) : d.parent? p = some c ↔
    (c < p ∧ (d.node c).isContainer ∧ p ≤ d.last c) ∧
      ∀ b, b < p → (d.node b).isContainer → p ≤ d.last b → b ≤ c
  alone {p : Nat} (h : p < d.length) (hc : ¬(d.node p).isContainer) :
    d.last p = p ∧ d.children p = []
  children_eq {c : Nat} (h : c < d.length) (hc : (d.node c).isContainer) :
    d.children c = (List.range d.length).filter fun p =>
      d.parent? p = some c ∧ (d.node p).isChild
  /-- An attribute stands in the run behind its element. -/
  attribute_run {p : Nat} (h : p < d.length) (ha : (d.node p).isAttribute) :
    ∃ e, d.parent? p = some e ∧ (d.node e).isElement ∧ e < p ∧
      ∀ q, e < q → q ≤ p → (d.node q).isAttribute
  nodup : (d.entries.map (·.ident)).Nodup
  ident_lt {e : Entry} (h : e ∈ d.entries) : e.ident < d.nextIdent
  /-- The location kept for a node is its position. -/
  located {p : Nat} (h : p < d.length) : d.locate? (d.handleAt p) = some p

namespace Document
open Outline
variable {d : Document}

@[simp] theorem length_nodes : d.nodes.length = d.length := by simp [nodes, length]

theorem length_outline : d.outline.length = d.length := by
  rw [outline, length_ofNodes, length_nodes]

/-- Under distinct identities a handle names the one entry that has its identity. -/
theorem locate?_eq_some_iff (hn : (d.entries.map (·.ident)).Nodup) {h : Handle} {p : Nat} :
    d.locate? h = some p ↔
      h.document = d.id ∧ ∃ e, d.entries[p]? = some e ∧ e.ident = h.ident := by
  unfold locate?
  split
  · rename_i hd
    simp only [hd, true_and, List.findIdx?_eq_some_iff_getElem, decide_eq_true_eq]
    constructor
    · intro ⟨hp, he, _⟩
      exact ⟨_, List.getElem?_eq_getElem hp, he⟩
    · intro ⟨e, he, hi⟩
      obtain ⟨hp, rfl⟩ := List.getElem?_eq_some_iff.mp he
      refine ⟨hp, hi, fun j hj hji => ?_⟩
      have hp : p < (d.entries.map (·.ident)).length := by simpa using hp
      have hj : j < (d.entries.map (·.ident)).length := by omega
      have hjp : (d.entries.map (·.ident))[j] = (d.entries.map (·.ident))[p] := by
        simpa [hi] using hji
      have := hn.getElem_inj_iff.mp hjp
      omega
  · rename_i hd
    simp [hd]

section
variable {ts : List Tree} (h : d.nodes = .document :: (Tree.listingAll ts ++ [.finish]))
include h

private theorem closes_nodes : Closes 0 d.nodes := by
  rw [h]
  exact (closes_listingAll 1 [Node.finish] _).mpr (by simp [Closes])

private theorem attributesLed_nodes : AttributesLed false d.nodes := by
  have hend (led : Bool) : AttributesLed led [Node.finish] :=
    ⟨fun ha => by simp [Node.isAttribute] at ha, trivial⟩
  rw [h]
  exact ⟨fun ha => by simp [Node.isAttribute] at ha, attributesLed_listingAll _ hend _ _⟩

/-- No tree lists a document node. -/
private theorem node_eq_document_iff {p : Nat} (hp : p < d.length) :
    d.node p = .document ↔ p = 0 := by
  cases p with
  | zero => simp [node, h]
  | succ p =>
    rw [← length_nodes, h, List.length_cons] at hp
    have hp : p < (Tree.listingAll ts ++ [Node.finish]).length := by omega
    have hm := List.getElem_mem hp
    rw [node, h, List.getD_cons_succ, List.getD_eq_getElem _ _ hp]
    constructor
    · intro he
      rw [he, List.mem_append] at hm
      simp [Tree.document_not_mem_listingAll] at hm
    · intro he
      omega

private theorem last_root_of_nodes : d.last 0 + 1 = d.length := by
  have hlisting : d.nodes = [] ++ .document :: (Tree.attributeNodes [] ++
      (Tree.listingAll ts ++ .finish :: [])) := h
  have := placeAt_last_of_listing rfl hlisting
  have hl := congrArg List.length h
  rw [length_nodes] at hl
  simp only [List.length_cons, List.length_append, List.length_nil] at this hl
  rw [last, place, show d.outline.getD 0 ⟨none, 0, []⟩ = placeAt d.nodes 0 from rfl]
  omega

end

/-- A document that lists a tree under distinct identities is well formed. -/
theorem wellFormed_of_entries {t : RootedTree} (h : d.entries = t.entries)
    (hn : (d.entries.map (·.ident)).Nodup)
    (hi : ∀ e ∈ d.entries, e.ident < d.nextIdent) : d.WellFormed := by
  have hnodes : d.nodes =
      .document :: (Tree.listingAll (Branch.eraseAll t.children) ++ [.finish]) := by
    rw [nodes, h, t.nodes_entries]
  have hlen : d.nodes.length = d.length := length_nodes
  have hc := closes_nodes hnodes
  have hled := attributesLed_nodes hnodes
  have hparent {p : Nat} (hp : p < d.length) : d.parent? p = (openedAt d.nodes p).head? :=
    placeAt_parent (by omega)
  constructor
  case document_iff => exact node_eq_document_iff hnodes
  case last_root => exact last_root_of_nodes hnodes
  case paired =>
    intro p hp hk
    obtain ⟨hle, hlt, hf, hh, -⟩ := placeAt_of_container hc (by omega) hk
    exact ⟨hle, by rwa [hlen] at hlt, hf, (hparent (by rwa [hlen] at hlt)).trans hh⟩
  case started =>
    intro q hq hf
    obtain ⟨c, -, hcq, hk, hl⟩ := last_of_finish hc (by omega) hf
    exact ⟨c, hcq, hk, hl⟩
  case nested =>
    intro p q hq hkp hkq hpq hql
    exact last_lt_last hc hkp hkq (by omega) hpq hql
  case parent_iff =>
    intro p c hp
    rw [hparent hp]
    exact head?_openedAt_eq_some_iff hc (by omega)
  case alone =>
    intro p hp hk
    exact placeAt_of_not_container (by omega) hk
  case children_eq =>
    intro c hcl hk
    have := placeAt_children hc (by omega) hk
    rw [hlen] at this
    refine Eq.trans this (List.filter_congr fun p hp => ?_)
    rw [hparent (List.mem_range.mp hp)]
    rfl
  case attribute_run =>
    intro p hp ha
    obtain ⟨e, ho, he, hlt, hrun⟩ := exists_element_of_attribute hled (by omega) ha
    exact ⟨e, (hparent hp).trans ho, he, hlt, hrun⟩
  case nodup => exact hn
  case ident_lt => exact fun he => hi _ he
  case located =>
    intro p hp
    have hp : p < d.entries.length := hp
    refine (locate?_eq_some_iff hn).mpr ⟨rfl, _, List.getElem?_eq_getElem hp, ?_⟩
    simp [handleAt, List.getD_eq_getElem?_getD, hp]

/-! From positions to trees -/

variable (d) in
/-- The entries from `start` up to, not including, `stop`. -/
def segment (start stop : Nat) : List Entry := (d.entries.take stop).drop start

theorem segment_self (a : Nat) : d.segment a a = [] := by
  simp [segment]

theorem segment_append {a b c : Nat} (hab : a ≤ b) (hbc : b ≤ c) (hc : c ≤ d.length) :
    d.segment a b ++ d.segment b c = d.segment a c := by
  have hc : c ≤ d.entries.length := hc
  have hb : d.entries.take b = (d.entries.take c).take b := by
    rw [List.take_take, Nat.min_eq_left hbc]
  have hle : a ≤ ((d.entries.take c).take b).length := by
    simp only [List.length_take]
    omega
  rw [segment, hb, segment, ← List.drop_append_of_le_length hle, List.take_append_drop, segment]

theorem exists_segment_cons {a b : Nat} (hab : a < b) (hb : b ≤ d.length) :
    ∃ e, d.segment a b = e :: d.segment (a + 1) b ∧ e.node = d.node a := by
  have hb : b ≤ d.entries.length := hb
  have ha : a < (d.entries.take b).length := by
    simp only [List.length_take]
    omega
  refine ⟨(d.entries.take b)[a], List.drop_eq_getElem_cons ha, ?_⟩
  have : a < d.entries.length := by omega
  simp [node, nodes, this]

/-- What is said of the positions from `a` up to `b` when no branch sticks out of them. -/
private structure Uncut (d : Document) (a b : Nat) : Prop where
  le_length : b ≤ d.length
  document {q : Nat} (hq : a ≤ q) (hb : q < b) : d.node q ≠ .document
  container {q : Nat} (hq : a ≤ q) (hb : q < b) (hc : (d.node q).isContainer) : d.last q < b
  finish {q p : Nat} (hq : a ≤ q) (hb : q < b) (hc : (d.node p).isContainer) (hp : p < q)
    (hl : d.last p = q) : a ≤ p
  parent {q e : Nat} (hq : a ≤ q) (hb : q < b) (ha : (d.node q).isAttribute)
    (he : d.parent? q = some e) : a ≤ e

private theorem exists_attributes {a b : Nat} (hab : a ≤ b) (hb : b ≤ d.length)
    (h : ∀ q, a ≤ q → q < b → (d.node q).isAttribute) :
    ∃ attributes : List OwnedAttribute,
      attributes.map OwnedAttribute.entry = d.segment a b := by
  induction hab using Nat.decreasingInduction with
  | self => exact ⟨[], (segment_self b).symm⟩
  | of_succ a hlt ih =>
    obtain ⟨attributes, ih⟩ := ih fun q hq => h q (by omega)
    obtain ⟨e, he, hn⟩ := exists_segment_cons hlt hb
    have ha := h a (Nat.le_refl a) hlt
    cases hk : d.node a with
    | «attribute» name value =>
      refine ⟨⟨e.ident, name, value⟩ :: attributes, ?_⟩
      rw [he, List.map_cons, ih]
      simp [OwnedAttribute.entry, ← hk, ← hn]
    | _ => simp [hk, Node.isAttribute] at ha

/-- Behind an element stand its attributes, and where they end no attribute stands. -/
private theorem exists_contentStart {a l : Nat} (hal : a < l)
    (hf : d.node l = .finish) :
    ∃ m, a < m ∧ m ≤ l ∧ (∀ q, a < q → q < m → (d.node q).isAttribute) ∧
      ¬(d.node m).isAttribute := by
  have hex : ∃ m, a < m ∧ ¬(d.node m).isAttribute := ⟨l, hal, by simp [hf, Node.isAttribute]⟩
  obtain ⟨hlt, hna⟩ := Nat.find_spec hex
  refine ⟨Nat.find hex, hlt, Nat.find_min' hex ⟨hal, by simp [hf, Node.isAttribute]⟩,
    fun q hq hqm => ?_, hna⟩
  have := Nat.find_min hex hqm
  simpa [hq] using this

namespace WellFormed
variable (w : d.WellFormed)
include w

private theorem lt_last {a b : Nat} (hab : a < b) (hu : Uncut d a b)
    (hc : (d.node a).isContainer) : a < d.last a ∧ d.last a < b ∧ d.node (d.last a) = .finish := by
  have hle := hu.le_length
  obtain ⟨hlt, -, hf, -⟩ := w.paired (p := a) (by omega) hc
  exact ⟨hlt, hu.container (Nat.le_refl a) hab hc, hf⟩

/-- The content of an element is not cut. -/
private theorem uncut_content {a b m : Nat} (hab : a < b) (hu : Uncut d a b)
    (he : (d.node a).isElement) (hm : a < m)
    (hrun : ∀ q, a < q → q < m → (d.node q).isAttribute) (hna : ¬(d.node m).isAttribute) :
    Uncut d m (d.last a) := by
  have hc : (d.node a).isContainer := by
    cases hn : d.node a <;> simp_all [Node.isElement, Node.isContainer]
  obtain ⟨hlt, hlb, -⟩ := w.lt_last hab hu hc
  have hle := hu.le_length
  refine ⟨by omega, fun hq hql => hu.document (by omega) (by omega), fun hq hql hk => ?_,
    fun {q p} hq hql hk hpq hl => ?_, fun {q e} hq hql ha hp => ?_⟩
  · exact w.nested (by omega) hc hk (by omega) hql
  · by_contra hpm
    have hap := hu.finish (by omega) (by omega) hk hpq hl
    rcases Nat.eq_or_lt_of_le hap with rfl | hap
    · omega
    · have ha := hrun p hap (by omega)
      cases hn : d.node p <;> simp_all [Node.isAttribute, Node.isContainer]
  · by_contra hem
    obtain ⟨e', he', -, -, hr⟩ := w.attribute_run (by omega) ha
    rw [hp, Option.some.injEq] at he'
    subst he'
    exact hna (hr m (by omega) hq)

/-- What follows a container is not cut. -/
private theorem uncut_rest {a b : Nat} (hab : a < b) (hu : Uncut d a b)
    (hc : (d.node a).isContainer) : Uncut d (d.last a + 1) b := by
  obtain ⟨hlt, hlb, hf⟩ := w.lt_last hab hu hc
  have hle := hu.le_length
  refine ⟨by omega, fun hq hql => hu.document (by omega) hql,
    fun hq hql hk => hu.container (by omega) hql hk, fun {q p} hq hql hk hpq hl => ?_,
    fun {q e} hq hql ha hp => ?_⟩
  · by_contra hpl
    have hap := hu.finish (by omega) hql hk hpq hl
    rcases Nat.eq_or_lt_of_le hap with rfl | hap
    · omega
    · have hpne : p ≠ d.last a := by
        rintro rfl
        rw [hf] at hk
        cases hk
      have := w.nested (q := p) (by omega) hc hk hap (by omega)
      omega
  · by_contra hel
    obtain ⟨e', he', hk, -, hr⟩ := w.attribute_run (by omega) ha
    rw [hp, Option.some.injEq] at he'
    subst he'
    have hne : e ≠ d.last a := by
      rintro rfl
      rw [hf] at hk
      cases hk
    have := hr (d.last a) (by omega) (by omega)
    rw [hf] at this
    cases this

private theorem uncut_succ {a b : Nat} (hu : Uncut d a b)
    (hc : ¬(d.node a).isContainer) : Uncut d (a + 1) b := by
  have hle := hu.le_length
  refine ⟨hle, fun hq hql => hu.document (by omega) hql,
    fun hq hql hk => hu.container (by omega) hql hk, fun {q p} hq hql hk hpq hl => ?_,
    fun {q e} hq hql ha hp => ?_⟩
  · rcases Nat.eq_or_lt_of_le (hu.finish (by omega) hql hk hpq hl) with rfl | hap
    · exact absurd hk hc
    · exact hap
  · rcases Nat.eq_or_lt_of_le (hu.parent (by omega) hql ha hp) with rfl | hap
    · obtain ⟨e', he', hk, -, -⟩ := w.attribute_run (by omega) ha
      rw [hp, Option.some.injEq] at he'
      subst he'
      cases hn : d.node a <;> simp_all [Node.isElement, Node.isContainer]
    · exact hap

/-- Positions that no branch sticks out of list branches. -/
private theorem exists_branches (a b : Nat) (hab : a ≤ b) (hu : Uncut d a b) :
    ∃ bs, Branch.entriesAll bs = d.segment a b := by
  induction hk : b - a using Nat.strongRecOn generalizing a b with
  | ind k ih =>
    have hle := hu.le_length
    rcases Nat.eq_or_lt_of_le hab with rfl | hlt
    · exact ⟨[], (segment_self a).symm⟩
    obtain ⟨e, he, hn⟩ := exists_segment_cons hlt hle
    have leaf (kind : LeafKind) (value : String) (hv : d.node a = kind.node value) :
        ∃ bs, Branch.entriesAll bs = d.segment a b := by
      have hc : ¬(d.node a).isContainer := by
        rw [hv]
        cases kind <;> simp [LeafKind.node, Node.isContainer]
      obtain ⟨bs, hbs⟩ := ih _ (by omega) (a + 1) b hlt (w.uncut_succ hu hc) rfl
      refine ⟨.leaf e.ident kind value :: bs, ?_⟩
      rw [he, Branch.entriesAll, hbs, Branch.entries, ← hv, ← hn]
      rfl
    cases hv : d.node a with
    | document => exact absurd hv (hu.document (Nat.le_refl a) hlt)
    | finish =>
      obtain ⟨p, hpa, hc, hl⟩ := w.started (by omega) hv
      have := hu.finish (Nat.le_refl a) hlt hc hpa hl
      omega
    | «attribute» =>
      have ha : (d.node a).isAttribute := by simp [hv, Node.isAttribute]
      obtain ⟨p, hp, -, hpa, -⟩ := w.attribute_run (by omega) ha
      have := hu.parent (Nat.le_refl a) hlt ha hp
      omega
    | element name =>
      have hc : (d.node a).isContainer := by simp [hv, Node.isContainer]
      obtain ⟨hal, hlb, hf⟩ := w.lt_last hlt hu hc
      obtain ⟨m, ham, hml, hrun, hna⟩ := exists_contentStart hal hf
      obtain ⟨attributes, hattributes⟩ := exists_attributes (a := a + 1) (b := m) (by omega)
        (by omega) fun q hq hqm => hrun q (by omega) hqm
      obtain ⟨children, hchildren⟩ := ih (d.last a - m) (by omega) m (d.last a) hml
        (w.uncut_content hlt hu (by simp [hv, Node.isElement]) ham hrun hna) rfl
      obtain ⟨rest, hrest⟩ := ih (b - (d.last a + 1)) (by omega) (d.last a + 1) b (by omega)
        (w.uncut_rest hlt hu hc) rfl
      obtain ⟨f, hf', hfn⟩ := exists_segment_cons hlb hle
      refine ⟨.element e.ident name attributes children f.ident :: rest, ?_⟩
      have hsegment : d.segment (a + 1) m ++ (d.segment m (d.last a) ++
          f :: d.segment (d.last a + 1) b) = d.segment (a + 1) b := by
        rw [← hf', segment_append hml (by omega) hle, segment_append ham (by omega) hle]
      rw [he, Branch.entriesAll, Branch.entries, hattributes, hchildren, hrest, ← hsegment]
      simp [← hv, ← hn, ← hf, ← hfn]
    | text value => exact leaf .text value hv
    | comment value => exact leaf .comment value hv
    | instruction value => exact leaf .instruction value hv
    | doctype value => exact leaf .doctype value hv

/-- A well-formed document lists its tree. -/
theorem entries_tree : d.tree.entries = d.entries := by
  have hlen := w.last_root
  have hpos : 0 < d.length := by omega
  have hroot : d.node 0 = .document := (w.document_iff hpos).mpr rfl
  have hc : (d.node 0).isContainer := by simp [hroot, Node.isContainer]
  obtain ⟨hlt, hll, hf, -⟩ := w.paired hpos hc
  have hu : Uncut d 1 (d.last 0) := by
    refine ⟨by omega, fun {q} hq hql hd => ?_, fun hq hql hk => ?_,
      fun {q p} hq hql hk hpq hl => ?_, fun {q e} hq hql ha hp => ?_⟩
    · have := (w.document_iff (by omega)).mp hd
      omega
    · exact w.nested (by omega) hc hk (by omega) hql
    · by_contra hp
      obtain rfl : p = 0 := by omega
      omega
    · obtain ⟨e', he', hk, -, -⟩ := w.attribute_run (by omega) ha
      rw [hp, Option.some.injEq] at he'
      subst he'
      by_contra he
      obtain rfl : e = 0 := by omega
      rw [hroot] at hk
      cases hk
  obtain ⟨children, hchildren⟩ := w.exists_branches 1 (d.last 0) hlt hu
  obtain ⟨e, he, hen⟩ := exists_segment_cons (d := d) hpos (Nat.le_refl _)
  obtain ⟨f, hf', hfn⟩ := exists_segment_cons (d := d) hll (Nat.le_refl _)
  have hall : d.segment 0 d.length = d.entries := by simp [segment, length]
  have hentries : d.entries = RootedTree.entries ⟨e.ident, children, f.ident⟩ := by
    rw [← hall, he, ← segment_append (b := d.last 0) hlt (by omega) (Nat.le_refl _), hf', hlen,
      segment_self, RootedTree.entries, hchildren]
    simp [← hroot, ← hen, ← hf, ← hfn]
  rw [tree, hentries, RootedTree.ofEntries_entries]

end WellFormed

/-- Well-formedness is listing a tree under distinct identities that have been handed out. -/
theorem wellFormed_iff : d.WellFormed ↔ (∃ t : RootedTree, d.entries = t.entries) ∧
    (d.entries.map (·.ident)).Nodup ∧ ∀ e ∈ d.entries, e.ident < d.nextIdent :=
  ⟨fun w => ⟨⟨d.tree, w.entries_tree.symm⟩, w.nodup, fun _ => w.ident_lt⟩,
    fun ⟨⟨_, h⟩, hn, hi⟩ => wellFormed_of_entries h hn hi⟩

end Document
end MarkupGraft
