import MarkupGraft.Proofs.Store.WellFormed

/-!
The content of a container: behind the attributes and in front of the end marker, the children stand
side by side, each with all that belongs to it.
-/

namespace MarkupGraft
namespace Document
variable {d : Document}

private theorem isAttribute_run (l : List Node) :
    (∀ k < (l.takeWhile Node.isAttribute).length, (l.getD k default).isAttribute) ∧
      ¬(l.getD (l.takeWhile Node.isAttribute).length default).isAttribute := by
  induction l with
  | nil => simp [Node.isAttribute, default, instInhabitedNode.default]
  | cons n l ih =>
    by_cases hn : n.isAttribute = true
    · rw [List.takeWhile_cons_of_pos hn]
      refine ⟨fun k hk => ?_, ih.2⟩
      cases k with
      | zero => exact hn
      | succ k => exact ih.1 k (by simpa using hk)
    · rw [List.takeWhile_cons_of_neg hn]
      exact ⟨fun k hk => by simp at hk, hn⟩

private theorem node_drop (p k : Nat) : (d.nodes.drop p).getD k default = d.node (p + k) := by
  simp [node, List.getD_eq_getElem?_getD]

theorem isAttribute_iff_lt_contentStart {p q : Nat} (hp : p < q) (hq : q ≤ d.contentStart p) :
    (d.node q).isAttribute ↔ q < d.contentStart p := by
  have h := isAttribute_run (d.nodes.drop (p + 1))
  simp only [node_drop] at h
  rw [contentStart] at hq ⊢
  constructor
  · intro ha
    by_contra hlt
    have hq : q = p + 1 + ((d.nodes.drop (p + 1)).takeWhile Node.isAttribute).length := by omega
    exact h.2 (hq ▸ ha)
  · intro hlt
    have := h.1 (q - (p + 1)) (by omega)
    rwa [show p + 1 + (q - (p + 1)) = q by omega] at this

namespace WellFormed
variable (w : d.WellFormed)
include w

theorem mem_children_iff {p c : Nat} (hp : p < d.length) (hc : (d.node p).isContainer) :
    c ∈ d.children p ↔ c < d.length ∧ d.parent? c = some p ∧ (d.node c).isChild := by
  rw [w.children_eq hp hc]
  simp

theorem contentStart_le_last {p : Nat} (hp : p < d.length) (hc : (d.node p).isContainer) :
    d.contentStart p ≤ d.last p := by
  obtain ⟨hlt, -, hf, -⟩ := w.paired hp hc
  by_contra hgt
  have hle : d.last p ≤ d.contentStart p := by omega
  have := (isAttribute_iff_lt_contentStart hlt hle).mpr (by omega)
  rw [hf] at this
  cases this

/-- A child stands in the content of its parent with all that belongs to it. -/
private theorem child_inside {p c : Nat} (hp : p < d.length) (hc : (d.node p).isContainer)
    (hm : c ∈ d.children p) : d.contentStart p ≤ c ∧ c ≤ d.last c ∧ d.last c < d.last p := by
  obtain ⟨hcl, hparent, hchild⟩ := (w.mem_children_iff hp hc).mp hm
  obtain ⟨⟨hpc, -, hcp⟩, -⟩ := (w.parent_iff hcl).mp hparent
  obtain ⟨-, -, hf, -⟩ := w.paired hp hc
  have hne : c ≠ d.last p := by
    rintro rfl
    rw [hf] at hchild
    cases hchild
  refine ⟨?_, ?_⟩
  · by_contra hgt
    have hle : c ≤ d.contentStart p := by omega
    have := (isAttribute_iff_lt_contentStart hpc hle).mpr (by omega)
    cases hn : d.node c <;> simp [hn, Node.isAttribute, Node.isChild] at this hchild
  · by_cases hk : (d.node c).isContainer
    · obtain ⟨hlt, -⟩ := w.paired hcl hk
      exact ⟨by omega, w.nested hcl hc hk hpc (by omega)⟩
    · have := (w.alone hcl hk).1
      omega

omit w in
private theorem contentStart_le_of_container {p b : Nat} (hpb : p < b)
    (hb : (d.node b).isContainer) : d.contentStart p ≤ b := by
  by_contra hgt
  have hle : b ≤ d.contentStart p := by omega
  have := (isAttribute_iff_lt_contentStart hpb hle).mpr (by omega)
  cases hn : d.node b <;> simp [hn, Node.isAttribute, Node.isContainer] at this hb

theorem le_last {q : Nat} (hq : q < d.length) : q ≤ d.last q := by
  by_cases hc : (d.node q).isContainer
  · exact Nat.le_of_lt (w.paired hq hc).1
  · exact Nat.le_of_eq (w.alone hq hc).1.symm

section
variable {p q c : Nat} (hc : (d.node p).isContainer) (hcl : c < d.length)
  (hsc : d.contentStart p ≤ c) (hcq : c ≤ q) (hqc : q ≤ d.last c) (hl : q < d.last p)
  (hmin : ∀ b < c, d.contentStart p ≤ b → d.last b < q)
include hcl hsc hcq hqc hmin

private theorem outermost_not_attribute : ¬(d.node c).isAttribute := by
  intro ha
  have hps : p < d.contentStart p := by
    rw [contentStart]
    omega
  obtain ⟨e, he, hk, hec, hrun⟩ := w.attribute_run hcl ha
  have hke : (d.node e).isContainer := by
    cases hn : d.node e <;> simp [hn, Node.isElement, Node.isContainer] at hk ⊢
  obtain ⟨⟨-, -, hle⟩, -⟩ := (w.parent_iff hcl).mp he
  have hlc := (w.alone hcl fun hk => by
    cases hn : d.node c <;> simp [hn, Node.isAttribute, Node.isContainer] at ha hk).1
  by_cases hse : d.contentStart p ≤ e
  · have := hmin e hec hse
    omega
  · have hstart := hrun (d.contentStart p) (by omega) hsc
    have := (isAttribute_iff_lt_contentStart hps (Nat.le_refl _)).mp hstart
    omega

include hc hl

private theorem outermost_not_finish : d.node c ≠ .finish := by
  intro hf
  have hlc := (w.alone hcl (by simp [hf, Node.isContainer])).1
  obtain ⟨e, hec, hke, hle⟩ := w.started hcl hf
  have hpe : p < e := by
    by_contra hep
    rcases Nat.eq_or_lt_of_le (Nat.not_lt.mp hep) with rfl | hep
    · omega
    · have hps : p < d.contentStart p := by
        rw [contentStart]
        omega
      have := w.nested (by omega) hke hc hep (by omega)
      omega
  have := hmin e hec (contentStart_le_of_container hpe hke)
  omega

private theorem outermost_parent : d.parent? c = some p := by
  have hps : p < d.contentStart p := by
    rw [contentStart]
    omega
  refine (w.parent_iff hcl).mpr ⟨⟨by omega, hc, by omega⟩, fun b hbc hkb hcb => ?_⟩
  by_contra hpb
  have hb := hmin b hbc (contentStart_le_of_container (by omega) hkb)
  obtain ⟨-, -, hfb, -⟩ := w.paired (by omega) hkb
  by_cases hkc : (d.node c).isContainer
  · have hne : c ≠ d.last b := by
      rintro hce
      rw [← hce] at hfb
      exact w.outermost_not_finish hc hcl hsc hcq hqc hl hmin hfb
    have := w.nested hcl hkb hkc hbc (by omega)
    omega
  · have := (w.alone hcl hkc).1
    omega

end

/-- Every position of the content belongs to a child: the outermost node of the content that reaches
to it. -/
private theorem exists_child {p q : Nat} (hp : p < d.length) (hc : (d.node p).isContainer)
    (hs : d.contentStart p ≤ q) (hl : q < d.last p) : ∃ c ∈ d.children p, c ≤ q ∧ q ≤ d.last c := by
  obtain ⟨-, hll, -⟩ := w.paired hp hc
  have hex : ∃ c, d.contentStart p ≤ c ∧ c ≤ q ∧ q ≤ d.last c :=
    ⟨q, hs, Nat.le_refl q, w.le_last (by omega)⟩
  obtain ⟨hsc, hcq, hqc⟩ := Nat.find_spec hex
  have hmin : ∀ b < Nat.find hex, d.contentStart p ≤ b → d.last b < q := by
    intro b hb hsb
    have := Nat.find_min hex hb
    omega
  generalize Nat.find hex = c at hsc hcq hqc hmin
  have hcl : c < d.length := by omega
  have hnot_attribute := w.outermost_not_attribute hcl hsc hcq hqc hmin
  have hnot_finish := w.outermost_not_finish hc hcl hsc hcq hqc hl hmin
  have hparent := w.outermost_parent hc hcl hsc hcq hqc hl hmin
  have hchild : (d.node c).isChild := by
    cases hn : d.node c <;>
      simp [hn, Node.isAttribute, Node.isChild] at hnot_attribute hnot_finish ⊢
  exact ⟨c, (w.mem_children_iff hp hc).mpr ⟨hcl, hparent, hchild⟩, hcq, hqc⟩

/-- The extents of the children of a container fill its content. -/
theorem exists_child_iff {p q : Nat} (hp : p < d.length) (hc : (d.node p).isContainer) :
    (∃ c ∈ d.children p, c ≤ q ∧ q ≤ d.last c) ↔ d.contentStart p ≤ q ∧ q < d.last p := by
  constructor
  · rintro ⟨c, hm, hcq, hqc⟩
    obtain ⟨hsc, -, hlc⟩ := w.child_inside hp hc hm
    omega
  · rintro ⟨hs, hl⟩
    exact w.exists_child hp hc hs hl

end WellFormed
end Document
end MarkupGraft
