import MarkupGraft.Proofs.Query.NodeSet
import MarkupGraft.Proofs.Template.Substitution

/-!
Nodes inside of others. What a step takes away when it clears a target is what stands in the content
of the target, or the target with all that belongs to it. For nodes that queries find this is told by
their ancestors, and it is the same in a later document as long as the target stands there unchanged.
-/

namespace MarkupGraft

/-- What is cleared at a target. -/
inductive Clearing where
  /-- What stands in the content; the attributes are not part of it. -/
  | content
  /-- The target with all that belongs to it. -/
  | whole

/-- What depends on the kind of a node alone. -/
theorem Node.kind_congr {m n : Node} (h : m.kind = n.kind) : m.isContainer = n.isContainer ∧
    (m = .document ↔ n = .document) ∧ (m = .finish ↔ n = .finish) := by
  cases m <;> cases n <;> cases h <;> simp [isContainer]

namespace Branch

/-- What a rewriting does elsewhere leaves a branch as it is, unless the branch is below the rewritten
node. -/
theorem Stands.rewriteAll {b : Branch} {bs : List Branch} {before after : List Entry}
    (h : Stands b bs before after) (r : Rewriting) {target : Nat} (ht : target ∉ idents b.entries) :
    (∃ before' after', Stands b (Branch.rewriteAll r target bs) before' after') ∨
      ∃ c before' after', Stands c bs before' after' ∧ c.ident = target ∧
        b.ident ∈ idents (entriesAll c.children) := by
  induction h with
  | here l r' =>
    have hb : Branch.rewriteAll r target [b] = [b] := rewriteAll_of_not_mem [b] (by simpa using ht)
    refine .inl ⟨entriesAll (Branch.rewriteAll r target l),
      entriesAll (Branch.rewriteAll r target r'), ?_⟩
    rw [← List.singleton_append, rewriteAll_append, rewriteAll_append, hb]
    exact .here _ _
  | @inside l r' ident name attributes children finish before after h ih =>
    by_cases htarget : ident = target
    · refine .inr ⟨_, _, _, .here l r', htarget, ?_⟩
      rw [Branch.children, h.entriesAll_eq]
      simp [b.ident_mem_entries]
    · rcases ih with ⟨before', after', hs⟩ | ⟨c, before', after', hs, hc, hmem⟩
      · have helement : Branch.rewriteAll r target
            [.element ident name attributes children finish] =
              [.element ident name (rewriteAttributes r target attributes)
                (Branch.rewriteAll r target children) finish] := by
          rw [Branch.rewriteAll, Branch.ident, if_neg htarget, rewriteInside]
          rfl
        refine .inl ?_
        rw [← List.singleton_append, rewriteAll_append, rewriteAll_append, helement]
        exact ⟨_, _, .inside _ _ hs⟩
      · exact .inr ⟨c, _, _, .inside l r' hs, hc, hmem⟩

end Branch

namespace Document
open Branch (Stands idents entriesAll)
variable (d : Document)

/-- The containers that a node is in, innermost first, or those whose content it is in: an attribute
is not in the content of its own element. -/
def around (c : Clearing) (position : Nat) : List Nat :=
  match c with
  | .content =>
    if (d.node position).isAttribute then (d.ancestors position).tail else d.ancestors position
  | .whole => d.ancestors position

/-- Whether clearing the node at `p` takes away the one at `q`. -/
def Clears (c : Clearing) (p q : Nat) : Prop :=
  match c with
  | .content => ∃ child ∈ d.children p, child ≤ q ∧ q ≤ d.last child
  | .whole => p ≤ q ∧ q ≤ d.last p

variable {d}

theorem IsQueried.ne_finish {q : Nat} (hq : d.IsQueried q) : d.node q ≠ .finish := by
  intro hfinish
  have hquery := hq.2
  rw [hfinish] at hquery
  cases hquery

namespace WellFormed
variable (w : d.WellFormed)
include w

/-! Ancestors -/

/-- A container that begins inside another one does not end it. -/
private theorem lt_last_of_container {p q : Nat} (hq : q < d.length) (hp : (d.node p).isContainer)
    (hc : (d.node q).isContainer) (hpq : p < q) (hl : q ≤ d.last p) : q < d.last p := by
  refine Nat.lt_of_le_of_ne hl fun he => ?_
  have hf := (w.paired (by omega) hp).2.2.1
  rw [← he] at hf
  rw [hf] at hc
  cases hc

theorem ancestors_eq_cons {q p : Nat} (hq : q < d.length) (hp : d.parent? q = some p) :
    d.ancestors q = p :: d.ancestors p := by
  rw [Document.ancestors, hp]
  exact if_pos (w.parent_spec hq hp).1

/-- The ancestors of a node are the containers that are open there. -/
theorem mem_ancestors_iff {p q : Nat} (hq : q < d.length) :
    p ∈ d.ancestors q ↔ p < q ∧ (d.node p).isContainer ∧ q ≤ d.last p := by
  induction q using Nat.strongRecOn with
  | ind q ih =>
    rcases Nat.eq_zero_or_pos q with rfl | hpos
    · rw [Document.ancestors, w.parent_zero]
      simp
    · obtain ⟨parent, hparent⟩ := w.exists_parent hq hpos
      obtain ⟨hlt, hc, hl⟩ := w.parent_spec hq hparent
      rw [w.ancestors_eq_cons hq hparent, List.mem_cons, ih parent hlt (by omega)]
      constructor
      · rintro (rfl | ⟨hpp, hk, hpl⟩)
        · exact ⟨hlt, hc, hl⟩
        · have := w.lt_last_of_container (by omega) hk hc hpp hpl
          have := w.last_inside (by omega) hpp this
          exact ⟨by omega, hk, by omega⟩
      · rintro ⟨hpq, hk, hpl⟩
        have := w.le_parent hq hparent hpq hk hpl
        rcases Nat.eq_or_lt_of_le this with rfl | hlt
        · exact .inl rfl
        · exact .inr ⟨hlt, hk, by omega⟩

omit w in
/-- What is no attribute stands behind the attributes of a node in front of it. -/
private theorem contentStart_le {p q : Nat} (hpq : p < q) (hq : ¬(d.node q).isAttribute) :
    d.contentStart p ≤ q := by
  by_contra hlt
  exact hq ((isAttribute_iff_lt_contentStart hpq (by omega)).mpr (by omega))

omit w in
private theorem lt_contentStart (p : Nat) : p < d.contentStart p := by
  rw [contentStart]
  omega

/-- Only a container has content, and it lies between the attributes and the end marker. -/
theorem clears_content_iff {p q : Nat} (hp : p < d.length) : d.Clears .content p q ↔
    (d.node p).isContainer ∧ d.contentStart p ≤ q ∧ q < d.last p := by
  by_cases hc : (d.node p).isContainer
  · rw [and_iff_right hc]
    exact w.exists_child_iff hp hc
  · refine iff_of_false ?_ fun h => hc h.1
    rintro ⟨child, hchild, -⟩
    rw [(w.alone hp hc).2] at hchild
    cases hchild

/-- A node that queries find is in the content of another one when that one is among those around
it. -/
theorem mem_around_content_iff {p q : Nat} (hp : p < d.length) (hq : d.IsQueried q) :
    p ∈ d.around .content q ↔ d.Clears .content p q := by
  rw [w.clears_content_iff hp, around]
  by_cases ha : (d.node q).isAttribute
  · obtain ⟨e, hparent, helement, heq, hrun⟩ := w.attribute_run hq.1 ha
    have he : e < d.length := Nat.lt_trans heq hq.1
    obtain ⟨-, hk, hqe⟩ := w.parent_spec hq.1 hparent
    simp only [ha, if_true]
    rw [w.ancestors_eq_cons hq.1 hparent, List.tail_cons, w.mem_ancestors_iff he]
    constructor
    · rintro ⟨hpe, hc, hep⟩
      have hep := w.lt_last_of_container he hc hk hpe hep
      have hle := contentStart_le hpe (by
        cases hn : d.node e <;> simp [hn, Node.isElement, Node.isAttribute] at helement ⊢)
      have := w.last_inside he hpe hep
      exact ⟨hc, by omega, by omega⟩
    · rintro ⟨hc, hs, hl⟩
      have hlt := lt_contentStart (d := d) p
      have hne : p ≠ e := by
        rintro rfl
        have := (isAttribute_iff_lt_contentStart hlt (Nat.le_refl _)).mp (hrun _ hlt hs)
        omega
      have := w.le_parent hq.1 hparent (by omega) hc (by omega)
      exact ⟨by omega, hc, by omega⟩
  · have hwalk : q ∈ d.walk := (isQueried_iff.mp hq).resolve_right fun h => ha h.2
    simp only [ha]
    rw [if_neg Bool.false_ne_true, w.mem_ancestors_iff hq.1]
    constructor
    · rintro ⟨hlt, hc, hl⟩
      exact ⟨hc, contentStart_le hlt ha, w.ne_last hwalk hlt hl⟩
    · rintro ⟨hc, hs, hl⟩
      exact ⟨Nat.lt_of_lt_of_le (lt_contentStart p) hs, hc, Nat.le_of_lt hl⟩

/-- A node that queries find is cleared with another one when that one is around it. -/
theorem mem_around_iff {c : Clearing} {p q : Nat} (hp : p < d.length) (hq : d.IsQueried q) :
    p ∈ d.around c q ↔ p < q ∧ d.Clears c p q := by
  cases c with
  | content =>
    rw [w.mem_around_content_iff hp hq]
    refine (and_iff_right_of_imp fun h => ?_).symm
    exact Nat.lt_of_lt_of_le (lt_contentStart p) ((w.clears_content_iff hp).mp h).2.1
  | whole =>
    rw [around, w.mem_ancestors_iff hq.1, Clears]
    constructor
    · rintro ⟨hlt, -, hl⟩
      exact ⟨hlt, by omega, hl⟩
    · rintro ⟨hlt, -, hl⟩
      exact ⟨hlt, w.isContainer_of_lt_last hp (by omega), hl⟩

/-- What is in the content of a node is cleared with it. -/
theorem clears_of_content {c : Clearing} {p q : Nat} (hp : p < d.length)
    (h : d.Clears .content p q) : d.Clears c p q := by
  cases c with
  | content => exact h
  | whole =>
    obtain ⟨-, hs, hl⟩ := (w.clears_content_iff hp).mp h
    exact ⟨Nat.le_of_lt (Nat.lt_of_lt_of_le (lt_contentStart p) hs), Nat.le_of_lt hl⟩

/-- What is cleared with a node that is cleared is cleared itself. -/
theorem clears_trans {c : Clearing} {p q r : Nat} (hp : p < d.length) (hq : q < d.length)
    (hpq : d.Clears c p q) (hqr : d.Clears c q r) : d.Clears c p r := by
  have hlast {p : Nat} (hp : p < d.length) (hpq : p ≤ q) (hql : q ≤ d.last p) :
      d.last q ≤ d.last p := by
    rcases Nat.eq_or_lt_of_le hpq with rfl | hpq
    · exact Nat.le_refl _
    · rcases Nat.eq_or_lt_of_le hql with he | hql
      · have hc := w.isContainer_of_lt_last hp (by omega)
        have hf := (w.paired hp hc).2.2.1
        rw [← he] at hf
        rw [(w.alone hq (by rw [hf]; exact Bool.false_ne_true)).1]
        omega
      · exact Nat.le_of_lt (w.last_inside hq hpq hql)
  cases c with
  | content =>
    obtain ⟨child, hchild, hle, hl⟩ := hpq
    obtain ⟨-, hs, hr⟩ := (w.clears_content_iff hq).mp hqr
    have := hlast (w.lt_length_of_mem_children hp hchild) hle hl
    have := lt_contentStart (d := d) q
    exact ⟨child, hchild, by omega, by omega⟩
  | whole =>
    have := hlast hp hpq.1 hpq.2
    exact ⟨Nat.le_trans hpq.1 hqr.1, Nat.le_trans hqr.2 this⟩

/-! Branches -/

/-- The content of a branch holds the nodes that have the identities of what is below it. -/
theorem mem_content_iff {b : Branch} {before after : List Entry}
    (hs : Stands b d.tree.children before after) {h : Handle} {q : Nat}
    (hq : d.locate? h = some q) :
    d.Clears .content (before.length + 1) q ↔ h.ident ∈ idents (entriesAll b.children) := by
  rw [w.clears_content_iff (w.lt_of_stands hs)]
  cases b with
  | element ident name attributes children finish =>
    have hentries := w.entries_of_element hs
    obtain ⟨hstart, hlast⟩ := content_range rfl rfl hentries
    have hrun : d.entries = ((⟨.document, d.tree.ident⟩ :: before) ++ ⟨.element name, ident⟩ ::
        attributes.map OwnedAttribute.entry) ++
          (entriesAll children ++ ⟨.finish, finish⟩ :: (after ++ [⟨.finish, d.tree.finish⟩])) := by
      rw [hentries]
      simp
    rw [Branch.children, ← w.mem_run_iff hrun hq, w.node_of_element hs,
      and_iff_right (show (Node.element name).isContainer from rfl)]
    simp only [List.length_cons, List.length_append, List.length_map] at hstart hlast ⊢
    omega
  | leaf ident kind value =>
    rw [w.node_of_leaf hs]
    cases kind <;> simp [LeafKind.node, Node.isContainer, Branch.children, entriesAll, idents]

/-- A rewriting of one node leaves the branches behind it as they are that are not in its content. -/
theorem exists_stands_rewrite {b : Branch} {before after : List Entry}
    (hs : Stands b d.tree.children before after) (r : Rewriting) {target : Handle} {p : Nat}
    (hp : d.locate? target = some p) (hlt : p < before.length + 1)
    (hcontent : ¬ d.Clears .content p (before.length + 1)) :
    ∃ before' after', Stands b (d.tree.rewrite target.ident r).children before' after' := by
  have ht : target.ident ∉ idents b.entries := fun h =>
    Nat.not_le_of_lt hlt ((w.mem_extent_iff hs hp).mpr h).1
  refine (hs.rewriteAll r ht).resolve_right ?_
  rintro ⟨c, before', after', hc, hident, hmem⟩
  have hlocated := w.locate?_of_stands hc
  have hid := ((locate?_eq_some_iff w.nodup).mp hp).1
  have hc' : target = ⟨d.id, c.ident⟩ := by rw [hident, ← hid]
  rw [← hc', hp] at hlocated
  rw [Option.some.inj hlocated] at hcontent
  exact hcontent ((w.mem_content_iff hc (w.locate?_of_stands hs)).mpr hmem)

/-- All that is inside of the root is in its content. -/
theorem clears_content_root_iff {q : Nat} (hq : q < d.length) (hfinish : d.node q ≠ .finish) :
    d.Clears .content 0 q ↔ q ≠ 0 := by
  have hlast := w.last_root
  have hroot : (d.node 0).isContainer := by rw [w.node_of_root]; rfl
  have hne : q ≠ d.last 0 := by
    rintro rfl
    exact hfinish (w.paired (by omega) hroot).2.2.1
  have hstart := (content_range rfl rfl w.entries_of_root).1
  simp only [List.length_nil] at hstart
  rw [w.clears_content_iff (by omega), hstart, and_iff_right hroot]
  omega

theorem clears_whole_root {q : Nat} (hq : q < d.length) : d.Clears .whole 0 q := by
  have := w.last_root
  exact ⟨Nat.zero_le q, by omega⟩

/-- What is no container clears itself at most. -/
theorem clears_iff_of_alone {c : Clearing} {p q : Nat} (hp : p < d.length)
    (hc : ¬(d.node p).isContainer) : d.Clears c p q ↔ c = .whole ∧ q = p := by
  obtain ⟨hlast, hchildren⟩ := w.alone hp hc
  cases c with
  | content => simp [Clears, hchildren]
  | whole =>
    simp only [Clears, hlast, true_and]
    omega

end WellFormed

/-! Later documents -/

section
variable {d' : Document} {gone : Handle → Prop} {value : Handle → String → String}
  {h k : Handle} {p p' q q' : Nat}

/-- Two nodes that stay are the same node later just if they were it before. -/
theorem Follows.eq_iff (hf : d.Follows d' gone value) (w : d.WellFormed)
    (hp : d.locate? k = some p) (hp' : d'.locate? k = some p') (hq : d.locate? h = some q)
    (hq' : d'.locate? h = some q') : q' = p' ↔ q = p := by
  rcases Nat.lt_trichotomy p q with hlt | rfl | hlt
  · have := hf.ordered hp hq hp' hq' hlt
    omega
  · obtain ⟨hid, e, he, hident⟩ := (locate?_eq_some_iff w.nodup).mp hp
    obtain ⟨hid', e', he', hident'⟩ := (locate?_eq_some_iff w.nodup).mp hq
    obtain rfl := Option.some.inj (he.symm.trans he')
    have hsame : k = h := by
      cases k
      cases h
      simp_all
    subst hsame
    simpa using Option.some.inj (hq'.symm.trans hp')
  · have := hf.ordered hq hp hq' hp' hlt
    omega

/-- A node clears in a later document what it cleared before, if it still stands there as a branch or
is none. -/
theorem Follows.clears_iff (hf : d.Follows d' gone value) (w : d.WellFormed) (w' : d'.WellFormed)
    {c : Clearing} (hp : d.locate? k = some p) (hp' : d'.locate? k = some p')
    (hq : d.locate? h = some q) (hq' : d'.locate? h = some q') (hfinish : d.node q ≠ .finish)
    (hstands : ∀ b before after, Stands b d.tree.children before after → before.length + 1 = p →
      ∃ before' after', Stands b d'.tree.children before' after') :
    d'.Clears c p' q' ↔ d.Clears c p q := by
  have hlt := w.lt_length_of_locate? hp
  have hlt' := w'.lt_length_of_locate? hp'
  obtain ⟨hcontainer, hdocument, -⟩ := Node.kind_congr (hf.node hp hp').1
  by_cases hc : (d.node p).isContainer
  · by_cases hroot : d.node p = .document
    · obtain rfl := (w.document_iff hlt).mp hroot
      obtain rfl := (w'.document_iff hlt').mp (hdocument.mpr hroot)
      have hq₁ := w.lt_length_of_locate? hq
      have hq₁' := w'.lt_length_of_locate? hq'
      cases c with
      | content =>
        have hfinish' := mt (Node.kind_congr (hf.node hq hq').1).2.2.mp hfinish
        rw [w.clears_content_root_iff hq₁ hfinish, w'.clears_content_root_iff hq₁' hfinish']
        exact not_congr (hf.eq_iff w hp hp' hq hq')
      | whole => exact iff_of_true (w'.clears_whole_root hq₁') (w.clears_whole_root hq₁)
    · have hchild : (d.node p).isChild := by
        cases hn : d.node p <;> simp_all [Node.isContainer, Node.isChild]
      obtain ⟨b, before, after, hs, -, rfl⟩ := w.exists_stands (w.found hp) hchild hroot
      obtain ⟨before', after', hs'⟩ := hstands b before after hs rfl
      have hlocated := w'.locate?_of_stands hs'
      rw [hf.id_eq] at hlocated
      obtain rfl := (hf.eq_iff w (w.locate?_of_stands hs) hlocated hp hp').mpr rfl
      cases c with
      | content => rw [w.mem_content_iff hs hq, w'.mem_content_iff hs' hq']
      | whole => exact (w'.mem_extent_iff hs' hq').trans (w.mem_extent_iff hs hq).symm
  · rw [w.clears_iff_of_alone hlt hc, w'.clears_iff_of_alone hlt' (hcontainer ▸ hc),
      hf.eq_iff w hp hp' hq hq']

end

end Document
end MarkupGraft
