import Mathlib.Data.List.Forall2
import Mathlib.Data.List.GetD
import Mathlib.Data.Nat.Init
import MarkupGraft.Store.Outline

/-!
The outline of a sequence whose end markers match its containers. Reading forward and reading
backward agree on what is open: each container open at a position is paired with a content whose
end marker lies behind it.
-/

namespace MarkupGraft.Outline
variable (nodes : List Node)

/-- The containers open behind a node, innermost first. -/
def enter (opened : List Nat) (position : Nat) : Node → List Nat
  | .document | .element _ => position :: opened
  | .finish => opened.tail
  | _ => opened

/-- The containers open behind a run of nodes. -/
def openedFrom (opened : List Nat) (position : Nat) : List Node → List Nat
  | [] => opened
  | node :: nodes => openedFrom (enter opened position node) (position + 1) nodes

/-- Every end marker of the run ends an open container, and at the end nothing is open. -/
def Closes : Nat → List Node → Prop
  | depth, [] => depth = 0
  | depth, .document :: nodes | depth, .element _ :: nodes => Closes (depth + 1) nodes
  | depth, .finish :: nodes => 0 < depth ∧ Closes (depth - 1) nodes
  | depth, _ :: nodes => Closes depth nodes

def nodeAt (position : Nat) : Node := nodes.getD position default

def placeAt (position : Nat) : Place := (ofNodes nodes).getD position ⟨none, position, []⟩

/-- The containers open in front of a position, innermost first. -/
def openedAt (position : Nat) : List Nat := openedFrom [] 0 (nodes.take position)

def contentsAt (position : Nat) : List Content × List Content :=
  contentsFrom position (nodes.drop position)

/-- The positions from `start` on whose innermost container is the one at `container`, attributes
and end markers left out. -/
def childrenFrom (start container : Nat) : List Nat :=
  (List.range' start (nodes.length - start)).filter fun p =>
    (openedAt nodes p).head? = some container ∧ (nodeAt nodes p).isChild

/-! Reading forward -/

theorem openedFrom_append (opened : List Nat) (position : Nat) (l m : List Node) :
    openedFrom opened position (l ++ m) =
      openedFrom (openedFrom opened position l) (position + l.length) m := by
  induction l generalizing opened position with
  | nil => rfl
  | cons node l ih =>
    simp only [List.cons_append, openedFrom, ih, List.length_cons]
    congr 1
    omega

variable {nodes}

theorem drop_eq_nodeAt_cons {position : Nat} (h : position < nodes.length) :
    nodes.drop position = nodeAt nodes position :: nodes.drop (position + 1) := by
  rw [List.drop_eq_getElem_cons h, nodeAt, List.getD_eq_getElem _ _ h]

theorem openedAt_succ {position : Nat} (h : position < nodes.length) :
    openedAt nodes (position + 1) =
      enter (openedAt nodes position) position (nodeAt nodes position) := by
  rw [openedAt, List.take_succ_eq_append_getElem h, openedFrom_append, nodeAt,
    List.getD_eq_getElem _ _ h]
  simp [openedFrom, openedAt, Nat.min_eq_left (Nat.le_of_lt h)]

theorem parentsFrom_cons (opened : List Nat) (position : Nat) (node : Node) :
    parentsFrom opened position (node :: nodes) =
      opened.head? :: parentsFrom (enter opened position node) (position + 1) nodes := by
  cases node <;> rfl

theorem parentsFrom_getElem? (opened : List Nat) (start k : Nat) (h : k < nodes.length) :
    (parentsFrom opened start nodes)[k]? =
      some (openedFrom opened start (nodes.take k)).head? := by
  induction nodes generalizing opened start k with
  | nil => simp at h
  | cons node nodes ih =>
    rw [parentsFrom_cons]
    cases k with
    | zero => rfl
    | succ k =>
      rw [List.getElem?_cons_succ, ih _ _ _ (by simpa using h)]
      rfl

theorem closes_drop (h : Closes 0 nodes) {position : Nat} (hp : position ≤ nodes.length) :
    Closes (openedAt nodes position).length (nodes.drop position) := by
  induction position with
  | zero => exact h
  | succ position ih =>
    have hc := ih (by omega)
    rw [drop_eq_nodeAt_cons hp] at hc
    rw [openedAt_succ hp]
    cases hn : nodeAt nodes position <;> simp_all [Closes, enter]

/-- Nothing is open behind the last node. -/
theorem openedAt_length (h : Closes 0 nodes) : openedAt nodes nodes.length = [] := by
  have hc := closes_drop h (Nat.le_refl _)
  simpa [Closes] using hc

theorem openedAt_ne_nil (h : Closes 0 nodes) {position : Nat} (hp : position < nodes.length)
    (hf : nodeAt nodes position = .finish) : openedAt nodes position ≠ [] := by
  have hc := closes_drop h (Nat.le_of_lt hp)
  rw [drop_eq_nodeAt_cons hp, hf] at hc
  exact List.length_pos_iff.mp hc.1

theorem openedAt_spec {position : Nat} (h : position ≤ nodes.length) :
    (openedAt nodes position).Pairwise (· > ·) ∧
      ∀ c ∈ openedAt nodes position, c < position ∧ (nodeAt nodes c).isContainer := by
  induction position with
  | zero => simp [openedAt, openedFrom]
  | succ position ih =>
    obtain ⟨hs, hm⟩ := ih (by omega)
    rw [openedAt_succ h]
    cases hn : nodeAt nodes position with
    | document | element =>
      refine ⟨List.pairwise_cons.mpr ⟨fun c hc => (hm c hc).1, hs⟩, fun c hc => ?_⟩
      rcases List.mem_cons.mp hc with rfl | hc
      · exact ⟨by omega, by simp [hn, Node.isContainer]⟩
      · exact ⟨by have := (hm c hc).1; omega, (hm c hc).2⟩
    | finish =>
      refine ⟨hs.sublist (List.tail_sublist _), fun c hc => ?_⟩
      have := hm c (List.mem_of_mem_tail hc)
      exact ⟨by omega, this.2⟩
    | _ =>
      refine ⟨hs, fun c hc => ?_⟩
      have := hm c hc
      exact ⟨by omega, this.2⟩

/-- A container that is open later was open all the time. -/
theorem mem_openedAt_of_le {c p q : Nat} (hcp : c < p) (hpq : p ≤ q) (hq : q ≤ nodes.length)
    (h : c ∈ openedAt nodes q) : c ∈ openedAt nodes p := by
  induction q, hpq using Nat.le_induction with
  | base => exact h
  | succ q hpq ih =>
    refine ih (by omega) ?_
    rw [openedAt_succ hq] at h
    cases hn : nodeAt nodes q with
    | document | element =>
      rw [hn] at h
      rcases List.mem_cons.mp h with rfl | h
      · omega
      · exact h
    | finish =>
      rw [hn] at h
      exact List.mem_of_mem_tail h
    | _ => rwa [hn] at h

/-! Reading backward -/

/-- What is known at `start` of the content of the container at `container`: its end marker lies
behind, and the children from `start` on have been collected. -/
structure Content.Of (nodes : List Node) (start container : Nat) (content : Content) : Prop where
  le_last : start ≤ content.last
  last_lt : content.last < nodes.length
  finish : nodeAt nodes content.last = .finish
  parent : (openedAt nodes content.last).head? = some container
  children : content.children = childrenFrom nodes start container

theorem childrenFrom_step {start : Nat} (h : start < nodes.length) (container : Nat) :
    childrenFrom nodes start container =
      if (openedAt nodes start).head? = some container ∧ (nodeAt nodes start).isChild then
        start :: childrenFrom nodes (start + 1) container
      else childrenFrom nodes (start + 1) container := by
  rw [childrenFrom, show nodes.length - start = (nodes.length - (start + 1)) + 1 by omega,
    List.range'_succ, List.filter_cons]
  simp [childrenFrom]

private theorem forall₂_skip {start : Nat} {opened : List Nat} {contents : List Content}
    (hm : List.Forall₂ (Content.Of nodes (start + 1)) opened contents)
    (hn : ∀ c ∈ opened,
      ¬((openedAt nodes start).head? = some c ∧ (nodeAt nodes start).isChild)) :
    List.Forall₂ (Content.Of nodes start) opened contents := by
  refine ((List.forall₂_and_left opened contents).mpr ⟨hn, hm⟩).imp fun c content h => ?_
  obtain ⟨hc, h⟩ := h
  have hl := h.le_last
  have hlt := h.last_lt
  refine ⟨by omega, hlt, h.finish, h.parent, ?_⟩
  have hs : start < nodes.length := by omega
  rw [h.children, childrenFrom_step hs, if_neg hc]

/-- A child in front of the contents belongs to the innermost one. -/
private theorem forall₂_addChild {start : Nat} (h : start < nodes.length) {contents : List Content}
    (hm : List.Forall₂ (Content.Of nodes (start + 1)) (openedAt nodes start) contents)
    (hc : (nodeAt nodes start).isChild) :
    List.Forall₂ (Content.Of nodes start) (openedAt nodes start) (addChild start contents) := by
  have hs := (openedAt_spec (Nat.le_of_lt h)).1
  cases ho : openedAt nodes start with
  | nil =>
    rw [ho] at hm
    cases hm
    exact .nil
  | cons c opened =>
    rw [ho] at hm hs
    cases hm with
    | cons hk hm =>
      refine .cons ⟨?_, hk.last_lt, hk.finish, hk.parent, ?_⟩ (forall₂_skip hm fun b hb => ?_)
      · exact Nat.le_of_succ_le hk.le_last
      · simp [childrenFrom_step h, ho, hc, hk.children]
      · have := List.rel_of_pairwise_cons hs hb
        simp only [ho, List.head?_cons, Option.some.injEq]
        omega

/-- Behind its end marker a container has no children. -/
private theorem childrenFrom_finish {start c : Nat} {opened : List Nat} (h : start < nodes.length)
    (hn : nodeAt nodes start = .finish) (ho : openedAt nodes start = c :: opened) :
    childrenFrom nodes start c = [] := by
  obtain ⟨hs, hm⟩ := openedAt_spec (Nat.le_of_lt h)
  rw [ho] at hs hm
  rw [childrenFrom, List.filter_eq_nil_iff]
  intro p hp
  rw [List.mem_range'_1] at hp
  simp only [decide_eq_true_eq, not_and]
  intro hh hchild
  rcases Nat.eq_or_lt_of_le hp.1 with rfl | hlt
  · simp [hn, Node.isChild] at hchild
  · have hc : c < start := (hm c List.mem_cons_self).1
    have := mem_openedAt_of_le (p := start + 1) (by omega) hlt (by omega) (List.mem_of_head? hh)
    rw [openedAt_succ h, hn, ho] at this
    exact Nat.lt_irrefl _ (List.rel_of_pairwise_cons hs this)

private theorem contentsAt_eq {start : Nat} (h : start < nodes.length) :
    contentsAt nodes start =
      contentsFrom start (nodeAt nodes start :: nodes.drop (start + 1)) := by
  rw [contentsAt, drop_eq_nodeAt_cons h]

/-- Reading backward up to a position leaves one content for each container open there. -/
theorem contents_match (hc : Closes 0 nodes) {start : Nat} (hs : start ≤ nodes.length) :
    List.Forall₂ (Content.Of nodes start) (openedAt nodes start) (contentsAt nodes start).2 := by
  induction hs using Nat.decreasingInduction with
  | self =>
    rw [openedAt_length hc, contentsAt, List.drop_length]
    exact .nil
  | of_succ start h ih =>
    have hsorted := (openedAt_spec (Nat.le_of_lt h)).1
    have hsucc := openedAt_succ h
    rw [contentsAt_eq h]
    cases hn : nodeAt nodes start with
    | document | element =>
      rw [hsucc, hn] at ih
      simp only [contentsFrom]
      rw [enter] at ih
      obtain ⟨k, ks, hk, hks, he⟩ := List.forall₂_cons_left_iff.mp ih
      rw [contentsAt] at he
      simp only [he]
      exact forall₂_addChild h hks (by simp [hn, Node.isChild])
    | finish =>
      obtain ⟨c, opened, ho⟩ := List.exists_cons_of_ne_nil (openedAt_ne_nil hc h hn)
      rw [hsucc, hn, ho, enter, List.tail_cons] at ih
      rw [ho] at hsorted ⊢
      refine .cons ⟨Nat.le_refl _, h, hn, by rw [ho]; rfl, ?_⟩
        (forall₂_skip ih fun b _ => by simp [hn, Node.isChild])
      exact (childrenFrom_finish h hn ho).symm
    | «attribute» =>
      rw [hsucc, hn, enter] at ih
      · exact forall₂_skip ih fun b _ => by simp [hn, Node.isChild]
      all_goals simp
    | _ =>
      rw [hsucc, hn, enter] at ih
      · exact forall₂_addChild h ih (by simp [hn, Node.isChild])
      all_goals simp

/-! Places -/

/-- The content found at the head of a run. -/
def headContent (start : Nat) (nodes : List Node) : Content :=
  (contentsFrom start nodes).1.headD ⟨start, []⟩

private theorem contentsFrom_cons (start : Nat) (node : Node) (nodes : List Node) :
    (contentsFrom start (node :: nodes)).1 =
      headContent start (node :: nodes) :: (contentsFrom (start + 1) nodes).1 := by
  cases node with
  | document | element =>
    simp only [headContent, contentsFrom]
    split <;> rfl
  | _ => rfl

private theorem contentsFrom_getElem? (start k : Nat) (nodes : List Node) (h : k < nodes.length) :
    (contentsFrom start nodes).1[k]? = some (headContent (start + k) (nodes.drop k)) := by
  induction nodes generalizing start k with
  | nil => simp at h
  | cons node nodes ih =>
    rw [contentsFrom_cons]
    cases k with
    | zero => rfl
    | succ k =>
      rw [List.getElem?_cons_succ, ih _ _ (by simpa using h), List.drop_succ_cons]
      congr 2
      omega

private theorem length_parentsFrom (opened : List Nat) (position : Nat) (nodes : List Node) :
    (parentsFrom opened position nodes).length = nodes.length := by
  induction nodes generalizing opened position with
  | nil => rfl
  | cons node nodes ih => rw [parentsFrom_cons, List.length_cons, List.length_cons, ih]

private theorem length_contentsFrom (start : Nat) (nodes : List Node) :
    (contentsFrom start nodes).1.length = nodes.length := by
  induction nodes generalizing start with
  | nil => rfl
  | cons node nodes ih => rw [contentsFrom_cons, List.length_cons, List.length_cons, ih]

/-- Every node has a place. -/
theorem length_ofNodes (nodes : List Node) : (ofNodes nodes).length = nodes.length := by
  rw [ofNodes, List.length_zipWith, length_parentsFrom, length_contentsFrom, Nat.min_self]

theorem placeAt_eq {position : Nat} (h : position < nodes.length) :
    placeAt nodes position =
      ⟨(openedAt nodes position).head?, (headContent position (nodes.drop position)).last,
        (headContent position (nodes.drop position)).children⟩ := by
  have hp := parentsFrom_getElem? [] 0 position h
  have hk := contentsFrom_getElem? 0 position nodes h
  rw [Nat.zero_add] at hk
  rw [placeAt, List.getD_eq_getElem?_getD, ofNodes, List.getElem?_zipWith, hp, hk]
  rfl

@[simp] theorem placeAt_parent {position : Nat} (h : position < nodes.length) :
    (placeAt nodes position).parent? = (openedAt nodes position).head? := by
  rw [placeAt_eq h]

/-- What is not a container ends where it begins and has no children. -/
theorem placeAt_of_not_container {position : Nat} (h : position < nodes.length)
    (hn : ¬(nodeAt nodes position).isContainer) :
    (placeAt nodes position).last = position ∧ (placeAt nodes position).children = [] := by
  rw [placeAt_eq h, drop_eq_nodeAt_cons h]
  cases hk : nodeAt nodes position <;> simp_all [headContent, contentsFrom, Node.isContainer]

/-- The place of a container is told by its end marker and its children. -/
theorem placeAt_of_container (hc : Closes 0 nodes) {position : Nat} (h : position < nodes.length)
    (hn : (nodeAt nodes position).isContainer) :
    Content.Of nodes (position + 1) position
      ⟨(placeAt nodes position).last, (placeAt nodes position).children⟩ := by
  have hm := contents_match hc (Nat.succ_le_of_lt h)
  rw [openedAt_succ h] at hm
  rw [placeAt_eq h, drop_eq_nodeAt_cons h]
  cases hk : nodeAt nodes position with
  | document | element =>
    rw [hk, enter] at hm
    obtain ⟨k, ks, hof, -, he⟩ := List.forall₂_cons_left_iff.mp hm
    rw [contentsAt] at he
    simpa only [headContent, contentsFrom, he, List.headD_cons] using hof
  | _ => simp [hk, Node.isContainer] at hn

/-! Nesting -/

section
variable (hc : Closes 0 nodes) {c p q : Nat}
include hc

theorem head?_openedAt_last (hn : c < nodes.length) (hk : (nodeAt nodes c).isContainer) :
    (openedAt nodes (placeAt nodes c).last).head? = some c :=
  (placeAt_of_container hc hn hk).parent

/-- Behind its end marker a container is not open. -/
theorem not_mem_openedAt_of_last_lt (hn : c < nodes.length) (hk : (nodeAt nodes c).isContainer)
    (hq : q ≤ nodes.length) (h : (placeAt nodes c).last < q) : c ∉ openedAt nodes q := by
  obtain ⟨hle, hlt, hf, hh, -⟩ := placeAt_of_container hc hn hk
  simp only at hle hlt hf hh
  intro hm
  have hs := (openedAt_spec (Nat.le_of_lt hlt)).1
  have hm := mem_openedAt_of_le (p := (placeAt nodes c).last + 1) (by omega) h hq hm
  rw [openedAt_succ hlt, hf] at hm
  cases ho : openedAt nodes (placeAt nodes c).last with
  | nil => simp [ho] at hh
  | cons b opened =>
    rw [ho] at hh hs hm
    cases hh
    exact Nat.lt_irrefl _ (List.rel_of_pairwise_cons hs hm)

/-- A container is open from the node behind it up to its end marker. -/
theorem mem_openedAt_iff (hn : c < nodes.length) (hk : (nodeAt nodes c).isContainer)
    (hq : q ≤ nodes.length) :
    c ∈ openedAt nodes q ↔ c < q ∧ q ≤ (placeAt nodes c).last := by
  constructor
  · intro h
    refine ⟨((openedAt_spec hq).2 c h).1, Nat.le_of_not_lt fun hlt => ?_⟩
    exact not_mem_openedAt_of_last_lt hc hn hk hq hlt h
  · intro ⟨hcq, hql⟩
    have hl := (placeAt_of_container hc hn hk).last_lt
    exact mem_openedAt_of_le hcq hql (Nat.le_of_lt hl)
      (List.mem_of_head? (head?_openedAt_last hc hn hk))

/-- A container that begins inside another one ends inside it. -/
theorem last_lt_last (hp : (nodeAt nodes p).isContainer) (hq : (nodeAt nodes q).isContainer)
    (hn : q < nodes.length) (hpq : p < q) (hql : q < (placeAt nodes p).last) :
    (placeAt nodes q).last < (placeAt nodes p).last := by
  have hpn : p < nodes.length := by omega
  have hof := placeAt_of_container hc hpn hp
  refine Nat.lt_of_not_le fun hle => ?_
  have hm := (mem_openedAt_iff hc hn hq (Nat.le_of_lt hof.last_lt)).mpr ⟨hql, hle⟩
  have hs := (openedAt_spec (Nat.le_of_lt hof.last_lt)).1
  cases ho : openedAt nodes (placeAt nodes p).last with
  | nil => simp [ho] at hm
  | cons b opened =>
    have hh := head?_openedAt_last hc hpn hp
    rw [ho] at hh hs hm
    cases hh
    rcases List.mem_cons.mp hm with rfl | hm
    · omega
    · have := List.rel_of_pairwise_cons hs hm
      omega

/-- An end marker is the one of the innermost container. -/
theorem last_of_finish (hn : q < nodes.length) (hf : nodeAt nodes q = .finish) :
    ∃ c, (openedAt nodes q).head? = some c ∧ c < q ∧ (nodeAt nodes c).isContainer ∧
      (placeAt nodes c).last = q := by
  obtain ⟨c, opened, ho⟩ := List.exists_cons_of_ne_nil (openedAt_ne_nil hc hn hf)
  obtain ⟨hs, hm⟩ := openedAt_spec (Nat.le_of_lt hn)
  have hco : c ∈ openedAt nodes q := by simp [ho]
  obtain ⟨hcq, hk⟩ := hm c hco
  have hcn : c < nodes.length := by omega
  have hle := ((mem_openedAt_iff hc hcn hk (Nat.le_of_lt hn)).mp hco).2
  refine ⟨c, by rw [ho]; rfl, hcq, hk, Nat.le_antisymm (Nat.le_of_not_lt fun hlt => ?_) hle⟩
  have hm := (mem_openedAt_iff hc hcn hk (q := q + 1) hn).mpr ⟨by omega, hlt⟩
  rw [openedAt_succ hn, hf, ho] at hm
  rw [ho] at hs
  exact Nat.lt_irrefl _ (List.rel_of_pairwise_cons hs hm)

/-- The parent of a node is the innermost container that is open there. -/
theorem head?_openedAt_eq_some_iff (hq : q < nodes.length) :
    (openedAt nodes q).head? = some c ↔
      (c < q ∧ (nodeAt nodes c).isContainer ∧ q ≤ (placeAt nodes c).last) ∧
        ∀ b, b < q → (nodeAt nodes b).isContainer → q ≤ (placeAt nodes b).last → b ≤ c := by
  have hq' := Nat.le_of_lt hq
  obtain ⟨hs, hm⟩ := openedAt_spec hq'
  have hopen {b : Nat} (hb : b < q) (hk : (nodeAt nodes b).isContainer) :
      b ∈ openedAt nodes q ↔ q ≤ (placeAt nodes b).last := by
    rw [mem_openedAt_iff hc (by omega) hk hq']
    simp [hb]
  constructor
  · intro h
    obtain ⟨hcq, hk⟩ := hm c (List.mem_of_head? h)
    refine ⟨⟨hcq, hk, (hopen hcq hk).mp (List.mem_of_head? h)⟩, fun b hb hkb hbl => ?_⟩
    have hb := (hopen hb hkb).mpr hbl
    cases ho : openedAt nodes q with
    | nil => simp [ho] at h
    | cons a opened =>
      rw [ho] at h hs hb
      cases h
      rcases List.mem_cons.mp hb with rfl | hb
      · exact Nat.le_refl _
      · exact Nat.le_of_lt (List.rel_of_pairwise_cons hs hb)
  · intro ⟨⟨hcq, hk, hcl⟩, hmax⟩
    have hco := (hopen hcq hk).mpr hcl
    cases ho : openedAt nodes q with
    | nil => simp [ho] at hco
    | cons a opened =>
      have ha : a ∈ openedAt nodes q := by simp [ho]
      obtain ⟨haq, hka⟩ := hm a ha
      have hle := hmax a haq hka ((hopen haq hka).mp ha)
      rw [ho] at hs hco
      rcases List.mem_cons.mp hco with rfl | hco
      · rfl
      · have := List.rel_of_pairwise_cons hs hco
        omega

/-- The children of a container are the nodes whose parent it is. -/
theorem placeAt_children (hn : c < nodes.length) (hk : (nodeAt nodes c).isContainer) :
    (placeAt nodes c).children = (List.range nodes.length).filter fun p =>
      (openedAt nodes p).head? = some c ∧ (nodeAt nodes p).isChild := by
  have hch : (placeAt nodes c).children = childrenFrom nodes (c + 1) c :=
    (placeAt_of_container hc hn hk).children
  have hsplit : List.range nodes.length =
      List.range' 0 (c + 1) ++ List.range' (c + 1) (nodes.length - (c + 1)) := by
    have := @List.range'_append_1 0 (c + 1) (nodes.length - (c + 1))
    rw [Nat.zero_add, Nat.add_sub_cancel' hn] at this
    rw [List.range_eq_range', this]
  rw [hch, childrenFrom, hsplit, List.filter_append, eq_comm]
  refine List.append_left_eq_self.mpr (List.filter_eq_nil_iff.mpr ?_)
  intro p hp
  rw [List.mem_range'_1] at hp
  have hpn : p ≤ nodes.length := by omega
  simp only [decide_eq_true_eq, not_and]
  intro hh
  have := ((openedAt_spec hpn).2 c (List.mem_of_head? hh)).1
  omega

end

end MarkupGraft.Outline
