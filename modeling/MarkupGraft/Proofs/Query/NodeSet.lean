import Mathlib
import MarkupGraft.Proofs.Markup.Run
import MarkupGraft.Proofs.Query.Axes

/-!
Node sets. What an expression finds is in document order without duplicates, and holds nothing but
nodes that queries may meet: no axis leaves these, predicates only drop some, and each step and each
union puts what it has found in order.
-/

namespace MarkupGraft

open Markup (bind_eq_ok_iff)

/-- Queries meet every node but end markers and document types. -/
def Node.isQueried : Node → Bool
  | .finish | .doctype _ => false
  | _ => true

namespace Query

/-! Document order -/

/-- The loop that drops repetitions keeps the last node and those before it, greatest first. -/
private theorem eraseReps_loop {a : Nat} {l kept : List Nat} (hl : (a :: l).Pairwise (· ≤ ·))
    (hkept : (a :: kept).Pairwise (· > ·)) :
    (List.eraseRepsBy.loop (· == ·) a l kept).Pairwise (· < ·) ∧
      ∀ m, m ∈ List.eraseRepsBy.loop (· == ·) a l kept ↔ m ∈ kept ∨ m ∈ a :: l := by
  induction l generalizing a kept with
  | nil =>
    rw [List.eraseRepsBy.loop]
    exact ⟨List.pairwise_reverse.mpr hkept, fun m => by simp [or_comm]⟩
  | cons b l ih =>
    obtain ⟨ha, hl⟩ := List.pairwise_cons.mp hl
    rw [List.eraseRepsBy.loop]
    by_cases hab : a = b
    · subst hab
      obtain ⟨hsorted, hmem⟩ := ih hl hkept
      simp only [BEq.rfl]
      exact ⟨hsorted, fun m => by simp [hmem]⟩
    · have hlt : a < b := Nat.lt_of_le_of_ne (ha b List.mem_cons_self) hab
      obtain ⟨hsorted, hmem⟩ := ih hl (List.pairwise_cons.mpr ⟨fun m hm =>
        (List.mem_cons.mp hm).elim (· ▸ hlt) fun hm =>
          Nat.lt_trans (List.rel_of_pairwise_cons hkept hm) hlt, hkept⟩)
      simp only [beq_eq_false_iff_ne.mpr hab]
      exact ⟨hsorted, fun m => by simp [hmem]; tauto⟩

private theorem eraseReps_spec {l : List Nat} (hl : l.Pairwise (· ≤ ·)) :
    l.eraseReps.Pairwise (· < ·) ∧ ∀ m, m ∈ l.eraseReps ↔ m ∈ l := by
  cases l with
  | nil => exact ⟨.nil, fun _ => .rfl⟩
  | cons a l =>
    obtain ⟨hsorted, hmem⟩ := eraseReps_loop hl (List.pairwise_singleton _ a)
    exact ⟨hsorted, fun m => (hmem m).trans (by simp)⟩

private theorem pairwise_mergeSort (l : List Nat) : (l.mergeSort (· ≤ ·)).Pairwise (· ≤ ·) := by
  have hsorted : (l.mergeSort (· ≤ ·)).Pairwise fun a b => decide (a ≤ b) :=
    List.pairwise_mergeSort (fun a b c hab hbc => by simp at *; omega) (fun a b => by simp; omega) l
  simpa using hsorted

theorem pairwise_inDocumentOrder (l : List Nat) : (inDocumentOrder l).Pairwise (· < ·) :=
  (eraseReps_spec (pairwise_mergeSort l)).1

theorem mem_inDocumentOrder {l : List Nat} {m : Nat} : m ∈ inDocumentOrder l ↔ m ∈ l := by
  rw [inDocumentOrder, (eraseReps_spec (pairwise_mergeSort l)).2, List.mem_mergeSort]

/-! Predicates -/

private theorem sublist_of_filterAuxM {ε α : Type} {p : α → Except ε Bool} {l kept result : List α}
    (h : l.filterAuxM p kept = .ok result) :
    ∃ more : List α, result = more.reverse ++ kept ∧ more.Sublist l := by
  induction l generalizing kept with
  | nil =>
    cases h
    exact ⟨[], rfl, .slnil⟩
  | cons a l ih =>
    rw [List.filterAuxM] at h
    obtain ⟨b, -, h⟩ := bind_eq_ok_iff.mp h
    obtain ⟨more, rfl, hsub⟩ := ih h
    cases b with
    | false => exact ⟨more, rfl, hsub.cons a⟩
    | true => exact ⟨a :: more, by simp, hsub.cons_cons a⟩

theorem sublist_of_filterM {ε α : Type} {p : α → Except ε Bool} {l result : List α}
    (h : l.filterM p = .ok result) : result.Sublist l := by
  obtain ⟨kept, hkept, h⟩ := bind_eq_ok_iff.mp h
  obtain ⟨more, rfl, hsub⟩ := sublist_of_filterAuxM hkept
  cases h
  simpa using hsub

variable {v : View}

theorem sublist_of_filterAll {predicates : List Expression} {candidates kept : List Nat}
    (h : filterAll v predicates candidates = .ok kept) : kept.Sublist candidates := by
  induction predicates generalizing candidates with
  | nil =>
    rw [filterAll] at h
    cases h
    exact .refl kept
  | cons e predicates ih =>
    rw [filterAll] at h
    obtain ⟨passed, hpassed, h⟩ := bind_eq_ok_iff.mp h
    have hsub := (sublist_of_filterM hpassed).map (·.1)
    rw [List.zipIdx_map_fst] at hsub
    exact (ih h).trans hsub

theorem mem_of_mapM {ε α β : Type} {f : α → Except ε β} {l : List α} {result : List β}
    (h : l.mapM f = .ok result) {b : β} (hb : b ∈ result) : ∃ a ∈ l, f a = .ok b := by
  induction l generalizing result with
  | nil =>
    cases h
    cases hb
  | cons a l ih =>
    rw [List.mapM_cons] at h
    obtain ⟨first, hfirst, h⟩ := bind_eq_ok_iff.mp h
    obtain ⟨rest, hrest, h⟩ := bind_eq_ok_iff.mp h
    cases h
    rcases List.mem_cons.mp hb with rfl | hb
    · exact ⟨a, List.mem_cons_self, hfirst⟩
    · obtain ⟨c, hc, hf⟩ := ih hrest hb
      exact ⟨c, List.mem_cons_of_mem a hc, hf⟩

/-- A step finds nodes on its axis, in document order. -/
theorem follow_spec {axis : Axis} {test : NodeTest} {predicates : List Expression}
    {nodes found : List Nat} (h : (Step.mk axis test predicates).follow v nodes = .ok found) :
    found.Pairwise (· < ·) ∧ ∀ m ∈ found, ∃ n ∈ nodes, m ∈ v.collect axis n := by
  rw [Step.follow] at h
  obtain ⟨kept, hkept, h⟩ := bind_eq_ok_iff.mp h
  cases h
  refine ⟨pairwise_inDocumentOrder _, fun m hm => ?_⟩
  obtain ⟨l, hl, hm⟩ := List.mem_flatten.mp (mem_inDocumentOrder.mp hm)
  obtain ⟨n, hn, hf⟩ := mem_of_mapM hkept hl
  exact ⟨n, hn, List.mem_of_mem_filter ((sublist_of_filterAll hf).subset hm)⟩

/-! Functions and operators -/

theorem applyFunction_ne_nodes {context : Context} {f : Function} {arguments : List Value}
    {found : List Nat} : applyFunction v context f arguments ≠ .ok (.nodes found) := by
  intro h
  unfold applyFunction at h
  cases f <;> dsimp only at h <;> first | cases h | (split at h <;> cases h)

theorem mapError_eq_ok_iff {ε ε' α : Type} {result : Except ε α} {f : ε → ε'} {a : α} :
    result.mapError f = .ok a ↔ result = .ok a := by
  cases result <;> simp [Except.mapError]

/-- No function finds nodes. -/
theorem callFunction_ne_nodes {context : Context} {name : String} {arguments : List Value}
    {found : List Nat} : callFunction v context name arguments ≠ .ok (.nodes found) := by
  intro h
  have h := mapError_eq_ok_iff.mp h
  split at h
  · cases h
  · dsimp only at h
    split at h <;> split at h <;> first | cases h | exact applyFunction_ne_nodes h

/-- Of the operators only the union finds nodes, in document order. -/
theorem applyOperator_spec {operator : Operator} {left right : Value} {found : List Nat}
    (h : applyOperator v operator left right = .ok (.nodes found)) :
    ∃ l r, left = .nodes l ∧ right = .nodes r ∧ found = inDocumentOrder (l ++ r) := by
  cases operator with
  | union =>
    simp only [applyOperator] at h
    split at h
    · cases h
      exact ⟨_, _, rfl, rfl, rfl⟩
    · cases h
  | _ => cases h

end Query

/-! Nodes that queries meet -/

namespace Document
variable {d : Document}

/-- The positions that queries may begin at and come to. -/
def IsQueried (d : Document) (n : Nat) : Prop := n < d.length ∧ (d.node n).isQueried

instance (d : Document) (n : Nat) : Decidable (d.IsQueried n) := inferInstanceAs (Decidable (_ ∧ _))

theorem isQueried_iff {n : Nat} :
    d.IsQueried n ↔ n ∈ d.walk ∨ n < d.length ∧ (d.node n).isAttribute := by
  rw [IsQueried, mem_walk]
  cases d.node n <;> simp [Node.isQueried, Node.isWalked, Node.isAttribute]

theorem isQueried_of_mem_walk {n : Nat} (h : n ∈ d.walk) : d.IsQueried n :=
  isQueried_iff.mpr (.inl h)

theorem isAttribute_of_mem_attributeRun {m p : Nat} (h : m ∈ attributeRun d.nodes.toArray p) :
    m < d.length ∧ (d.node m).isAttribute := by
  induction p using attributeRun.induct d.nodes.toArray with
  | case1 p name value hp ih =>
    rw [attributeRun, hp] at h
    rcases List.mem_cons.mp h with rfl | h
    · rw [List.getElem?_toArray] at hp
      have hlt := (List.getElem?_eq_some_iff.mp hp).1
      rw [node, List.getD_eq_getElem?_getD, hp]
      exact ⟨by simpa using hlt, rfl⟩
    · exact ih h
  | case2 p hp =>
    rw [attributeRun] at h
    split at h
    · exact absurd ‹_› (hp _ _)
    · cases h

namespace WellFormed
variable (w : d.WellFormed)
include w

theorem mem_walk_of_mem_descendants {n m : Nat} (hn : n < d.length)
    (h : m ∈ d.view.descendants n) : m ∈ d.walk := by
  induction hk : d.length - n using Nat.strongRecOn generalizing n with
  | ind k ih =>
    rw [Query.View.descendants] at h
    obtain ⟨c, hc, h⟩ := List.mem_flatMap.mp h
    split at h
    · rename_i hnc
      rcases List.mem_cons.mp h with rfl | h
      · exact ((w.mem_view_children hn).mp hc).1
      · exact ih (d.length - c) (by omega) hnc.2 h rfl
    · cases h

theorem mem_walk_of_mem_ancestors {n m : Nat} (hn : n < d.length)
    (h : m ∈ d.view.ancestors n) : m ∈ d.walk := by
  induction n using Nat.strongRecOn with
  | ind n ih =>
    rw [Query.View.ancestors, view_parent?] at h
    split at h
    · rename_i p hp
      have hpw := w.parent_mem_walk hn hp
      split at h
      · rename_i hlt
        rcases List.mem_cons.mp h with rfl | h
        · exact hpw
        · exact ih p hlt (mem_walk.mp hpw).1 h
      · cases h
    · cases h

theorem mem_walk_of_mem_siblings {n m : Nat} (hn : n < d.length)
    (h : m ∈ (d.view.siblings n).1 ∨ m ∈ (d.view.siblings n).2) : m ∈ d.walk := by
  rw [Query.View.siblings, view_parent?] at h
  split at h
  · simp at h
  · simp at h
  · rename_i p hp _
    have hpl := (mem_walk.mp (w.parent_mem_walk hn hp)).1
    dsimp only at h
    split at h
    · have hm : m ∈ d.view.children p :=
        h.elim (fun h => (List.takeWhile_sublist _).subset h) List.mem_of_mem_drop
      exact ((w.mem_view_children hpl).mp hm).1
    · simp at h

/-- No axis leads to a node that queries do not meet. -/
theorem isQueried_of_mem_collect {n m : Nat} {axis : Query.Axis} (hn : d.IsQueried n)
    (h : m ∈ d.view.collect axis n) : d.IsQueried m := by
  have hlt := hn.1
  have hself {below : List Nat} (hbelow : m ∈ below → m ∈ d.walk) (h : m ∈ n :: below) :
      d.IsQueried m :=
    (List.mem_cons.mp h).elim (· ▸ hn) fun h => isQueried_of_mem_walk (hbelow h)
  have haround {a : Nat} (h : a ∈ n :: d.view.ancestors n) : a < d.length :=
    (List.mem_cons.mp h).elim (· ▸ hlt) fun h =>
      (mem_walk.mp (w.mem_walk_of_mem_ancestors hlt h)).1
  have hbelow {s : Nat} (hs : s ∈ d.walk) (h : m ∈ d.view.withDescendants s) : d.IsQueried m :=
    isQueried_of_mem_walk <| (List.mem_cons.mp h).elim (· ▸ hs)
      (w.mem_walk_of_mem_descendants (mem_walk.mp hs).1)
  cases axis <;> rw [Query.View.collect] at h
  case child => exact isQueried_of_mem_walk ((w.mem_view_children hlt).mp h).1
  case «attribute» =>
    rw [view_attributes] at h
    split at h
    · exact isQueried_iff.mpr (.inr (isAttribute_of_mem_attributeRun h))
    · cases h
  case self => exact hself (fun h => by cases h) h
  case parent =>
    rw [view_parent?, Option.mem_toList] at h
    exact isQueried_of_mem_walk (w.parent_mem_walk hlt h)
  case descendant => exact isQueried_of_mem_walk (w.mem_walk_of_mem_descendants hlt h)
  case descendantOrSelf => exact hself (w.mem_walk_of_mem_descendants hlt) h
  case ancestor => exact isQueried_of_mem_walk (w.mem_walk_of_mem_ancestors hlt h)
  case ancestorOrSelf => exact hself (w.mem_walk_of_mem_ancestors hlt) h
  case followingSibling => exact isQueried_of_mem_walk (w.mem_walk_of_mem_siblings hlt (.inr h))
  case precedingSibling =>
    exact isQueried_of_mem_walk (w.mem_walk_of_mem_siblings hlt (.inl (List.mem_reverse.mp h)))
  case following =>
    obtain ⟨a, ha, h⟩ := List.mem_flatMap.mp h
    obtain ⟨s, hs, h⟩ := List.mem_flatMap.mp h
    exact hbelow (w.mem_walk_of_mem_siblings (haround ha) (.inr hs)) h
  case preceding =>
    obtain ⟨a, ha, h⟩ := List.mem_flatMap.mp h
    obtain ⟨s, hs, h⟩ := List.mem_flatMap.mp h
    exact hbelow (w.mem_walk_of_mem_siblings (haround ha) (.inl (List.mem_reverse.mp hs)))
      (List.mem_reverse.mp h)

theorem isQueried_root {n : Nat} (hn : d.IsQueried n) : d.IsQueried (d.view.root n) := by
  rw [Query.View.root]
  cases h : (d.view.ancestors n).getLast? with
  | none => exact hn
  | some a =>
    exact isQueried_of_mem_walk (w.mem_walk_of_mem_ancestors hn.1 (List.mem_of_getLast? h))

end WellFormed

/-- What a query may find: nodes that queries meet, in document order and each once. -/
def IsNodeSet (d : Document) (found : List Nat) : Prop :=
  found.Pairwise (· < ·) ∧ ∀ m ∈ found, d.IsQueried m

theorem isNodeSet_singleton {n : Nat} (hn : d.IsQueried n) : d.IsNodeSet [n] :=
  ⟨List.pairwise_singleton _ n, fun _ hm => List.mem_singleton.mp hm ▸ hn⟩

theorem IsNodeSet.union {l r : List Nat} (hl : d.IsNodeSet l) (hr : d.IsNodeSet r) :
    d.IsNodeSet (Query.inDocumentOrder (l ++ r)) :=
  ⟨Query.pairwise_inDocumentOrder _, fun m hm =>
    (List.mem_append.mp (Query.mem_inDocumentOrder.mp hm)).elim (hl.2 m) (hr.2 m)⟩

theorem WellFormed.isNodeSet_follow (w : d.WellFormed) {s : Query.Step} {nodes found : List Nat}
    (hn : d.IsNodeSet nodes) (h : s.follow d.view nodes = .ok found) : d.IsNodeSet found := by
  cases s with
  | mk axis test predicates =>
    obtain ⟨hsorted, hfound⟩ := Query.follow_spec h
    refine ⟨hsorted, fun m hm => ?_⟩
    obtain ⟨n, hmem, hm⟩ := hfound m hm
    exact w.isQueried_of_mem_collect (hn.2 n hmem) hm

theorem WellFormed.isNodeSet_followSteps (w : d.WellFormed) {steps : List Query.Step}
    {nodes found : List Nat} (hn : d.IsNodeSet nodes)
    (h : Query.followSteps d.view steps nodes = .ok found) : d.IsNodeSet found := by
  induction steps generalizing nodes with
  | nil =>
    rw [Query.followSteps] at h
    cases h
    exact hn
  | cons s steps ih =>
    rw [Query.followSteps] at h
    obtain ⟨next, hnext, h⟩ := bind_eq_ok_iff.mp h
    exact ih (w.isNodeSet_follow hn hnext) h

/-- Whatever node queries meet an expression is evaluated at, what it finds is a node set. The
induction is on the expression: the operands of a union and the beginning of a path are the only
parts whose nodes are among those found. -/
theorem WellFormed.isNodeSet_of_evaluate (w : d.WellFormed) (e : Query.Expression)
    {context : Query.Context} (hc : d.IsQueried context.node) {found : List Nat}
    (h : e.evaluate d.view context = .ok (.nodes found)) : d.IsNodeSet found := by
  match e with
  | .literal text | .number x =>
    rw [Query.Expression.evaluate] at h
    cases h
  | .call function arguments =>
    rw [Query.Expression.evaluate] at h
    obtain ⟨values, -, h⟩ := bind_eq_ok_iff.mp h
    exact absurd h Query.callFunction_ne_nodes
  | .negate operand =>
    rw [Query.Expression.evaluate] at h
    obtain ⟨value, -, h⟩ := bind_eq_ok_iff.mp h
    cases h
  | .binary operator left right =>
    rw [Query.Expression.evaluate] at h
    obtain ⟨l, hl, h⟩ := bind_eq_ok_iff.mp h
    split at h
    · cases h
    · cases h
    · obtain ⟨r, hr, h⟩ := bind_eq_ok_iff.mp h
      obtain ⟨ls, rs, rfl, rfl, rfl⟩ := Query.applyOperator_spec h
      exact (w.isNodeSet_of_evaluate left hc hl).union (w.isNodeSet_of_evaluate right hc hr)
  | .path origin steps =>
    rw [Query.Expression.evaluate] at h
    obtain ⟨start, hstart, h⟩ := bind_eq_ok_iff.mp h
    obtain ⟨reached, hreached, h⟩ := bind_eq_ok_iff.mp h
    cases h
    refine w.isNodeSet_followSteps ?_ hreached
    match origin with
    | .context =>
      rw [Query.Origin.evaluate] at hstart
      cases hstart
      exact isNodeSet_singleton hc
    | .root =>
      rw [Query.Origin.evaluate] at hstart
      cases hstart
      exact isNodeSet_singleton (w.isQueried_root hc)
    | .nodes of =>
      rw [Query.Origin.evaluate] at hstart
      obtain ⟨value, hvalue, hstart⟩ := bind_eq_ok_iff.mp hstart
      cases value with
      | nodes found =>
        cases hstart
        exact w.isNodeSet_of_evaluate of hc hvalue
      | _ => cases hstart

/-- The elements around an attribute, collected from the inside outward, and the attribute. -/
theorem isNodeSet_of_evaluate_ancestors :
    let d := ofNodes 0 .xml [.document, .element ⟨"", "a"⟩, .element ⟨"", "b"⟩,
      .attribute ⟨"", "k"⟩ "v", .finish, .finish, .finish]
    let child : Query.Expression := .path .context [.mk .child .any []]
    let e : Query.Expression := .binary .union (.path .context [.mk .self .node []])
      (.path .context [.mk .ancestor .node [child]])
    e.evaluate d.view { node := 3 } = .ok (.nodes [0, 1, 3]) ∧ d.IsNodeSet [0, 1, 3] := by
  intro d child e
  have w : d.WellFormed := wellFormed_ofNodes 0 .xml
    [.element ⟨"", "a"⟩ [] [.element ⟨"", "b"⟩ [(⟨"", "k"⟩, "v")] []]]
  have h : e.evaluate d.view { node := 3 } = .ok (.nodes [0, 1, 3]) := by cbv
  exact ⟨h, w.isNodeSet_of_evaluate e (by decide) h⟩

end Document
end MarkupGraft
