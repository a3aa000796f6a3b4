import MarkupGraft.Proofs.Query.NodeSet

/-!
Where queries come to. Whatever an expression finds is reached along axes from the node at which it is
evaluated, so nothing that no axis leaves is left by a query.
-/

namespace MarkupGraft

open Markup (bind_eq_ok_iff)

namespace Query

/-- Whether no axis leads from some nodes to others. -/
def View.IsClosed (v : View) (P : Nat → Prop) : Prop :=
  ∀ axis n m, P n → m ∈ v.collect axis n → P m

variable {v : View} {P : Nat → Prop} (hP : v.IsClosed P)
include hP

theorem View.IsClosed.root {n : Nat} (hn : P n) : P (v.root n) := by
  rw [View.root]
  cases h : (v.ancestors n).getLast? with
  | none => exact hn
  | some a => exact hP .ancestor n a hn (List.mem_of_getLast? h)

theorem nodes_of_followSteps {steps : List Step} {nodes found : List Nat}
    (hn : nodes.Pairwise (· < ·) ∧ ∀ n ∈ nodes, P n) (h : followSteps v steps nodes = .ok found) :
    found.Pairwise (· < ·) ∧ ∀ m ∈ found, P m := by
  induction steps generalizing nodes with
  | nil =>
    rw [followSteps] at h
    cases h
    exact hn
  | cons step steps ih =>
    rw [followSteps] at h
    obtain ⟨next, hnext, h⟩ := bind_eq_ok_iff.mp h
    refine ih ?_ h
    cases step with
    | mk axis test predicates =>
      obtain ⟨hsorted, hfound⟩ := follow_spec hnext
      refine ⟨hsorted, fun m hm => ?_⟩
      obtain ⟨n, hmem, hm⟩ := hfound m hm
      exact hP axis n m (hn.2 n hmem) hm

/-- Found nodes come in document order, and no axis leads to others. The induction is on the
expression: only the operands of a union and the beginning of a path hand on nodes of their own. -/
theorem nodes_of_evaluate (e : Expression) {context : Context} (hc : P context.node)
    {found : List Nat} (h : e.evaluate v context = .ok (.nodes found)) :
    found.Pairwise (· < ·) ∧ ∀ m ∈ found, P m := by
  cases e with
  | literal _ | number _ =>
    rw [Expression.evaluate] at h
    cases h
  | call _ _ =>
    rw [Expression.evaluate] at h
    obtain ⟨_, -, h⟩ := bind_eq_ok_iff.mp h
    exact absurd h callFunction_ne_nodes
  | negate _ =>
    rw [Expression.evaluate] at h
    obtain ⟨_, -, h⟩ := bind_eq_ok_iff.mp h
    cases h
  | binary _ left right =>
    rw [Expression.evaluate] at h
    obtain ⟨l, hl, h⟩ := bind_eq_ok_iff.mp h
    split at h
    · cases h
    · cases h
    · obtain ⟨r, hr, h⟩ := bind_eq_ok_iff.mp h
      obtain ⟨ls, rs, rfl, rfl, rfl⟩ := applyOperator_spec h
      refine ⟨pairwise_inDocumentOrder _, fun m hm => ?_⟩
      rcases List.mem_append.mp (mem_inDocumentOrder.mp hm) with hm | hm
      · exact (nodes_of_evaluate left hc hl).2 m hm
      · exact (nodes_of_evaluate right hc hr).2 m hm
  | path origin _ =>
    rw [Expression.evaluate] at h
    obtain ⟨start, hstart, h⟩ := bind_eq_ok_iff.mp h
    obtain ⟨_, hreached, h⟩ := bind_eq_ok_iff.mp h
    cases h
    refine nodes_of_followSteps hP ?_ hreached
    cases origin with
    | context =>
      rw [Origin.evaluate] at hstart
      cases hstart
      simpa using hc
    | root =>
      rw [Origin.evaluate] at hstart
      cases hstart
      simpa using hP.root hc
    | nodes of =>
      rw [Origin.evaluate] at hstart
      obtain ⟨value, hvalue, hstart⟩ := bind_eq_ok_iff.mp hstart
      cases value with
      | nodes _ =>
        cases hstart
        exact nodes_of_evaluate of hc hvalue
      | _ => cases hstart

end Query

namespace Document.WellFormed
variable {d : Document} (w : d.WellFormed)
include w

theorem isClosed_isQueried : d.view.IsClosed d.IsQueried :=
  fun _ _ _ hn hm => w.isQueried_of_mem_collect hn hm

theorem isNodeSet_of_select {q : Query} {p : Nat} (hp : d.IsQueried p) {found : List Nat}
    (h : q.select d.view p = .ok found) : d.IsNodeSet found := by
  obtain ⟨value, hvalue, h⟩ := bind_eq_ok_iff.mp h
  cases value with
  | nodes _ =>
    cases h
    exact Query.nodes_of_evaluate w.isClosed_isQueried q.tree hp hvalue
  | _ => cases h

theorem isQueried_zero : d.IsQueried 0 := by
  have hlt : 0 < d.length := by
    have := w.last_root
    omega
  refine ⟨hlt, ?_⟩
  rw [(w.document_iff hlt).mpr rfl]
  rfl

theorem isQueried_contextNode : d.IsQueried d.contextNode := by
  rw [contextNode, documentElement?]
  split
  · rename_i p hp
    have hmem : p ∈ (d.children 0).filter fun p => (d.node p).isElement := by
      rw [hp]
      exact List.mem_singleton_self p
    obtain ⟨hchild, helement⟩ := List.mem_filter.mp hmem
    have hroot := w.isQueried_zero
    have hcontainer : (d.node 0).isContainer := by
      rw [(w.document_iff hroot.1).mpr rfl]
      rfl
    refine ⟨((w.mem_children_iff hroot.1 hcontainer).mp hchild).1, ?_⟩
    rw [Option.getD_some]
    cases hn : d.node p <;> simp_all [Node.isElement, Node.isQueried]
  · exact w.isQueried_zero

end Document.WellFormed
end MarkupGraft
