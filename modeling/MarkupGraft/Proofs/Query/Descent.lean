import MarkupGraft.Proofs.Query.Union

/-!
Descent in one step and in two. The children of all nodes of a subtree are the descendants of its
root, so a step to the descendants leads where the step through all nodes of the subtree leads when a
step to children follows it.
-/

namespace MarkupGraft.Query

namespace View
variable {v : View}

/-- Children are nodes with greater numbers. -/
def Descends (v : View) : Prop := ∀ n, ∀ c ∈ v.children n, n < c ∧ c < v.size

namespace Descends
variable (hv : v.Descends)
include hv

theorem descendants_eq (n : Nat) :
    v.descendants n = (v.children n).flatMap v.withDescendants := by
  rw [descendants]
  exact List.flatMap_congr fun c hc => if_pos (hv n c hc)

/-- A descendant is a child of the node or of one of its descendants. -/
theorem mem_descendants_iff {n m : Nat} :
    m ∈ v.descendants n ↔ ∃ c ∈ v.withDescendants n, m ∈ v.children c := by
  induction hk : v.size - n using Nat.strongRecOn generalizing n with
  | ind k ih =>
    have hbelow {b : Nat} (hb : b ∈ v.children n) :
        m ∈ v.descendants b ↔ ∃ c ∈ v.withDescendants b, m ∈ v.children c := by
      obtain ⟨hnb, hlt⟩ := hv n b hb
      exact ih (v.size - b) (by omega) rfl
    rw [withDescendants, hv.descendants_eq]
    simp only [List.mem_cons, exists_eq_or_imp, List.mem_flatMap]
    constructor
    · rintro ⟨b, hb, hm⟩
      rcases List.mem_cons.mp hm with rfl | hm
      · exact .inl hb
      · obtain ⟨c, hc, hm⟩ := (hbelow hb).mp hm
        exact .inr ⟨c, ⟨b, hb, hc⟩, hm⟩
    · rintro (hm | ⟨c, ⟨b, hb, hc⟩, hm⟩)
      · exact ⟨m, hm, List.mem_cons_self⟩
      · exact ⟨b, hb, List.mem_cons_of_mem b ((hbelow hb).mpr ⟨c, hc, hm⟩)⟩

end Descends
end View

variable {v : View}

/-- A step without predicates always succeeds. -/
theorem Step.follow_plain (axis : Axis) (test : NodeTest) (nodes : List Nat) :
    (Step.mk axis test []).follow v nodes =
      .ok (inDocumentOrder (nodes.flatMap fun n => (v.collect axis n).filter (v.passes axis test))) := by
  have hreach (n : Nat) : (Step.mk axis test []).reach v n =
      pure ((v.collect axis n).filter (v.passes axis test)) := by
    rw [reach, filterAll]
    rfl
  rw [follow_eq, List.flatMap_def]
  simp only [hreach, List.mapM_pure]
  rfl

theorem inDocumentOrder_congr {l r : List Nat} (h : ∀ m, m ∈ l ↔ m ∈ r) :
    inDocumentOrder l = inDocumentOrder r :=
  eq_of_pairwise_of_mem_iff (pairwise_inDocumentOrder l) (pairwise_inDocumentOrder r) fun m => by
    rw [mem_inDocumentOrder, mem_inDocumentOrder, h]

/-- Through all nodes of the subtrees to their children, or to the descendants at once. The subtrees
may overlap, so what is found is compared node by node. -/
theorem followSteps_descend (hv : v.Descends) (test : NodeTest) (nodes : List Nat) :
    followSteps v [.anyNode .descendantOrSelf, .mk .child test []] nodes =
      followSteps v [.mk .descendant test []] nodes := by
  have hpasses (n : Nat) : v.passes .child test n = v.passes .descendant test n := rfl
  simp only [followSteps, Step.anyNode, Step.follow_plain]
  refine congrArg Except.ok (inDocumentOrder_congr fun m => ?_)
  simp only [List.mem_flatMap, List.mem_filter, mem_inDocumentOrder, View.collect, hpasses,
    hv.mem_descendants_iff]
  constructor
  · rintro ⟨c, ⟨n, hn, hc, -⟩, hm, htest⟩
    exact ⟨n, hn, ⟨c, hc, hm⟩, htest⟩
  · rintro ⟨n, hn, ⟨c, hc, hm⟩, htest⟩
    exact ⟨c, ⟨n, hn, hc, rfl⟩, hm, htest⟩

/-- Steps that lead to the same nodes may stand for each other at the end of a path. -/
theorem Expression.evaluate_extendPath_congr {s t : Step} {more further : List Step}
    (h : ∀ nodes, followSteps v (s :: more) nodes = followSteps v (t :: further) nodes)
    (e : Expression) (context : Context) :
    (extendPath e (s :: more)).evaluate v context =
      (extendPath e (t :: further)).evaluate v context := by
  have hpath (origin : Origin) (steps : List Step) :
      (path origin (steps ++ s :: more)).evaluate v context =
        (path origin (steps ++ t :: further)).evaluate v context := by
    have hmore : followSteps v (s :: more) = followSteps v (t :: further) := funext h
    rw [evaluate, evaluate]
    simp only [followSteps_append, hmore]
  cases e with
  | path origin steps => exact hpath origin steps
  | _ => exact hpath (.nodes _) []

end Query

namespace Document
variable {d : Document}

theorem children_of_length_le {n : Nat} (hn : d.length ≤ n) : d.children n = [] := by
  have hlength : d.outline.length ≤ n := by rwa [length_outline]
  rw [children, place, List.getD_eq_default _ _ hlength]

theorem WellFormed.descends (w : d.WellFormed) : d.view.Descends := by
  intro n c hc
  rcases Nat.lt_or_ge n d.length with hn | hn
  · obtain ⟨hcw, hparent⟩ := (w.mem_view_children hn).mp hc
    exact ⟨(w.inside_parent hcw hparent).1, (mem_walk.mp hcw).1⟩
  · rw [view_children, children_of_length_le hn] at hc
    cases hc

/-- Two slashes and a step to children lead from any path where a step to its descendants leads, at
the beginning of a path too, and fail when it fails. -/
theorem WellFormed.evaluate_doubleSlash (w : d.WellFormed) (p : Query.Expression)
    (test : Query.NodeTest) (context : Query.Context) :
    (Query.extendPath p [.anyNode .descendantOrSelf, .mk .child test []]).evaluate d.view context =
        (Query.extendPath p [.mk .descendant test []]).evaluate d.view context ∧
      (Query.Expression.path .root [.anyNode .descendantOrSelf, .mk .child test []]).evaluate d.view
          context =
        (Query.Expression.path .root [.mk .descendant test []]).evaluate d.view context :=
  have hsteps := Query.followSteps_descend w.descends test
  ⟨Query.Expression.evaluate_extendPath_congr hsteps p context,
    Query.Expression.evaluate_extendPath_congr hsteps (.path .root []) context⟩

/-- From all elements of a document: their subtrees overlap. -/
theorem evaluate_doubleSlash_overlapping :
    let d := ofNodes 0 .xml [.document, .element ⟨"", "a"⟩, .element ⟨"", "b"⟩, .text "x",
      .element ⟨"", "b"⟩, .finish, .finish, .finish, .finish]
    let elements : Query.Expression := .path .root [.mk .descendant .any []]
    (Query.extendPath elements [.anyNode .descendantOrSelf,
      .mk .child (.name "b") []]).evaluate d.view { node := 3 } = .ok (.nodes [2, 4]) := by
  intro d elements
  have w : d.WellFormed := wellFormed_ofNodes 0 .xml
    [.element ⟨"", "a"⟩ [] [.element ⟨"", "b"⟩ [] [.text "x", .element ⟨"", "b"⟩ [] []]]]
  refine (w.evaluate_doubleSlash elements (.name "b") { node := 3 }).1.trans ?_
  cbv

end Document
end MarkupGraft
