import MarkupGraft.Proofs.Query.Axes

/-!
The axes from an attribute. It has a parent and ancestors but no siblings, so the climb that finds
what follows and what precedes it begins at its element. The nodes before the element are those
before the attribute; but the nodes inside the element, which come after the attribute, are passed
over.
-/

namespace MarkupGraft.Document
variable {d : Document} {a e : Nat}

/-- The element `e` has the attribute at `a`: between the two there are only attributes. -/
structure Carries (d : Document) (e a : Nat) : Prop where
  lt_length : a < d.length
  isAttribute : (d.node a).isAttribute
  parent : d.parent? a = some e
  isElement : (d.node e).isElement
  lt : e < a
  between {q : Nat} (he : e < q) (ha : q ≤ a) : (d.node q).isAttribute

theorem WellFormed.exists_carries (w : d.WellFormed) (ha : a < d.length)
    (hk : (d.node a).isAttribute) : ∃ e, d.Carries e a := by
  obtain ⟨e, hparent, helement, hlt, hbetween⟩ := w.attribute_run ha hk
  exact ⟨e, ha, hk, hparent, helement, hlt, hbetween _⟩

namespace Carries
variable (c : d.Carries e a)
include c

theorem mem_walk_element : e ∈ d.walk := by
  have hlt := c.lt_length
  have he := c.lt
  refine mem_walk.mpr ⟨by omega, ?_⟩
  have := c.isElement
  cases hn : d.node e <;> simp_all [Node.isElement, Node.isWalked]

/-- No node of a walk stands between an element and its attribute. -/
theorem lt_iff {m : Nat} (hm : m ∈ d.walk) : a < m ↔ e < m := by
  have hlt := c.lt
  refine ⟨fun h => by omega, fun h => ?_⟩
  by_contra hma
  have hattribute := c.between h (by omega)
  have hwalked := (mem_walk.mp hm).2
  cases hn : d.node m <;> simp_all [Node.isAttribute, Node.isWalked]

theorem siblings_eq : d.view.siblings a = ([], []) := by
  have htype : d.view.type a = .attribute := by
    have := c.isAttribute
    rw [view_type]
    cases hn : d.node a <;> simp_all [Node.isAttribute, Node.queryType]
  rw [Query.View.siblings, htype]

variable (w : d.WellFormed)
include w

theorem view_ancestors : d.view.ancestors a = e :: d.view.ancestors e :=
  w.ancestors_cons c.lt_length c.parent

theorem following_eq : d.view.collect .following a = d.view.collect .following e := by
  rw [Query.View.collect, Query.View.collect, List.flatMap_cons, c.view_ancestors w,
    Query.View.followingSiblings, c.siblings_eq, List.flatMap_nil, List.nil_append]

theorem preceding_eq : d.view.collect .preceding a = d.view.collect .preceding e := by
  rw [Query.View.collect, Query.View.collect, List.flatMap_cons, c.view_ancestors w,
    Query.View.precedingSiblings, c.siblings_eq, List.reverse_nil, List.flatMap_nil,
    List.nil_append]

/-- What precedes an attribute: all nodes before it that are not around it. -/
theorem preceding_eq_sdiff : d.view.collect .preceding a =
    (d.walk.filter fun m => m < a ∧ m ∉ d.view.collect .ancestor a).reverse := by
  have hlt := c.lt
  rw [c.preceding_eq w, w.preceding_eq_sdiff c.mem_walk_element]
  refine congrArg List.reverse (List.filter_congr fun m hm => decide_eq_decide.mpr ?_)
  have hbefore : m < a ↔ m ≤ e := by
    have hne : m ≠ a := by
      rintro rfl
      have := (c.lt_iff hm).mpr hlt
      omega
    have := c.lt_iff hm
    omega
  have hancestors : d.view.collect .ancestor a = e :: d.view.collect .ancestor e :=
    c.view_ancestors w
  rw [hancestors, List.mem_cons, hbefore]
  constructor
  · rintro ⟨hme, hm⟩
    exact ⟨by omega, not_or.mpr ⟨by omega, hm⟩⟩
  · rintro ⟨hme, hm⟩
    obtain ⟨hne, hm⟩ := not_or.mp hm
    exact ⟨by omega, hm⟩

/-- The nodes after an attribute are those inside its element, and behind them what the axis
finds. -/
theorem after_eq : d.walk.filter (a < ·) =
    d.view.collect .descendant e ++ d.view.collect .following a := by
  have he := c.mem_walk_element
  have hl := w.le_last (mem_walk.mp he).1
  have hinside : d.view.collect .descendant e = _ := w.descendants_eq he
  rw [c.following_eq w, hinside, w.following_eq he, eq_comm]
  refine walk_filter_append (fun m hm => ?_) fun b b' hb hb' => by omega
  rw [c.lt_iff hm]
  constructor
  · intro hem
    rcases Nat.lt_or_ge (d.last e) m with hlm | hml
    · exact .inr hlm
    · exact .inl ⟨hem, w.ne_last hm hem hml⟩
  · omega

/-- The descendants of a node begin with its children. -/
theorem descendant_eq_nil_iff : d.view.collect .descendant e = [] ↔ d.view.children e = [] := by
  have he := (mem_walk.mp c.mem_walk_element).1
  rw [Query.View.collect, Query.View.descendants, List.flatMap_eq_nil_iff]
  constructor
  · intro h
    refine List.eq_nil_iff_forall_not_mem.mpr fun m hm => ?_
    obtain ⟨hmw, hparent⟩ := (w.mem_view_children he).mp hm
    have hm := h m hm
    rw [if_pos ⟨(w.inside_parent hmw hparent).1, (mem_walk.mp hmw).1⟩] at hm
    cases hm
  · intro h m hm
    rw [h] at hm
    cases hm

end Carries

/-- What precedes an attribute is each node of the walk before it that is not one of its ancestors,
nearest first. What comes after it in the walk is what is inside its element and then what the
following axis finds; so the axis finds all of it just when the element has no children. -/
theorem WellFormed.attribute_axes (w : d.WellFormed) (ha : a < d.length)
    (hk : (d.node a).isAttribute) : ∃ e, d.parent? a = some e ∧ (d.node e).isElement ∧
      d.view.collect .preceding a =
        (d.walk.filter fun m => m < a ∧ m ∉ d.view.collect .ancestor a).reverse ∧
      d.walk.filter (a < ·) = d.view.collect .descendant e ++ d.view.collect .following a ∧
      (d.view.collect .following a = d.walk.filter (a < ·) ↔ d.view.children e = []) := by
  obtain ⟨e, c⟩ := w.exists_carries ha hk
  refine ⟨e, c.parent, c.isElement, c.preceding_eq_sdiff w, c.after_eq w, ?_⟩
  rw [c.after_eq w, ← c.descendant_eq_nil_iff w, List.self_eq_append_left]

/-- Behind the attribute of an element with children, the first of them is passed over. -/
theorem attribute_axes_passedOver :
    let d := ofNodes 0 .xml [.document, .element ⟨"", "r"⟩, .text "x", .element ⟨"", "e"⟩,
      .attribute ⟨"", "k"⟩ "v", .element ⟨"", "c"⟩, .finish, .finish, .comment "y", .finish, .finish]
    d.view.collect .preceding 4 = [2] ∧ d.walk.filter (4 < ·) = [5, 8] ∧
      d.view.collect .following 4 = [8] := by
  intro d
  have w : d.WellFormed := wellFormed_ofNodes 0 .xml
    [.element ⟨"", "r"⟩ [] [.text "x", .element ⟨"", "e"⟩ [(⟨"", "k"⟩, "v")]
      [.element ⟨"", "c"⟩ [] []], .comment "y"]]
  obtain ⟨e, hparent, -, hpreceding, hafter, -⟩ := w.attribute_axes (a := 4) (by decide) (by decide)
  obtain rfl : 3 = e := Option.some.inj ((show d.parent? 4 = some 3 by decide).symm.trans hparent)
  have hancestor : d.view.collect .ancestor 4 = [3, 1, 0] := by decide +kernel
  have hdescendant : d.view.collect .descendant 3 = [5] := by decide +kernel
  have hwalk : d.walk.filter (4 < ·) = [5, 8] := by decide
  refine ⟨?_, hwalk, ?_⟩
  · rw [hpreceding, hancestor]
    decide
  · rw [hwalk, hdescendant] at hafter
    exact (List.cons.inj hafter).2.symm

end MarkupGraft.Document
