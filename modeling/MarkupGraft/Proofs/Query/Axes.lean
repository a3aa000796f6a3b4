import MarkupGraft.Proofs.Query.Walk
import MarkupGraft.Proofs.Store.Numbering

/-!
The axes in terms of positions. From a node that a walk meets, each axis gives the nodes of the walk
that lie in a range told by the extents, in document order or, on a reverse axis, against it.
-/

namespace MarkupGraft

/-- In an increasing list the members before and behind one of them are the smaller and the greater
ones. -/
theorem around_of_pairwise {l : List Nat} (h : l.Pairwise (· < ·)) {n : Nat} (hn : n ∈ l) :
    l.takeWhile (· ≠ n) = l.filter (· < n) ∧
      l.drop ((l.takeWhile (· ≠ n)).length + 1) = l.filter (n < ·) := by
  obtain ⟨before, after, rfl⟩ := List.append_of_mem hn
  obtain ⟨-, hafter, hbefore⟩ := List.pairwise_append.mp h
  have hb (m : Nat) (hm : m ∈ before) : m < n := hbefore m hm n List.mem_cons_self
  have ha (m : Nat) (hm : m ∈ after) : n < m := List.rel_of_pairwise_cons hafter hm
  have htake : (before ++ n :: after).takeWhile (· ≠ n) = before := by
    rw [List.takeWhile_append_of_pos fun m hm => by have := hb m hm; simp; omega]
    simp
  rw [htake]
  constructor
  · rw [List.filter_append, List.filter_eq_self.mpr fun m hm => by simpa using hb m hm,
      List.filter_cons_of_neg (by simp), List.filter_eq_nil_iff.mpr fun m hm => ?_, List.append_nil]
    have := ha m hm
    simp
    omega
  · rw [List.filter_append, List.filter_eq_nil_iff.mpr fun m hm => by have := hb m hm; simp; omega,
      List.filter_cons_of_neg (by simp), List.filter_eq_self.mpr fun m hm => by simpa using ha m hm]
    simp [List.drop_append]

namespace Document
variable {d : Document}

namespace WellFormed
variable (w : d.WellFormed)
include w

/-! Downward -/

/-- Some of the nodes with one parent, each with what is below it, give the nodes in their
extents. -/
private theorem flatMap_siblings {p : Nat} {siblings : List Nat} (hsorted : siblings.Pairwise (· < ·))
    (hp : ∀ c ∈ siblings, c ∈ d.walk ∧ d.parent? c = some p) {below : Nat → List Nat}
    (hbelow : ∀ c ∈ siblings, below c = d.walk.filter fun m => c ≤ m ∧ m ≤ d.last c)
    {q : Nat → Prop} [DecidablePred q]
    (hq : ∀ m ∈ d.walk, q m ↔ ∃ c ∈ siblings, c ≤ m ∧ m ≤ d.last c) :
    siblings.flatMap below = d.walk.filter (q ·) := by
  have hmem {c m : Nat} (hc : c ∈ siblings) :
      m ∈ below c ↔ m ∈ d.walk ∧ c ≤ m ∧ m ≤ d.last c := by
    rw [hbelow c hc, mem_walk_filter]
  refine eq_walk_filter (List.pairwise_flatMap.mpr ⟨fun c hc => ?_, ?_⟩) fun m => ?_
  · rw [hbelow c hc]
    exact pairwise_walk_filter
  · refine hsorted.imp_of_mem fun {a b} ha hb hab x hx y hy => ?_
    obtain ⟨haw, hpa⟩ := hp a ha
    obtain ⟨hbw, hpb⟩ := hp b hb
    have := w.last_lt_sibling (mem_walk.mp haw).1 (mem_walk.mp hbw).1 hpa hpb hab
    have := ((hmem ha).mp hx).2
    have := ((hmem hb).mp hy).2
    omega
  · rw [List.mem_flatMap]
    constructor
    · rintro ⟨c, hc, hm⟩
      obtain ⟨hmw, hm⟩ := (hmem hc).mp hm
      exact ⟨hmw, (hq m hmw).mpr ⟨c, hc, hm⟩⟩
    · rintro ⟨hmw, hm⟩
      obtain ⟨c, hc, hm⟩ := (hq m hmw).mp hm
      exact ⟨c, hc, (hmem hc).mpr ⟨hmw, hm⟩⟩

/-- A child lies inside its parent. -/
theorem inside_parent {c p : Nat} (hc : c ∈ d.walk) (hp : d.parent? c = some p) :
    p < c ∧ d.last c < d.last p := by
  obtain ⟨hpc, -, hl⟩ := w.parent_spec (mem_walk.mp hc).1 hp
  exact ⟨hpc, w.last_inside (mem_walk.mp hc).1 hpc (w.ne_last hc hpc hl)⟩

private theorem cons_below {n : Nat} (hn : n ∈ d.walk) :
    n :: d.walk.filter (fun m => n < m ∧ m < d.last n) =
      d.walk.filter fun m => n ≤ m ∧ m ≤ d.last n := by
  have hself := w.le_last (mem_walk.mp hn).1
  refine eq_walk_filter (List.pairwise_cons.mpr ⟨fun m hm => (mem_walk_filter.mp hm).2.1,
    pairwise_walk_filter⟩) fun m => ?_
  rw [List.mem_cons, mem_walk_filter]
  constructor
  · rintro (rfl | ⟨hm, hnm, hmn⟩)
    · exact ⟨hn, Nat.le_refl m, hself⟩
    · exact ⟨hm, Nat.le_of_lt hnm, Nat.le_of_lt hmn⟩
  · rintro ⟨hm, hnm, hmn⟩
    rcases Nat.eq_or_lt_of_le hnm with rfl | hnm
    · exact .inl rfl
    · exact .inr ⟨hm, hnm, w.ne_last hm hnm hmn⟩

theorem descendants_eq {n : Nat} (hn : n ∈ d.walk) :
    d.view.descendants n = d.walk.filter fun m => n < m ∧ m < d.last n := by
  induction hk : d.length - n using Nat.strongRecOn generalizing n with
  | ind k ih =>
    have hlt := (mem_walk.mp hn).1
    rw [Query.View.descendants, w.children_eq_walk hlt]
    refine w.flatMap_siblings pairwise_walk_filter (fun c hc => mem_walk_filter.mp hc)
      (fun c hc => ?_) fun m hm => ?_
    · obtain ⟨hcw, hpc⟩ := mem_walk_filter.mp hc
      have hcl := (mem_walk.mp hcw).1
      have hnc := (w.inside_parent hcw hpc).1
      rw [if_pos ⟨hnc, hcl⟩, ih (d.length - c) (by omega) hcw rfl, w.cons_below hcw]
    · constructor
      · rintro ⟨hnm, hmn⟩
        obtain ⟨c, hcw, hpc, hcm⟩ := w.exists_child_of_inside hm hnm hmn
        exact ⟨c, mem_walk_filter.mpr ⟨hcw, hpc⟩, hcm⟩
      · rintro ⟨c, hc, hcm, hmc⟩
        obtain ⟨hcw, hpc⟩ := mem_walk_filter.mp hc
        have := w.inside_parent hcw hpc
        omega

theorem withDescendants_eq {n : Nat} (hn : n ∈ d.walk) :
    d.view.withDescendants n = d.walk.filter fun m => n ≤ m ∧ m ≤ d.last n := by
  rw [Query.View.withDescendants, w.descendants_eq hn, w.cons_below hn]

/-! Upward -/

theorem ancestors_root : d.view.ancestors 0 = [] := by
  rw [Query.View.ancestors, view_parent?, w.parent_zero]

theorem ancestors_cons {n p : Nat} (hn : n < d.length) (hp : d.parent? n = some p) :
    d.view.ancestors n = p :: d.view.ancestors p := by
  rw [Query.View.ancestors, view_parent?, hp]
  exact if_pos (w.parent_spec hn hp).1

/-- Induction from a node to its parent, the document being the last. -/
private theorem parent_induction {motive : Nat → Prop} (root : motive 0)
    (node : ∀ n p, n ∈ d.walk → d.parent? n = some p → p ∈ d.walk → motive p → motive n)
    {n : Nat} (hn : n ∈ d.walk) : motive n := by
  induction n using Nat.strongRecOn with
  | ind n ih =>
    rcases Nat.eq_zero_or_pos n with rfl | hpos
    · exact root
    · have hlt := (mem_walk.mp hn).1
      obtain ⟨p, hp⟩ := w.exists_parent hlt hpos
      have hpw := w.parent_mem_walk hlt hp
      exact node n p hn hp hpw (ih p (w.parent_spec hlt hp).1 hpw)

/-- What lies around a node is its parent and what lies around that. -/
private theorem around_iff {n p m : Nat} (hn : n ∈ d.walk) (hp : d.parent? n = some p)
    (hm : m < d.length) :
    m < n ∧ n < d.last m ↔ (m < p ∧ p < d.last m) ∨ m = p := by
  have hlt := (mem_walk.mp hn).1
  obtain ⟨hpn, hc, hl⟩ := w.parent_spec hlt hp
  have hl := w.ne_last hn hpn hl
  constructor
  · rintro ⟨hmn, hml⟩
    have := w.le_parent hlt hp hmn (w.isContainer_of_lt_last hm (by omega)) (by omega)
    omega
  · rintro (⟨hmp, hpm⟩ | rfl)
    · have := w.last_inside (by omega) hmp hpm
      omega
    · exact ⟨hpn, hl⟩

theorem ancestors_eq {n : Nat} (hn : n ∈ d.walk) :
    d.view.ancestors n = (d.walk.filter fun m => m < n ∧ n < d.last m).reverse := by
  refine w.parent_induction (motive := fun n => d.view.ancestors n =
    (d.walk.filter fun m => m < n ∧ n < d.last m).reverse) ?_ ?_ hn
  · rw [w.ancestors_root, List.filter_eq_nil_iff.mpr (by simp), List.reverse_nil]
  · intro n p hn hp hpw ih
    have hsplit := walk_filter_append (d := d) (p := fun m => m < p ∧ p < d.last m)
      (q := (· = p)) (r := fun m => m < n ∧ n < d.last m)
      (fun m hm => w.around_iff hn hp (mem_walk.mp hm).1) (fun a b ha hb => by omega)
    have hone : d.walk.filter (· = p) = [p] := by
      refine (eq_walk_filter (List.pairwise_singleton _ p) fun m => ?_).symm
      rw [List.mem_singleton]
      exact ⟨fun h => ⟨h ▸ hpw, h⟩, (·.2)⟩
    rw [w.ancestors_cons (mem_walk.mp hn).1 hp, ih, ← hsplit, hone]
    simp

/-! Sideward -/

theorem siblings_root : d.view.siblings 0 = ([], []) := by
  rw [Query.View.siblings, view_parent?, w.parent_zero]
  cases d.view.type 0 <;> rfl

theorem siblings_eq {n p : Nat} (hn : n ∈ d.walk) (hp : d.parent? n = some p) :
    d.view.siblings n = ((d.view.children p).filter (· < n), (d.view.children p).filter (n < ·)) := by
  obtain ⟨hlt, hw⟩ := mem_walk.mp hn
  have hpl := (mem_walk.mp (w.parent_mem_walk hlt hp)).1
  have hm := (w.mem_view_children hpl).mpr ⟨hn, hp⟩
  have hsorted : (d.view.children p).Pairwise (· < ·) := by
    rw [w.children_eq_walk hpl]
    exact pairwise_walk_filter
  obtain ⟨hbefore, hafter⟩ := around_of_pairwise hsorted hm
  have hcontains : (d.view.children p).contains n = true := by simpa using hm
  have htype : d.view.type n ≠ .attribute := by
    rw [view_type]
    cases hk : d.node n <;> simp_all [Node.queryType, Node.isWalked]
  rw [Query.View.siblings, view_parent?, hp]
  split
  · exact absurd ‹_› htype
  · rename_i hnone _
    cases hnone
  · rename_i q hq _
    cases hq
    simp only [hcontains, if_true, hafter]
    rw [hbefore]

theorem followingSiblings_eq {n : Nat} (hn : n ∈ d.walk) :
    d.view.followingSiblings n = d.walk.filter fun m => n < m ∧ d.parent? m = d.parent? n := by
  obtain ⟨hlt, -⟩ := mem_walk.mp hn
  rw [Query.View.followingSiblings]
  rcases Nat.eq_zero_or_pos n with rfl | hpos
  · rw [w.siblings_root, eq_comm, List.filter_eq_nil_iff]
    intro m hm h
    obtain ⟨hpos, hnone⟩ := of_decide_eq_true h
    obtain ⟨p, hp⟩ := w.exists_parent (mem_walk.mp hm).1 hpos
    rw [hp, w.parent_zero] at hnone
    cases hnone
  · obtain ⟨p, hp⟩ := w.exists_parent hlt hpos
    have hpl := (mem_walk.mp (w.parent_mem_walk hlt hp)).1
    rw [w.siblings_eq hn hp, w.children_eq_walk hpl, List.filter_filter, hp]
    simp

theorem precedingSiblings_eq {n : Nat} (hn : n ∈ d.walk) :
    d.view.precedingSiblings n =
      (d.walk.filter fun m => m < n ∧ d.parent? m = d.parent? n).reverse := by
  obtain ⟨hlt, -⟩ := mem_walk.mp hn
  rw [Query.View.precedingSiblings]
  rcases Nat.eq_zero_or_pos n with rfl | hpos
  · rw [w.siblings_root, List.filter_eq_nil_iff.mpr (by simp)]
  · obtain ⟨p, hp⟩ := w.exists_parent hlt hpos
    have hpl := (mem_walk.mp (w.parent_mem_walk hlt hp)).1
    rw [w.siblings_eq hn hp, w.children_eq_walk hpl, List.filter_filter, hp]
    simp

theorem followingSiblings_root : d.view.followingSiblings 0 = [] := by
  rw [Query.View.followingSiblings, w.siblings_root]

theorem precedingSiblings_root : d.view.precedingSiblings 0 = [] := by
  rw [Query.View.precedingSiblings, w.siblings_root, List.reverse_nil]

/-- The siblings behind a node with all that is below them. -/
private theorem flatMap_followingSiblings {n p : Nat} (hn : n ∈ d.walk) (hp : d.parent? n = some p) :
    (d.view.followingSiblings n).flatMap d.view.withDescendants =
      d.walk.filter fun m => d.last n < m ∧ m < d.last p := by
  rw [w.followingSiblings_eq hn, hp]
  have hsibling {c : Nat} (hc : c ∈ d.walk.filter fun m => n < m ∧ d.parent? m = some p) :
      c ∈ d.walk ∧ n < c ∧ d.parent? c = some p := mem_walk_filter.mp hc
  refine w.flatMap_siblings pairwise_walk_filter
    (fun c hc => ⟨(hsibling hc).1, (hsibling hc).2.2⟩)
    (fun c hc => w.withDescendants_eq (hsibling hc).1) fun m hm => ?_
  constructor
  · rintro ⟨hnm, hmp⟩
    have := (w.inside_parent hn hp).1
    have := w.le_last (mem_walk.mp hn).1
    obtain ⟨c, hcw, hpc, hcm, hmc⟩ := w.exists_child_of_inside hm (by omega) hmp
    refine ⟨c, mem_walk_filter.mpr ⟨hcw, ?_, hpc⟩, hcm, hmc⟩
    by_contra hcn
    rcases Nat.eq_or_lt_of_le (Nat.not_lt.mp hcn) with rfl | hcn
    · omega
    · have := w.last_lt_sibling (mem_walk.mp hcw).1 (mem_walk.mp hn).1 hpc hp hcn
      omega
  · rintro ⟨c, hc, hcm, hmc⟩
    obtain ⟨hcw, hnc, hpc⟩ := hsibling hc
    have := w.last_lt_sibling (mem_walk.mp hn).1 (mem_walk.mp hcw).1 hp hpc hnc
    have := w.inside_parent hcw hpc
    omega

/-- The siblings before a node with all that is below them, against document order. -/
private theorem flatMap_precedingSiblings {n p : Nat} (hn : n ∈ d.walk) (hp : d.parent? n = some p) :
    ((d.view.precedingSiblings n).flatMap fun s => (d.view.withDescendants s).reverse) =
      (d.walk.filter fun m => p < m ∧ m < n).reverse := by
  rw [w.precedingSiblings_eq hn, hp, List.flatMap_reverse]
  simp only [Function.comp_def, List.reverse_reverse]
  have hsibling {c : Nat} (hc : c ∈ d.walk.filter fun m => m < n ∧ d.parent? m = some p) :
      c ∈ d.walk ∧ c < n ∧ d.parent? c = some p := mem_walk_filter.mp hc
  refine congrArg List.reverse (w.flatMap_siblings pairwise_walk_filter
    (fun c hc => ⟨(hsibling hc).1, (hsibling hc).2.2⟩)
    (fun c hc => w.withDescendants_eq (hsibling hc).1) fun m hm => ?_)
  constructor
  · rintro ⟨hpm, hmn⟩
    have := (w.inside_parent hn hp).2
    have := w.le_last (mem_walk.mp hn).1
    obtain ⟨c, hcw, hpc, hcm, hmc⟩ := w.exists_child_of_inside hm hpm (by omega)
    exact ⟨c, mem_walk_filter.mpr ⟨hcw, by omega, hpc⟩, hcm, hmc⟩
  · rintro ⟨c, hc, hcm, hmc⟩
    obtain ⟨hcw, hcn, hpc⟩ := hsibling hc
    have := w.last_lt_sibling (mem_walk.mp hcw).1 (mem_walk.mp hn).1 hpc hp hcn
    have := (w.inside_parent hcw hpc).1
    omega

theorem following_eq {n : Nat} (hn : n ∈ d.walk) :
    d.view.collect .following n = d.walk.filter fun m => d.last n < m := by
  refine w.parent_induction (motive := fun n => d.view.collect .following n =
    d.walk.filter fun m => d.last n < m) ?_ ?_ hn
  · rw [Query.View.collect, w.ancestors_root, eq_comm, List.filter_eq_nil_iff.mpr ?_]
    · simp [w.followingSiblings_root]
    · intro m hm
      have := (mem_walk.mp hm).1
      have := w.last_root
      simp
      omega
  · intro n p hn hp hpw ih
    rw [Query.View.collect] at ih ⊢
    rw [w.ancestors_cons (mem_walk.mp hn).1 hp, List.flatMap_cons, ih,
      w.flatMap_followingSiblings hn hp]
    have hin := w.inside_parent hn hp
    have := w.le_last (mem_walk.mp hn).1
    refine walk_filter_append (fun m hm => ?_) fun a b ha hb => by omega
    constructor
    · intro hnm
      rcases Nat.lt_or_ge (d.last p) m with hpm | hpm
      · exact .inr hpm
      · exact .inl ⟨hnm, w.ne_last hm (by omega) hpm⟩
    · omega

theorem preceding_eq {n : Nat} (hn : n ∈ d.walk) :
    d.view.collect .preceding n =
      (d.walk.filter fun m => m < n ∧ ¬ n < d.last m).reverse := by
  refine w.parent_induction (motive := fun n => d.view.collect .preceding n =
    (d.walk.filter fun m => m < n ∧ ¬ n < d.last m).reverse) ?_ ?_ hn
  · rw [Query.View.collect, w.ancestors_root, List.filter_eq_nil_iff.mpr (by simp)]
    simp [w.precedingSiblings_root]
  · intro n p hn hp hpw ih
    rw [Query.View.collect] at ih ⊢
    rw [w.ancestors_cons (mem_walk.mp hn).1 hp, List.flatMap_cons, ih,
      w.flatMap_precedingSiblings hn hp, ← List.reverse_append]
    have hin := w.inside_parent hn hp
    have := w.le_last (mem_walk.mp hn).1
    refine congrArg List.reverse (walk_filter_append (fun m hm => ?_) fun a b ha hb => by omega)
    have := w.around_iff hn hp (mem_walk.mp hm).1
    grind

/-! The partition -/

theorem ancestors_eq_containers {n : Nat} (hn : n ∈ d.walk) : d.view.collect .ancestor n =
    (d.walk.filter fun m => (d.node m).isContainer ∧ m < n ∧ n < d.last m).reverse := by
  rw [Query.View.collect, w.ancestors_eq hn]
  refine congrArg List.reverse (List.filter_congr fun m hm => decide_eq_decide.mpr ?_)
  have hlt := (mem_walk.mp hm).1
  exact ⟨fun h => ⟨w.isContainer_of_lt_last hlt (Nat.lt_trans h.1 h.2), h⟩, And.right⟩

theorem mem_ancestor {n m : Nat} (hn : n ∈ d.walk) :
    m ∈ d.view.collect .ancestor n ↔ m ∈ d.walk ∧ m < n ∧ n < d.last m := by
  rw [Query.View.collect, w.ancestors_eq hn, List.mem_reverse, mem_walk_filter]

theorem preceding_eq_sdiff {n : Nat} (hn : n ∈ d.walk) : d.view.collect .preceding n =
    (d.walk.filter fun m => m < n ∧ m ∉ d.view.collect .ancestor n).reverse := by
  rw [w.preceding_eq hn]
  refine congrArg List.reverse (List.filter_congr fun m hm => decide_eq_decide.mpr ?_)
  rw [w.mem_ancestor hn]
  tauto

/-- Around a node the axes meet each node of the walk once. -/
theorem perm_walk {n : Nat} (hn : n ∈ d.walk) :
    (n :: (d.view.collect .ancestor n ++ d.view.collect .descendant n ++
      d.view.collect .following n ++ d.view.collect .preceding n)).Perm d.walk := by
  have hl := w.le_last (mem_walk.mp hn).1
  have hbehind {m : Nat} (hm : m ∈ d.walk) (h : n < m) : m ≠ d.last n := fun he =>
    Nat.ne_of_lt (w.ne_last hm h (Nat.le_of_eq he)) he
  have hpairwise {p : Nat → Prop} [DecidablePred p] : (d.walk.filter (p ·)).Nodup :=
    pairwise_walk_filter.imp Nat.ne_of_lt
  have hancestor : d.view.collect .ancestor n = _ := w.ancestors_eq hn
  have hdescendant : d.view.collect .descendant n = _ := w.descendants_eq hn
  rw [hancestor, hdescendant, w.following_eq hn, w.preceding_eq hn]
  refine (List.perm_ext_iff_of_nodup ?_ (pairwise_walk.imp Nat.ne_of_lt)).mpr fun m => ?_
  · simp only [List.nodup_cons, List.nodup_append', List.nodup_reverse, hpairwise,
      List.disjoint_left, List.mem_append, List.mem_reverse, mem_walk_filter]
    grind
  · simp only [List.mem_cons, List.mem_append, List.mem_reverse, mem_walk_filter]
    grind

theorem pairwise_of_isReverse {n : Nat} (hn : n ∈ d.walk) {axis : Query.Axis}
    (h : axis.isReverse) : (d.view.collect axis n).Pairwise (· > ·) := by
  have hreverse {p : Nat → Prop} [DecidablePred p] :
      (d.walk.filter (p ·)).reverse.Pairwise (· > ·) :=
    List.pairwise_reverse.mpr pairwise_walk_filter
  cases axis with
  | parent =>
    rw [Query.View.collect]
    cases d.view.parent? n <;> simp
  | ancestor =>
    rw [Query.View.collect, w.ancestors_eq hn]
    exact hreverse
  | ancestorOrSelf =>
    rw [Query.View.collect, List.pairwise_cons]
    refine ⟨fun m hm => ((w.mem_ancestor hn).mp hm).2.1, ?_⟩
    rw [w.ancestors_eq hn]
    exact hreverse
  | precedingSibling =>
    rw [Query.View.collect, w.precedingSiblings_eq hn]
    exact hreverse
  | preceding =>
    rw [w.preceding_eq hn]
    exact hreverse
  | _ => cases h

/-- What the axes collect from a node that a walk meets: an extent, what lies outside it on either
side, or the other children of the parent, in document order on a forward axis and against it on a
reverse one. The node with its ancestors, its descendants and what precedes and follows them is the
whole walk, each node once. -/
theorem axes_partition {n : Nat} (hn : n ∈ d.walk) :
    (d.view.collect .descendant n = d.walk.filter fun m => n < m ∧ m < d.last n) ∧
    (d.view.collect .following n = d.walk.filter fun m => d.last n < m) ∧
    (d.view.collect .ancestor n =
      (d.walk.filter fun m => (d.node m).isContainer ∧ m < n ∧ n < d.last m).reverse) ∧
    (d.view.collect .preceding n =
      (d.walk.filter fun m => m < n ∧ m ∉ d.view.collect .ancestor n).reverse) ∧
    (d.view.collect .followingSibling n =
      d.walk.filter fun m => n < m ∧ d.parent? m = d.parent? n) ∧
    (d.view.collect .precedingSibling n =
      (d.walk.filter fun m => m < n ∧ d.parent? m = d.parent? n).reverse) ∧
    (n :: (d.view.collect .ancestor n ++ d.view.collect .descendant n ++
      d.view.collect .following n ++ d.view.collect .preceding n)).Perm d.walk ∧
    d.walk.Pairwise (· < ·) ∧
    ∀ axis : Query.Axis, axis.isReverse → (d.view.collect axis n).Pairwise (· > ·) :=
  ⟨w.descendants_eq hn, w.following_eq hn, w.ancestors_eq_containers hn, w.preceding_eq_sdiff hn,
    w.followingSiblings_eq hn, w.precedingSiblings_eq hn, w.perm_walk hn, pairwise_walk,
    fun _ h => w.pairwise_of_isReverse hn h⟩

end WellFormed

/-- An element between a text and a comment. -/
theorem axes_partition_between :
    let d := ofNodes 0 .xml [.document, .element ⟨"", "a"⟩, .attribute ⟨"", "k"⟩ "v", .text "x",
      .element ⟨"", "b"⟩, .text "y", .finish, .comment "z", .finish, .finish]
    d.view.collect .descendant 4 = [5] ∧ d.view.collect .following 4 = [7] ∧
      d.view.collect .ancestor 4 = [1, 0] ∧ d.view.collect .preceding 4 = [3] := by
  intro d
  have w : d.WellFormed := wellFormed_ofNodes 0 .xml
    [.element ⟨"", "a"⟩ [(⟨"", "k"⟩, "v")] [.text "x", .element ⟨"", "b"⟩ [] [.text "y"], .comment "z"]]
  obtain ⟨hdescendant, hfollowing, hancestor, hpreceding, -⟩ :=
    w.axes_partition (n := 4) (by decide)
  refine ⟨hdescendant.trans (by decide), hfollowing.trans (by decide),
    hancestor.trans (by decide), ?_⟩
  rw [hpreceding, hancestor]
  decide

end Document
end MarkupGraft
