import Mathlib.Data.List.FinRange
import MarkupGraft.Proofs.Template.Comparison
import MarkupGraft.Proofs.Template.Insertion

/-!
The order that sorting gives to items. An item moves toward the front past those that rank behind
it, and stops at the first that does not: at one with the same keys, but also at one that has too few
keys to rank at all. So which of two items comes first is told by the items that the later one meets.
-/

namespace MarkupGraft.SortKeys
variable {α : Type}

/-- Whether an item comes no further than another one that is in front of it. -/
def StaysBehind (later earlier : SortKeys) : Prop := earlier.rank later ≠ .gt

instance (later earlier : SortKeys) : Decidable (StaysBehind later earlier) :=
  inferInstanceAs (Decidable (_ ≠ _))

/-! Sorting is insertion -/

theorem insertFromEnd_eq {item : α × SortKeys} {done : List (α × SortKeys)}
    (h : ∀ x ∈ done, x.2.Agrees item.2) : insertFromEnd item done =
      .ok (done.orderedInsert (fun x y => StaysBehind x.2 y.2) item) := by
  induction done with
  | nil => rfl
  | cons last rest ih =>
    obtain ⟨hlast, hrest⟩ := List.forall_mem_cons.mp h
    rw [insertFromEnd, compare_eq hlast, List.orderedInsert_cons]
    simp only [bind, Except.bind, ih hrest]
    by_cases hgt : last.2.rank item.2 = .gt
    · have hmoves : ¬StaysBehind item.2 last.2 := fun h => h hgt
      simp [hgt, hmoves, pure, Except.pure]
    · have hstays : StaysBehind item.2 last.2 := hgt
      rw [if_pos hstays]
      split
      · exact absurd ‹_› hgt
      · rfl

private theorem foldlM_insertFromEnd {items done : List (α × SortKeys)}
    (h : ∀ x ∈ items, ∀ y ∈ items ++ done, y.2.Agrees x.2) :
    items.foldlM (fun done item => insertFromEnd item done) done =
      .ok (items.foldl (fun done item => done.orderedInsert (fun x y => StaysBehind x.2 y.2) item)
        done) := by
  induction items generalizing done with
  | nil => rfl
  | cons item items ih =>
    obtain ⟨hitem, hitems⟩ := List.forall_mem_cons.mp h
    rw [List.foldlM_cons, insertFromEnd_eq fun x hx => hitem x (by simp [hx])]
    refine ih fun x hx y hy => hitems x hx y ?_
    simp only [List.mem_append, List.mem_orderedInsert, List.mem_cons] at hy ⊢
    tauto

theorem sort_eq {items : List (α × SortKeys)} (h : ∀ x ∈ items, ∀ y ∈ items, x.2.Agrees y.2) :
    sort items =
      .ok (items.reverse.insertionSort fun x y => StaysBehind x.2 y.2).reverse := by
  have hdirections : checkDirections (items.map (·.2)) = .ok () := by
    simpa [checkDirections_eq_ok_iff] using fun _ x hx _ y hy => h _ hx _ hy
  rw [sort, hdirections, foldlM_insertFromEnd fun x hx y hy => h y (by simpa using hy) x hx]
  simp only [List.insertionSort, List.foldr_reverse]
  rfl

theorem agrees_of_sort {items sorted : List (α × SortKeys)} (h : sort items = .ok sorted) :
    ∀ x ∈ items, ∀ y ∈ items, x.2.Agrees y.2 := by
  rw [sort, Markup.bind_eq_ok_iff] at h
  obtain ⟨_, h, -⟩ := h
  intro x hx y hy
  exact checkDirections_eq_ok_iff.mp h _ (List.mem_map_of_mem hx) _ (List.mem_map_of_mem hy)

/-! The places of the items -/

section Arrangement
variable (items : List (α × SortKeys))

/-- The keys of the item at a position of a list. -/
def keysAt (i : Fin items.length) : SortKeys := (items.get i).2

/-- The positions of items as sorting collects them, the last one first. -/
def fromEnd : List (Fin items.length) :=
  (List.finRange items.length).reverse.insertionSort
    fun i j => StaysBehind (keysAt items i) (keysAt items j)

/-- The positions of items, in the order in which sorting puts them. -/
def arrangement : List (Fin items.length) := (fromEnd items).reverse

theorem arrangement_perm : (arrangement items).Perm (List.finRange items.length) :=
  (List.reverse_perm _).trans ((List.perm_insertionSort _ _).trans (List.reverse_perm _))

theorem nodup_arrangement : (arrangement items).Nodup :=
  (arrangement_perm items).nodup_iff.mpr (List.nodup_finRange _)

theorem sublist_arrangement {i j : Fin items.length} :
    [i, j].Sublist (arrangement items) ↔ [j, i].Sublist (fromEnd items) :=
  @List.reverse_sublist _ [j, i] (fromEnd items)

theorem map_arrangement : (arrangement items).map items.get =
    (items.reverse.insertionSort fun x y => StaysBehind x.2 y.2).reverse := by
  have h := List.map_insertionSort (fun i j => StaysBehind (keysAt items i) (keysAt items j))
    (fun x y => StaysBehind x.2 y.2) items.get (List.finRange items.length).reverse
    fun _ _ _ _ => Iff.rfl
  rw [arrangement, fromEnd, List.map_reverse, h, List.map_reverse, List.map_get_finRange]

variable {items} {i j : Fin items.length}

theorem not_sublist_arrangement_swap (h : [i, j].Sublist (arrangement items)) :
    ¬[j, i].Sublist (arrangement items) := (nodup_arrangement items).not_pair_sublist_swap h

theorem ne_of_sublist_arrangement (h : [i, j].Sublist (arrangement items)) : i ≠ j := by
  rintro rfl
  exact not_sublist_arrangement_swap h h

theorem pair_sublist_finRange {n : Nat} {i j : Fin n} (hij : i < j) :
    [i, j].Sublist (List.finRange n) :=
  (List.pair_sublist_or_swap (List.mem_finRange i) (List.mem_finRange j) hij.ne).resolve_right
    fun hji => (List.pairwise_iff_forall_sublist.mp (List.pairwise_lt_finRange n) hji).asymm hij

/-- An item stays behind those that do not rank behind it. -/
theorem sublist_arrangement_of_lt (hij : i < j)
    (h : (keysAt items i).rank (keysAt items j) ≠ .gt) : [i, j].Sublist (arrangement items) := by
  rw [sublist_arrangement]
  exact List.pair_sublist_insertionSort h (List.reverse_sublist.mpr (pair_sublist_finRange hij))

/-- An item comes in front of an earlier one when it ranks in front of that one and of all those up
to it. -/
theorem sublist_arrangement_iff (hij : i < j) : [j, i].Sublist (arrangement items) ↔
    ∀ e < j, e = i ∨ [i, e].Sublist (arrangement items) →
      (keysAt items e).rank (keysAt items j) = .gt := by
  obtain ⟨earlier, later, hpositions⟩ := List.append_of_mem (List.mem_finRange j)
  have hsorted := List.pairwise_lt_finRange items.length
  rw [hpositions, List.pairwise_append, List.pairwise_cons] at hsorted
  have hearlier {e : Fin items.length} : e ∈ earlier ↔ e < j := by
    refine ⟨fun he => hsorted.2.2 e he j List.mem_cons_self, fun he => ?_⟩
    have hmem := List.mem_finRange e
    rw [hpositions, List.mem_append, List.mem_cons] at hmem
    rcases hmem with h | rfl | h
    · exact h
    · exact absurd he (lt_irrefl e)
    · exact absurd (hsorted.2.1.1 e h) he.asymm
  have hreverse : (List.finRange items.length).reverse =
      later.reverse ++ j :: earlier.reverse := by
    rw [hpositions, List.reverse_append, List.reverse_cons, List.append_assoc]
    rfl
  simp only [sublist_arrangement]
  refine (List.pair_sublist_insertionSort_iff hreverse
    (List.nodup_reverse.mpr (List.nodup_finRange _))
    (List.mem_reverse.mpr (hearlier.mpr hij))).trans ?_
  simp only [List.mem_reverse, hearlier, StaysBehind, not_not]
  rfl

end Arrangement
end MarkupGraft.SortKeys
