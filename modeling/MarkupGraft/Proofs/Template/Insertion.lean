import Mathlib.Data.List.Sort

/-!
Sorting by insertion under a relation that need be neither transitive nor total. What is inserted
goes in front of the first element that it is related to, so two elements come in the order that the
later inserted one of them finds.
-/

namespace List
variable {α : Type} {l earlier later : List α} {a b x y : α}

theorem Nodup.not_pair_sublist_swap (hn : l.Nodup) (h : [x, y].Sublist l) : ¬[y, x].Sublist l := by
  induction l with
  | nil => cases h
  | cons c l ih =>
    obtain ⟨hc, hn⟩ := nodup_cons.mp hn
    intro h'
    cases h with
    | cons _ h =>
      cases h' with
      | cons _ h' => exact ih hn h h'
      | cons_cons _ h' => exact hc (h.subset (mem_cons_of_mem _ mem_cons_self))
    | cons_cons _ h =>
      cases h' with
      | cons _ h' => exact hc (h'.subset (mem_cons_of_mem _ mem_cons_self))
      | cons_cons _ h' => exact hc (h.subset mem_cons_self)

theorem pair_sublist_or_swap (hx : x ∈ l) (hy : y ∈ l) (hne : x ≠ y) :
    [x, y].Sublist l ∨ [y, x].Sublist l := by
  induction l with
  | nil => cases hx
  | cons c l ih =>
    by_cases hxc : x = c
    · subst hxc
      exact .inl ((singleton_sublist.mpr (mem_of_ne_of_mem hne.symm hy)).cons_cons x)
    · have hxl := mem_of_ne_of_mem hxc hx
      by_cases hyc : y = c
      · subst hyc
        exact .inr ((singleton_sublist.mpr hxl).cons_cons y)
      · exact (ih hxl (mem_of_ne_of_mem hyc hy)).imp (Sublist.cons c) (Sublist.cons c)

/-- Two elements of a sublist come in the order that they have there. -/
theorem Sublist.pair_iff (h : earlier.Sublist l) (hn : l.Nodup) (hx : x ∈ earlier)
    (hy : y ∈ earlier) : [x, y].Sublist l ↔ [x, y].Sublist earlier := by
  refine ⟨fun hxy => ?_, fun hxy => hxy.trans h⟩
  have hne : x ≠ y := by
    rintro rfl
    exact (nodup_cons.mp (hxy.nodup hn)).1 mem_cons_self
  exact (pair_sublist_or_swap hx hy hne).resolve_right
    fun hyx => hn.not_pair_sublist_swap hxy (hyx.trans h)

/-- Two arrangements of the same elements are the same if any two elements come in the same order. -/
theorem Perm.eq_of_pair_sublist {l' : List α} (h : l.Perm l') (hn : l.Nodup)
    (hpair : ∀ x y, [x, y].Sublist l → [x, y].Sublist l') : l = l' := by
  have hl : l.Pairwise fun x y => [x, y].Sublist l' :=
    pairwise_iff_forall_sublist.mpr (hpair _ _)
  have hl' : l'.Pairwise fun x y => [x, y].Sublist l' := pairwise_iff_forall_sublist.mpr id
  refine h.eq_of_pairwise (fun x y _ _ hxy hyx => ?_) hl hl'
  exact absurd hyx ((h.nodup hn).not_pair_sublist_swap hxy)

section Insertion
variable {r : α → α → Prop} [DecidableRel r]

/-- What is inserted comes behind an element when it goes in front of none up to that element. -/
theorem pair_sublist_orderedInsert_iff (hn : l.Nodup) (ha : a ∉ l) :
    [b, a].Sublist (l.orderedInsert r a) ↔
      b ∈ l ∧ ∀ e ∈ l, e = b ∨ [e, b].Sublist l → ¬r a e := by
  induction l with
  | nil => simp
  | cons c l ih =>
    obtain ⟨hc, hn⟩ := nodup_cons.mp hn
    by_cases hac : r a c
    · rw [orderedInsert_cons, if_pos hac]
      constructor
      · intro h
        cases h with
        | cons _ h => exact absurd (h.subset (mem_cons_of_mem _ mem_cons_self)) ha
        | cons_cons _ h => exact absurd (singleton_sublist.mp h) ha
      · rintro ⟨hb, h⟩
        refine absurd hac (h c mem_cons_self ?_)
        exact (mem_cons.mp hb).imp Eq.symm fun hb => (singleton_sublist.mpr hb).cons_cons c
    · rw [orderedInsert_cons, if_neg hac]
      have hal : a ∉ l := fun h => ha (mem_cons_of_mem _ h)
      by_cases hbc : b = c
      · subst hbc
        refine iff_of_true ((singleton_sublist.mpr ?_).cons_cons b) ⟨mem_cons_self, ?_⟩
        · exact (mem_orderedInsert r).mpr (.inl rfl)
        · rintro e - (rfl | he)
          · exact hac
          · cases he with
            | cons _ he => exact absurd (he.subset (mem_cons_of_mem _ mem_cons_self)) hc
            | cons_cons _ he => exact absurd (singleton_sublist.mp he) hc
      · have hbl : b ∈ c :: l ↔ b ∈ l := by simp [hbc]
        have hpair : [b, a].Sublist (c :: l.orderedInsert r a) ↔
            [b, a].Sublist (l.orderedInsert r a) := by simp [cons_sublist_cons', hbc]
        rw [hpair, ih hn hal, hbl]
        refine and_congr_right fun hb => ?_
        rw [forall_mem_cons]
        constructor
        · intro h
          refine ⟨fun _ => hac, fun e he heb => h e he ?_⟩
          have hec : e ≠ c := fun hec => hc (hec ▸ he)
          exact heb.imp_right fun heb => by simpa [cons_sublist_cons', hec] using heb
        · exact fun h e he heb => h.2 e he (heb.imp_right (Sublist.cons c))

/-- Where an element is put by sorting, relative to an element that is sorted before it. -/
theorem pair_sublist_insertionSort_iff (hl : l = later ++ a :: earlier) (hn : l.Nodup)
    (hb : b ∈ earlier) : [b, a].Sublist (l.insertionSort r) ↔
      ∀ e ∈ earlier, e = b ∨ [e, b].Sublist (l.insertionSort r) → ¬r a e := by
  have hsorted : ((a :: earlier).insertionSort r).Sublist (l.insertionSort r) := by
    subst hl
    clear hn
    induction later with
    | nil => exact Sublist.refl _
    | cons c later ih => exact ih.trans (sublist_orderedInsert c _)
  have hnl : (l.insertionSort r).Nodup := (perm_insertionSort r l).nodup_iff.mpr hn
  have hna : (a :: earlier).Nodup := hn.sublist (hl ▸ sublist_append_right ..)
  have hne : (earlier.insertionSort r).Nodup :=
    (perm_insertionSort r earlier).nodup_iff.mpr (nodup_cons.mp hna).2
  have hmem {x : α} (hx : x ∈ a :: earlier) : x ∈ (a :: earlier).insertionSort r :=
    (mem_insertionSort r).mpr hx
  have hsub : (earlier.insertionSort r).Sublist (l.insertionSort r) :=
    (sublist_orderedInsert a _).trans hsorted
  rw [hsorted.pair_iff hnl (hmem (mem_cons_of_mem _ hb)) (hmem mem_cons_self), insertionSort_cons,
    pair_sublist_orderedInsert_iff hne (by simpa using (nodup_cons.mp hna).1)]
  simp only [mem_insertionSort, hb, true_and]
  refine forall₂_congr fun e he => ?_
  rw [hsub.pair_iff hnl ((mem_insertionSort r).mpr he) ((mem_insertionSort r).mpr hb)]

end Insertion
end List
