import MarkupGraft.Proofs.Template.Ranking

/-!
What sorting promises about the order of items: items with the same keys keep their order, and an
item that ranks in front of another one comes in front of it, unless items with too few keys hold it
back.
-/

namespace MarkupGraft.SortKeys
variable {α : Type} {items : List (α × SortKeys)} {i j : Fin items.length}

/-- Whether any two of the items agree on directions. -/
def AllAgree (items : List (α × SortKeys)) : Prop := ∀ x ∈ items, ∀ y ∈ items, x.2.Agrees y.2

theorem AllAgree.keysAt (h : AllAgree items) (i j : Fin items.length) :
    (keysAt items i).Agrees (keysAt items j) :=
  h _ (items.get_mem i) _ (items.get_mem j)

theorem sort_eq_arrangement (h : AllAgree items) :
    sort items = .ok ((arrangement items).map items.get) := by
  rw [sort_eq h, map_arrangement]

theorem perm_of_sort {sorted : List (α × SortKeys)} (h : sort items = .ok sorted) :
    sorted.Perm items := by
  have hsorted := Except.ok.inj (h.symm.trans (sort_eq_arrangement (agrees_of_sort h)))
  rw [hsorted]
  exact ((arrangement_perm items).map items.get).trans (.of_eq (List.map_get_finRange items))

theorem rank_eq_gt_iff (h : AllAgree items) :
    (keysAt items i).rank (keysAt items j) = .gt ↔
      (keysAt items j).rank (keysAt items i) = .lt := by
  rw [rank_swap (h.keysAt i j), Ordering.swap_eq_lt]

/-- An item that ranks in front of an earlier one by the first `n` keys comes in front of it when
both, and all that stand between them, have these keys. -/
theorem sublist_arrangement_of_first {n : Nat} (h : AllAgree items) (hij : i < j)
    (hrank : ((keysAt items j).first n).rank ((keysAt items i).first n) = .lt)
    (hkeys : ∀ e, i ≤ e → e ≤ j → n ≤ (keysAt items e).keys.length) :
    [j, i].Sublist (arrangement items) := by
  induction j using WellFoundedLT.induction with
  | ind j ih =>
    have hfront : (keysAt items j).rank (keysAt items i) = .lt := rank_eq_lt_of_first hrank
    rw [sublist_arrangement_iff hij]
    rintro e hej (rfl | hie)
    · exact (rank_eq_gt_iff h).mpr hfront
    rw [rank_eq_gt_iff h]
    rcases lt_or_gt_of_ne (ne_of_sublist_arrangement hie) with hlt | hgt
    · -- the earlier item has not gone past `e`, so they rank alike or in order
      have hn := (h.keysAt i e).first n
      cases hcase : ((keysAt items i).first n).rank ((keysAt items e).first n) with
      | lt => exact rank_eq_lt_of_first (rank_lt_trans ((h.keysAt j i).first n) hn hrank hcase)
      | eq =>
        have hlength : ((keysAt items i).first n).keys.length =
            ((keysAt items e).first n).keys.length := by
          rw [length_first (hkeys i le_rfl hij.le), length_first (hkeys e hlt.le hej.le)]
        rw [eq_of_rank_eq hn hlength hcase] at hrank
        exact rank_eq_lt_of_first hrank
      | gt =>
        have hei : ((keysAt items e).first n).rank ((keysAt items i).first n) = .lt := by
          rw [rank_swap hn, hcase]
          rfl
        have hbefore := ih e hej hlt hei fun x hix hxe => hkeys x hix (hxe.trans hej.le)
        exact absurd hbefore (not_sublist_arrangement_swap hie)
    · -- the earlier item has gone past `e`, so it ranks in front of it
      have he := (sublist_arrangement_iff hgt).mp hie e hgt (.inl rfl)
      exact rank_lt_trans (h.keysAt j i) (h.keysAt i e) hfront ((rank_eq_gt_iff h).mp he)

/-- An item that ranks in front of an earlier one comes in front of it when no item between them has
fewer keys than both. -/
theorem sublist_arrangement_of_between (h : AllAgree items) (hij : i < j)
    (hrank : (keysAt items j).rank (keysAt items i) = .lt)
    (hkeys : ∀ e, i < e → e < j →
      min (keysAt items i).keys.length (keysAt items j).keys.length ≤
        (keysAt items e).keys.length) :
    [j, i].Sublist (arrangement items) := by
  have hfirst := rank_first (min_comm (keysAt items i).keys.length (keysAt items j).keys.length).ge
  refine sublist_arrangement_of_first h hij (hfirst.trans hrank) fun e hie hej => ?_
  rcases hie.eq_or_lt with rfl | hie
  · exact min_le_left _ _
  · rcases hej.eq_or_lt with rfl | hej
    · exact min_le_right _ _
    · exact hkeys e hie hej

/-! Items that all have as many keys -/

/-- Whether the item at a position ranks in front of another one or with it. -/
def isNoLater (items : List (α × SortKeys)) (i j : Fin items.length) : Bool :=
  ((keysAt items i).rank (keysAt items j)).isLE

section SameLength
variable (h : AllAgree items)
  (hlength : ∀ i j, (keysAt items i).keys.length = (keysAt items j).keys.length)
include h hlength

theorem sublist_arrangement_of_rank (hrank : (keysAt items i).rank (keysAt items j) = .lt) :
    [i, j].Sublist (arrangement items) := by
  have hne : i ≠ j := by
    rintro rfl
    rw [rank_self] at hrank
    cases hrank
  rcases lt_or_gt_of_ne hne with hij | hji
  · refine sublist_arrangement_of_lt hij ?_
    rw [hrank]
    decide
  · refine sublist_arrangement_of_between h hji hrank fun e _ _ => ?_
    rw [hlength j e]
    exact min_le_left _ _

/-- What comes in front ranks in front, or ranks with the other one and stood in front of it. -/
theorem rank_of_sublist_arrangement (hij : [i, j].Sublist (arrangement items)) :
    (keysAt items i).rank (keysAt items j) = .lt ∨
      (keysAt items i).rank (keysAt items j) = .eq ∧ i < j := by
  cases hrank : (keysAt items i).rank (keysAt items j) with
  | lt => exact .inl rfl
  | eq =>
    refine .inr ⟨rfl, lt_of_le_of_ne (le_of_not_gt fun hji => ?_) (ne_of_sublist_arrangement hij)⟩
    have hkeep := sublist_arrangement_of_lt hji (by rw [rank_swap (h.keysAt i j), hrank]; decide)
    exact not_sublist_arrangement_swap hij hkeep
  | gt =>
    have hmove := sublist_arrangement_of_rank h hlength ((rank_eq_gt_iff h).mp hrank)
    exact absurd hmove (not_sublist_arrangement_swap hij)

private theorem isNoLater_trans {i j k : Fin items.length} (hij : isNoLater items i j)
    (hjk : isNoLater items j k) : isNoLater items i k := by
  have hequal {i j : Fin items.length} := eq_of_rank_eq (h.keysAt i j) (hlength i j)
  simp only [isNoLater, Ordering.isLE_iff_eq_lt_or_eq_eq] at *
  rcases hij with hij | hij
  · rcases hjk with hlt | heq
    · exact .inl (rank_lt_trans (h.keysAt i j) (h.keysAt j k) hij hlt)
    · exact .inl (hequal heq ▸ hij)
  · rwa [hequal hij]

omit hlength in
private theorem isNoLater_total (i j : Fin items.length) :
    (isNoLater items i j || isNoLater items j i) = true := by
  simp only [isNoLater, rank_swap (h.keysAt i j)]
  cases (keysAt items i).rank (keysAt items j) <;> rfl

private theorem arrangement_eq_mergeSort :
    arrangement items = (List.finRange items.length).mergeSort (isNoLater items) := by
  have htrans (i j k) (hij : isNoLater items i j) (hjk : isNoLater items j k) :
      isNoLater items i k := isNoLater_trans h hlength hij hjk
  have htotal := isNoLater_total h
  have hperm := List.mergeSort_perm (List.finRange items.length) (isNoLater items)
  have hmem (i) : i ∈ (List.finRange items.length).mergeSort (isNoLater items) :=
    hperm.mem_iff.mpr (List.mem_finRange i)
  refine ((arrangement_perm items).trans hperm.symm).eq_of_pair_sublist (nodup_arrangement items)
    fun i j hij => ?_
  rcases rank_of_sublist_arrangement h hlength hij with hlt | ⟨heq, hlt⟩
  · refine (List.pair_sublist_or_swap (hmem i) (hmem j)
      (ne_of_sublist_arrangement hij)).resolve_right fun hji => ?_
    have hle : isNoLater items j i :=
      List.pairwise_iff_forall_sublist.mp (List.pairwise_mergeSort htrans htotal _) hji
    simp [isNoLater, rank_swap (h.keysAt i j), hlt] at hle
  · exact List.pair_sublist_mergeSort htrans htotal (by simp [isNoLater, heq])
      (pair_sublist_finRange hlt)

/-- Of items that all have as many keys, sorting gives what any stable sort gives. -/
theorem map_arrangement_eq_mergeSort : (arrangement items).map items.get =
    items.mergeSort fun x y => (x.2.rank y.2).isLE := by
  have hmap := @List.map_mergeSort _ _ (isNoLater items) (fun x y => (x.2.rank y.2).isLE) items.get
    (List.finRange items.length) fun _ _ _ _ => rfl
  rw [arrangement_eq_mergeSort h hlength, hmap, List.map_get_finRange]

end SameLength

/-- Sorting is stable. Items that agree on directions are compared by the bytes of their keys,
position by position, and sorting them succeeds and rearranges them. Items with the same keys keep
their order, whatever other items there are; where all have as many keys, the result is that of a
stable sort. -/
theorem sort_stable {items : List (α × SortKeys)}
    (h : ∀ x ∈ items, ∀ y ∈ items, x.2.Agrees y.2) :
    (∀ x ∈ items, ∀ y ∈ items, x.2.compare y.2 = .ok (x.2.rank y.2)) ∧
      ∃ order : List (Fin items.length), order.Perm (List.finRange items.length) ∧
        sort items = .ok (order.map items.get) ∧
        (∀ i j, i < j → (items.get i).2 = (items.get j).2 → [i, j].Sublist order) ∧
        ((∀ x ∈ items, ∀ y ∈ items, x.2.keys.length = y.2.keys.length) →
          order.map items.get = items.mergeSort fun x y => (x.2.rank y.2).isLE) := by
  refine ⟨fun x hx y hy => compare_eq (h x hx y hy), arrangement items, arrangement_perm items,
    sort_eq_arrangement h, fun i j hij hkeys => ?_, fun hlength => ?_⟩
  · refine sublist_arrangement_of_lt hij ?_
    rw [keysAt, keysAt, hkeys, rank_self]
    decide
  · exact map_arrangement_eq_mergeSort h fun i j =>
      hlength _ (items.get_mem i) _ (items.get_mem j)

theorem sort_stable_around_missing_key :
    let items : List (Nat × SortKeys) := [(0, ⟨[⟨.ascending, "b"⟩]⟩), (1, {}),
      (2, ⟨[⟨.ascending, "b"⟩]⟩), (3, ⟨[⟨.ascending, "a"⟩, ⟨.descending, "c"⟩]⟩)]
    (∀ x ∈ items, ∀ y ∈ items, x.2.Agrees y.2) ∧
      ∃ order : List (Fin 4), order.Perm (List.finRange 4) ∧
        sort items = .ok (order.map items.get) ∧ [0, 2].Sublist order := by
  intro items
  have hagree : ∀ x ∈ items, ∀ y ∈ items, x.2.Agrees y.2 := by decide
  obtain ⟨-, order, hperm, hsort, hkeep, -⟩ := sort_stable hagree
  exact ⟨hagree, order, hperm, hsort, hkeep 0 2 (by decide) rfl⟩

/-- Where sorting puts an item that compares in front of another one. It comes in front if it stood
there, and keeps its place behind an item that it does not compare in front of; so it overtakes an
earlier item just when it compares in front of every item that it meets up to that one. No item holds
it back in this way unless it has fewer keys than both. -/
theorem sort_precedes {items sorted : List (α × SortKeys)} (h : sort items = .ok sorted) :
    ∃ order : List (Fin items.length), order.Perm (List.finRange items.length) ∧
      sorted = order.map items.get ∧
      (∀ x y, x < y → (items.get x).2.compare (items.get y).2 ≠ .ok .gt → [x, y].Sublist order) ∧
      ∀ x y, (items.get x).2.compare (items.get y).2 = .ok .lt →
        ([x, y].Sublist order ↔ x < y ∨ ∀ e < x, e = y ∨ [y, e].Sublist order →
          (items.get x).2.compare (items.get e).2 = .ok .lt) ∧
        ((∀ e, y < e → e < x → min (items.get x).2.keys.length (items.get y).2.keys.length ≤
          (items.get e).2.keys.length) → [x, y].Sublist order) := by
  have hagree : AllAgree items := agrees_of_sort h
  have hcompare (i j : Fin items.length) :
      (items.get i).2.compare (items.get j).2 = .ok ((keysAt items i).rank (keysAt items j)) :=
    compare_eq (hagree.keysAt i j)
  refine ⟨arrangement items, arrangement_perm items,
    Except.ok.inj (h.symm.trans (sort_eq_arrangement hagree)), fun x y hxy hrank => ?_,
    fun x y hrank => ?_⟩
  · rw [hcompare] at hrank
    exact sublist_arrangement_of_lt hxy fun hgt => hrank (by rw [hgt])
  rw [hcompare] at hrank
  have hlt := Except.ok.inj hrank
  rcases lt_trichotomy x y with hxy | rfl | hyx
  · have hkeep := sublist_arrangement_of_lt hxy (by rw [hlt]; decide)
    exact ⟨iff_of_true hkeep (.inl hxy), fun _ => hkeep⟩
  · rw [rank_self] at hlt
    cases hlt
  · refine ⟨?_, fun hkeys => ?_⟩
    · rw [sublist_arrangement_iff hyx, or_iff_right hyx.asymm]
      refine forall₃_congr fun e _ _ => ?_
      rw [hcompare, rank_eq_gt_iff hagree, Except.ok.injEq]
    · refine sublist_arrangement_of_between hagree hyx hlt fun e hye hex => ?_
      rw [min_comm]
      exact hkeys e hye hex

theorem sort_precedes_over_key :
    let items : List (Nat × SortKeys) := [(0, ⟨[⟨.ascending, "b"⟩]⟩),
      (1, ⟨[⟨.ascending, "b"⟩, ⟨.descending, "c"⟩]⟩), (2, ⟨[⟨.ascending, "a"⟩]⟩)]
    (∃ sorted, sort items = .ok sorted) ∧
      (items.get 2).2.compare (items.get 0).2 = .ok .lt ∧
      ∃ order : List (Fin 3), sort items = .ok (order.map items.get) ∧ [2, 0].Sublist order := by
  intro items
  have hsort : sort items = .ok [items.get 2, items.get 0, items.get 1] := rfl
  have hrank : (items.get 2).2.compare (items.get 0).2 = .ok .lt := rfl
  obtain ⟨order, -, hsorted, -, hfront⟩ := sort_precedes hsort
  have hkeys : ∀ e : Fin 3, 0 < e → e < 2 →
      min (items.get 2).2.keys.length (items.get 0).2.keys.length ≤
        (items.get e).2.keys.length := by decide
  exact ⟨⟨_, hsort⟩, hrank, order, hsorted ▸ hsort, (hfront 2 0 hrank).2 hkeys⟩

/-- An item without keys that stands between two others keeps them in an order that is not theirs. -/
theorem sort_missing_key_holds_back :
    ¬∀ items sorted : List (Nat × SortKeys), sort items = .ok sorted →
      ∀ x ∈ items, ∀ y ∈ items, x.2.compare y.2 = .ok .lt → [x, y].Sublist sorted := by
  intro h
  have hbetween := h
    [(0, ⟨[⟨.ascending, "b"⟩]⟩), (1, {}), (2, ⟨[⟨.ascending, "a"⟩]⟩)]
    [(0, ⟨[⟨.ascending, "b"⟩]⟩), (1, {}), (2, ⟨[⟨.ascending, "a"⟩]⟩)] rfl
    (2, ⟨[⟨.ascending, "a"⟩]⟩) (by simp) (0, ⟨[⟨.ascending, "b"⟩]⟩) (by simp) rfl
  exact absurd hbetween (by decide)

end MarkupGraft.SortKeys
