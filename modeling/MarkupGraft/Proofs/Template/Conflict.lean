import Mathlib.Data.List.Permutation
import MarkupGraft.Proofs.Template.Ranking

/-!
Conflicts between directions. They are found before anything moves: directions are refused just when
two items give the key of one position different ones, and items that have been accepted are put in
order without a comparison that fails.
-/

namespace MarkupGraft.SortKeys
variable {α : Type} {n : Nat}

/-- Whether two of the items, next to each other or not, have keys of different directions at a
position. -/
def DisagreeAt (items : List SortKeys) (position : Nat) : Prop :=
  ∃ k l a b, [k, l].Sublist items ∧ k.keys[position]? = some a ∧ l.keys[position]? = some b ∧
    a.order ≠ b.order

/-! Where directions are refused -/

theorem exists_of_checkOne_error {position : Nat} {seen : List SortOrder} {keys : List SortKey}
    {conflict : SortConflict} (h : checkOne position seen keys = .error conflict) :
    ∃ i order a, conflict.position = position + i ∧ seen[i]? = some order ∧ keys[i]? = some a ∧
      order ≠ a.order := by
  induction seen generalizing position keys with
  | nil => cases keys <;> cases h
  | cons order seen ih =>
    cases keys with
    | nil => cases h
    | cons a keys =>
      rw [checkOne] at h
      split at h
      · rename_i hne
        cases h
        exact ⟨0, order, a, rfl, rfl, rfl, hne⟩
      · cases hrest : checkOne (position + 1) seen keys with
        | ok seen' =>
          rw [hrest] at h
          cases h
        | error conflict' =>
          rw [hrest] at h
          cases h
          obtain ⟨i, order', a', hposition, horder, ha, hne⟩ := ih hrest
          exact ⟨i + 1, order', a', by omega, horder, ha, hne⟩

/-- Whether all directions that have been seen are directions of some items. -/
def SeenIn (items : List SortKeys) (seen : List SortOrder) : Prop :=
  ∀ (i : Nat) (order : SortOrder), seen[i]? = some order →
    ∃ k ∈ items, ∃ a, k.keys[i]? = some a ∧ a.order = order

theorem SeenIn.extended {done : List SortKeys} {seen : List SortOrder} (h : SeenIn done seen)
    (k : SortKeys) :
    SeenIn (done ++ [k]) (seen ++ (k.keys.drop seen.length).map (·.order)) := by
  intro i order hi
  by_cases hlt : i < seen.length
  · rw [List.getElem?_append_left hlt] at hi
    obtain ⟨l, hl, ha⟩ := h i order hi
    exact ⟨l, List.mem_append_left _ hl, ha⟩
  · rw [List.getElem?_append_right (Nat.le_of_not_lt hlt), List.getElem?_map,
      List.getElem?_drop, Nat.add_sub_cancel' (Nat.le_of_not_lt hlt)] at hi
    obtain ⟨a, ha, horder⟩ := Option.map_eq_some_iff.mp hi
    exact ⟨k, by simp, a, ha, horder⟩

private theorem disagreeAt_of_foldlM {items done : List SortKeys} {seen : List SortOrder}
    {conflict : SortConflict} (hseen : SeenIn done seen)
    (h : items.foldlM (fun seen k => checkOne 0 seen k.keys) seen = .error conflict) :
    DisagreeAt (done ++ items) conflict.position := by
  induction items generalizing done seen with
  | nil => cases h
  | cons k items ih =>
    rw [List.foldlM_cons] at h
    cases hk : checkOne 0 seen k.keys with
    | ok seen' =>
      rw [hk] at h
      obtain ⟨-, rfl⟩ := checkOne_eq_ok_iff.mp hk
      rw [← List.singleton_append, ← List.append_assoc]
      exact ih (hseen.extended k) h
    | error conflict' =>
      rw [hk] at h
      cases h
      obtain ⟨i, order, b, hposition, horder, hb, hne⟩ := exists_of_checkOne_error hk
      obtain ⟨l, hl, a, ha, rfl⟩ := hseen i order horder
      rw [hposition, Nat.zero_add]
      have hpair : [l, k].Sublist (done ++ k :: items) :=
        (List.singleton_sublist.mpr hl).append ((List.nil_sublist items).cons_cons k)
      exact ⟨l, k, a, b, hpair, ha, hb, hne⟩

/-- Directions are refused for a position where two of the items disagree. -/
theorem disagreeAt_of_checkDirections {items : List SortKeys} {conflict : SortConflict}
    (h : checkDirections items = .error conflict) : DisagreeAt items conflict.position := by
  rw [checkDirections] at h
  cases hfold : items.foldlM (fun seen k => checkOne 0 seen k.keys) [] with
  | ok seen =>
    rw [hfold] at h
    cases h
  | error conflict' =>
    rw [hfold] at h
    cases h
    have hseen : SeenIn [] [] := fun i order hi => by simp at hi
    exact disagreeAt_of_foldlM hseen hfold

theorem checkDirections_error_iff {items : List SortKeys} :
    (∃ conflict, checkDirections items = .error conflict) ↔
      ∃ position, DisagreeAt items position := by
  constructor
  · rintro ⟨conflict, h⟩
    exact ⟨conflict.position, disagreeAt_of_checkDirections h⟩
  · rintro ⟨position, k, l, a, b, hpair, ha, hb, hne⟩
    cases h : checkDirections items with
    | ok _ =>
      have hagree := checkDirections_eq_ok_iff.mp h k (hpair.subset (by simp)) l
        (hpair.subset (by simp))
      exact absurd (hagree position a b ha hb) hne
    | error conflict => exact ⟨conflict, rfl⟩

/-! Sorting in place -/

section Neighbours
variable {β : Type} {items : Vector β n} {front behind : List β} {a b : β} {position : Nat}

private theorem getElem_of_toList (h : items.toList = front ++ a :: behind)
    (hfront : front.length = position) (hn : position < n) : items[position] = a := by
  have hget : items.toList[position]? = some a := by
    rw [h, ← hfront, List.getElem?_append_right le_rfl, Nat.sub_self]
    rfl
  rw [← Vector.getElem_toList (by simpa using hn)]
  exact (List.getElem?_eq_some_iff.mp hget).2

private theorem toList_swap_of_toList (h : items.toList = front ++ a :: b :: behind)
    (hfront : front.length = position) (hn : position + 1 < n) :
    (items.swap position (position + 1)).toList = front ++ b :: a :: behind := by
  have ha : items[position] = a := getElem_of_toList h hfront (Nat.lt_of_succ_lt hn)
  have hfront' : (front ++ [a]).length = position + 1 := by simp [hfront]
  have hb : items[position + 1] = b := getElem_of_toList (by simpa using h) hfront' hn
  rw [Vector.toList_swap, ha, hb, h, ← hfront]
  simp [List.set_append_right]

end Neighbours

variable {items : Vector (α × SortKeys) n}

/-- What moves toward the front comes to where an insertion into what is in front of it puts it. -/
theorem sink_eq {front inserted behind : List (α × SortKeys)} {item : α × SortKeys}
    (hitems : items.toList = front.reverse ++ item :: behind) (hn : front.length < n)
    (h : insertFromEnd item front = .ok inserted) :
    ∃ items', sink items front.length hn = (.ok (), items') ∧
      items'.toList = inserted.reverse ++ behind := by
  induction front generalizing items inserted behind with
  | nil =>
    cases h
    exact ⟨items, rfl, hitems⟩
  | cons last rest ih =>
    simp only [List.reverse_cons, List.append_assoc, List.singleton_append] at hitems
    rw [List.length_cons] at hn
    have hlast : items[rest.length] = last :=
      getElem_of_toList hitems (by simp) (Nat.lt_of_succ_lt hn)
    have hfront : (rest.reverse ++ [last]).length = rest.length + 1 := by simp
    have hitem : items[rest.length + 1] = item :=
      getElem_of_toList (by simpa using hitems) hfront hn
    rw [insertFromEnd, Markup.bind_eq_ok_iff] at h
    obtain ⟨ordering, hcompare, h⟩ := h
    simp only [List.length_cons, sink, hlast, hitem, hcompare]
    have hswap := toList_swap_of_toList hitems (by simp) hn
    cases ordering with
    | gt =>
      obtain ⟨inserted, hrest, h⟩ := Markup.bind_eq_ok_iff.mp h
      cases h
      obtain ⟨items', hsink, htoList⟩ := ih hswap (Nat.lt_of_succ_lt hn) hrest
      refine ⟨items', hsink, ?_⟩
      rw [htoList]
      simp
    | lt | eq =>
      cases h
      exact ⟨items, rfl, by simpa using hitems⟩

/-- Moving the items one after the other puts them where their insertions do. -/
theorem sinkFrom_eq {done rest sorted : List (α × SortKeys)}
    (hitems : items.toList = done.reverse ++ rest)
    (h : rest.foldlM (fun done item => insertFromEnd item done) done = .ok sorted) :
    ∃ items', sinkFrom done.length items = (.ok (), items') ∧ items'.toList = sorted.reverse := by
  have hlength : done.length + rest.length = n := by
    simpa using (congrArg List.length hitems).symm
  induction rest generalizing items done with
  | nil =>
    cases h
    rw [sinkFrom, dif_neg (by simp at hlength; omega)]
    exact ⟨items, rfl, by simpa using hitems⟩
  | cons item rest ih =>
    rw [List.length_cons] at hlength
    rw [List.foldlM_cons, Markup.bind_eq_ok_iff] at h
    obtain ⟨inserted, hinserted, h⟩ := h
    obtain ⟨items₁, hsink, htoList⟩ := sink_eq hitems (by omega) hinserted
    have hgrown : inserted.length = done.length + 1 := by
      have := congrArg List.length htoList
      simp at this
      omega
    rw [sinkFrom, dif_pos (by omega), hsink]
    have hnext := ih htoList h (by omega)
    rwa [hgrown] at hnext

/-- Where sorting a list puts its items, sorting in place moves them. -/
theorem sinkFrom_of_sort {sorted : List (α × SortKeys)} (h : sort items.toList = .ok sorted) :
    ∃ items', sinkFrom 1 items = (.ok (), items') ∧ items'.toList = sorted := by
  rw [sort, Markup.bind_eq_ok_iff] at h
  obtain ⟨_, -, h⟩ := h
  obtain ⟨collected, hfold, h⟩ := Markup.bind_eq_ok_iff.mp h
  cases h
  cases hitems : items.toList with
  | nil =>
    have hn : n = 0 := by simpa using congrArg List.length hitems
    rw [hitems] at hfold
    cases hfold
    rw [sinkFrom, dif_neg (by omega)]
    exact ⟨items, rfl, hitems⟩
  | cons first rest =>
    rw [hitems] at hfold
    exact @sinkFrom_eq _ _ items [first] rest _ hitems hfold

/-- Items of which no two disagree are sorted. -/
theorem exists_sort_of_checkDirections {items : List (α × SortKeys)}
    (h : checkDirections (items.map (·.2)) = .ok ()) : ∃ sorted, sort items = .ok sorted :=
  ⟨_, sort_eq fun _ hx _ hy =>
    checkDirections_eq_ok_iff.mp h _ (List.mem_map_of_mem hx) _ (List.mem_map_of_mem hy)⟩

theorem sortInPlace_of_checkDirections
    (h : checkDirections (items.toList.map (·.2)) = .ok ()) :
    ∃ items', sortInPlace items = (.ok (), items') ∧ sort items.toList = .ok items'.toList := by
  obtain ⟨sorted, hsort⟩ := exists_sort_of_checkDirections h
  obtain ⟨items', hsink, rfl⟩ := sinkFrom_of_sort hsort
  exact ⟨items', by rw [sortInPlace, h, hsink], hsort⟩

theorem sortInPlace_of_conflict {conflict : SortConflict}
    (h : checkDirections (items.toList.map (·.2)) = .error conflict) :
    sortInPlace items = (.error conflict, items) := by
  rw [sortInPlace, h]

/-- Sorting in place does what sorting a list does; when that fails, the items are as they were. -/
theorem sortInPlace_eq_sort (items : Vector (α × SortKeys) n) :
    match sort items.toList with
    | .ok sorted => ∃ items', sortInPlace items = (.ok (), items') ∧ items'.toList = sorted
    | .error conflict => sortInPlace items = (.error conflict, items) := by
  cases h : checkDirections (items.toList.map (·.2)) with
  | ok _ =>
    obtain ⟨items', hsorted, hsort⟩ := sortInPlace_of_checkDirections h
    rw [hsort]
    exact ⟨items', hsorted, rfl⟩
  | error conflict =>
    rw [sort, h]
    exact sortInPlace_of_conflict h

/-- Sorting in place fails just when two items disagree on the direction of the key at a position, and
says at which one; then the items are as they were. In items that are accepted any two can be compared,
and all comparisons that are made while they are moved succeed. -/
theorem sortInPlace_fails_iff (items : Vector (α × SortKeys) n) :
    ((∃ conflict, (sortInPlace items).1 = .error conflict) ↔
        ∃ position, DisagreeAt (items.toList.map (·.2)) position) ∧
      (∀ conflict, (sortInPlace items).1 = .error conflict →
        DisagreeAt (items.toList.map (·.2)) conflict.position ∧ (sortInPlace items).2 = items) ∧
      (checkDirections (items.toList.map (·.2)) = .ok () →
        (∀ x ∈ items.toList, ∀ y ∈ items.toList, ∃ ordering, x.2.compare y.2 = .ok ordering) ∧
          (sinkFrom 1 items).1 = .ok ()) := by
  have hresult : (sortInPlace items).1 = checkDirections (items.toList.map (·.2)) := by
    cases h : checkDirections (items.toList.map (·.2)) with
    | ok _ =>
      obtain ⟨items', hsorted, -⟩ := sortInPlace_of_checkDirections h
      rw [hsorted]
    | error conflict => rw [sortInPlace_of_conflict h]
  rw [hresult]
  refine ⟨checkDirections_error_iff, fun conflict h => ?_, fun h => ⟨fun x hx y hy => ?_, ?_⟩⟩
  · exact ⟨disagreeAt_of_checkDirections h, by rw [sortInPlace_of_conflict h]⟩
  · exact ⟨_, compare_eq (checkDirections_eq_ok_iff.mp h _ (List.mem_map_of_mem hx) _
      (List.mem_map_of_mem hy))⟩
  · obtain ⟨sorted, hsort⟩ := exists_sort_of_checkDirections h
    obtain ⟨items', hsink, -⟩ := sinkFrom_of_sort hsort
    rw [hsink]

/-- Two items that are not next to each other. -/
theorem sortInPlace_fails_iff_apart :
    let items : Vector (String × SortKeys) 3 := #v[("one", ⟨[⟨.ascending, "b"⟩]⟩), ("two", {}),
      ("three", ⟨[⟨.descending, "a"⟩]⟩)]
    sortInPlace items = (.error ⟨0⟩, items) ∧ DisagreeAt (items.toList.map (·.2)) 0 := by
  intro items
  have hresult : (sortInPlace items).1 = .error ⟨0⟩ := by cbv
  obtain ⟨hdisagree, hkept⟩ := (sortInPlace_fails_iff items).2.1 ⟨0⟩ hresult
  exact ⟨Prod.ext hresult hkept, hdisagree⟩

end MarkupGraft.SortKeys
