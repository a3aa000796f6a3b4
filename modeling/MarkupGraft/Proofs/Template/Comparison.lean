import Mathlib.Data.List.Pairwise
import Mathlib.Order.Defs.LinearOrder
import MarkupGraft.Proofs.Markup.Run
import MarkupGraft.Proofs.Text.Utf8
import MarkupGraft.Template.SortKeys

/-!
Comparison of keys. Keys that agree on directions are compared by the bytes of their texts, position
by position; the directions of a list of items are accepted just when any two of the items agree.
-/

namespace MarkupGraft

/-- What an order is in a direction. -/
def SortOrder.apply : SortOrder → Ordering → Ordering
  | .ascending, o => o
  | .descending, o => o.swap

namespace SortKey
variable {a b c : SortKey}

/-- How two keys rank in the direction of the first, by the bytes of their texts. -/
def rank (a b : SortKey) : Ordering :=
  a.order.apply (compareOfLessAndEq (Text.encode a.key) (Text.encode b.key))

theorem rank_eq_compare (a b : SortKey) :
    a.rank b = a.order.apply (compareOfLessAndEq a.key b.key) := by
  have heq : Text.encode a.key = Text.encode b.key ↔ a.key = b.key :=
    ⟨Text.encode_injective, congrArg _⟩
  simp only [rank, compareOfLessAndEq, Text.encode_lt_encode, heq]

theorem rank_swap (h : a.order = b.order) : b.rank a = (a.rank b).swap := by
  have hkeys : compareOfLessAndEq b.key a.key = (compareOfLessAndEq a.key b.key).swap :=
    compareOfLessAndEq_eq_swap String.le_antisymm String.le_total String.not_le
  rw [rank_eq_compare, rank_eq_compare, h, hkeys]
  cases b.order <;> rfl

theorem rank_eq_lt_iff : a.rank b = .lt ↔
    match a.order with
    | .ascending => a.key < b.key
    | .descending => b.key < a.key := by
  have hgt : compareOfLessAndEq a.key b.key = .gt ↔ b.key < a.key :=
    compareOfLessAndEq_eq_gt String.le_antisymm String.le_total String.not_le _ _
  rw [rank_eq_compare]
  cases a.order with
  | ascending => exact compareOfLessAndEq_eq_lt
  | descending => exact Ordering.swap_eq_lt.trans hgt

theorem rank_lt_trans (horder : a.order = b.order) (hab : a.rank b = .lt) (hbc : b.rank c = .lt) :
    a.rank c = .lt := by
  rw [rank_eq_lt_iff] at *
  rw [horder] at *
  cases hb : b.order with
  | ascending =>
    simp only [hb] at *
    exact String.lt_trans hab hbc
  | descending =>
    simp only [hb] at *
    exact String.lt_trans hbc hab

theorem eq_of_rank_eq (horder : a.order = b.order) (h : a.rank b = .eq) : a = b := by
  have hkeys : compareOfLessAndEq a.key b.key = .eq := by
    rw [rank_eq_compare] at h
    cases ho : a.order with
    | ascending => rwa [ho] at h
    | descending =>
      rw [ho] at h
      exact Ordering.swap_eq_eq.mp h
  have hkey := (compareOfLessAndEq_eq_eq String.le_refl String.not_le).mp hkeys
  cases a
  cases b
  simp_all

end SortKey

namespace SortKeys

/-- The first position at which both have a key, and different ones, decides. -/
def rankFrom : List SortKey → List SortKey → Ordering
  | a :: k, b :: l => (a.rank b).then (rankFrom k l)
  | _, _ => .eq

def rank (k l : SortKeys) : Ordering := rankFrom k.keys l.keys

/-- Whether two items give the keys of each position that both have the same direction. -/
def Agrees (k l : SortKeys) : Prop :=
  ∀ (i : Nat) (a b : SortKey), k.keys[i]? = some a → l.keys[i]? = some b → a.order = b.order

theorem Agrees.symm {k l : SortKeys} (h : k.Agrees l) : l.Agrees k :=
  fun i a b ha hb => (h i b a hb ha).symm

instance : Std.Symm Agrees := ⟨fun _ _ h => h.symm⟩

theorem agrees_self (k : SortKeys) : k.Agrees k := by
  intro i a b ha hb
  rw [ha] at hb
  cases hb
  rfl

theorem agrees_cons {a b : SortKey} {k l : List SortKey} :
    Agrees ⟨a :: k⟩ ⟨b :: l⟩ ↔ a.order = b.order ∧ Agrees ⟨k⟩ ⟨l⟩ := by
  constructor
  · exact fun h => ⟨h 0 a b rfl rfl, fun i => h (i + 1)⟩
  · rintro ⟨hab, h⟩ i
    cases i with
    | zero =>
      rintro a' b' ⟨⟩ ⟨⟩
      exact hab
    | succ i => exact h i

/-! Comparing -/

private theorem compareFrom_eq {k l : List SortKey} (h : Agrees ⟨k⟩ ⟨l⟩) (position : Nat) :
    compareFrom position k l = .ok (rankFrom k l) := by
  induction k generalizing l position with
  | nil => rfl
  | cons a k ih =>
    cases l with
    | nil => rfl
    | cons b l =>
      obtain ⟨hab, hkl⟩ := agrees_cons.mp h
      simp only [compareFrom, rankFrom, SortKey.rank_eq_compare, hab, ne_eq, not_true, if_false]
      cases compareOfLessAndEq a.key b.key <;> cases b.order <;>
        simp [SortOrder.apply, ih hkl]

/-- Keys that agree on directions are compared by their bytes. -/
theorem compare_eq {k l : SortKeys} (h : k.Agrees l) : k.compare l = .ok (k.rank l) :=
  compareFrom_eq h 0

private theorem rankFrom_swap {k l : List SortKey} (h : Agrees ⟨k⟩ ⟨l⟩) :
    rankFrom l k = (rankFrom k l).swap := by
  induction k generalizing l with
  | nil => cases l <;> rfl
  | cons a k ih =>
    cases l with
    | nil => rfl
    | cons b l =>
      obtain ⟨hab, hkl⟩ := agrees_cons.mp h
      rw [rankFrom, rankFrom, SortKey.rank_swap hab, ih hkl, Ordering.swap_then]

theorem rank_swap {k l : SortKeys} (h : k.Agrees l) : l.rank k = (k.rank l).swap := rankFrom_swap h

theorem rank_self (k : SortKeys) : k.rank k = .eq := by
  have := rank_swap k.agrees_self
  cases hk : k.rank k <;> simp_all

private theorem rankFrom_lt_trans {k l m : List SortKey} (hkl : Agrees ⟨k⟩ ⟨l⟩)
    (hlm : Agrees ⟨l⟩ ⟨m⟩) (h : rankFrom k l = .lt) (h' : rankFrom l m = .lt) :
    rankFrom k m = .lt := by
  induction k generalizing l m with
  | nil => cases h
  | cons a k ih =>
    cases l with
    | nil => cases h
    | cons b l =>
      cases m with
      | nil => cases h'
      | cons c m =>
        obtain ⟨hab, hkeys⟩ := agrees_cons.mp hkl
        obtain ⟨hbc, hkeys'⟩ := agrees_cons.mp hlm
        rw [rankFrom, Ordering.then_eq_lt] at *
        rcases h with h | ⟨h, hk⟩
        · rcases h' with h' | ⟨h', -⟩
          · exact .inl (SortKey.rank_lt_trans hab h h')
          · obtain rfl := SortKey.eq_of_rank_eq hbc h'
            exact .inl h
        · obtain rfl := SortKey.eq_of_rank_eq hab h
          rcases h' with h' | ⟨h', hl⟩
          · exact .inl h'
          · exact .inr ⟨h', ih hkeys hkeys' hk hl⟩

/-- To rank in front is transitive, though to say nothing of each other is not. -/
theorem rank_lt_trans {k l m : SortKeys} (hkl : k.Agrees l) (hlm : l.Agrees m)
    (h : k.rank l = .lt) (h' : l.rank m = .lt) : k.rank m = .lt := rankFrom_lt_trans hkl hlm h h'

private theorem eq_of_rankFrom_eq {k l : List SortKey} (h : Agrees ⟨k⟩ ⟨l⟩)
    (hlength : k.length = l.length) (hrank : rankFrom k l = .eq) : k = l := by
  induction k generalizing l with
  | nil => exact (List.length_eq_zero_iff.mp hlength.symm).symm
  | cons a k ih =>
    cases l with
    | nil => cases hlength
    | cons b l =>
      obtain ⟨hab, hkl⟩ := agrees_cons.mp h
      rw [rankFrom, Ordering.then_eq_eq] at hrank
      rw [SortKey.eq_of_rank_eq hab hrank.1, ih hkl (Nat.succ.inj hlength) hrank.2]

/-- Of as many keys as another item has, those that rank with its keys are the same. -/
theorem eq_of_rank_eq {k l : SortKeys} (h : k.Agrees l) (hlength : k.keys.length = l.keys.length)
    (hrank : k.rank l = .eq) : k = l := by
  cases k
  cases l
  exact congrArg SortKeys.mk (eq_of_rankFrom_eq h hlength hrank)

/-! The first keys -/

def first (n : Nat) (k : SortKeys) : SortKeys := ⟨k.keys.take n⟩

theorem Agrees.first {k l : SortKeys} (h : k.Agrees l) (n : Nat) :
    (k.first n).Agrees (l.first n) := by
  intro i a b ha hb
  have hi : i < n := by
    have := (List.getElem?_eq_some_iff.mp ha).1
    simp only [SortKeys.first, List.length_take] at this
    omega
  rw [SortKeys.first, List.getElem?_take_of_lt hi] at ha hb
  exact h i a b ha hb

private theorem rankFrom_take_eq_lt {n : Nat} {k l : List SortKey}
    (h : rankFrom (k.take n) (l.take n) = .lt) : rankFrom k l = .lt := by
  induction n generalizing k l with
  | zero => cases h
  | succ n ih =>
    cases k with
    | nil => cases h
    | cons a k =>
      cases l with
      | nil => cases h
      | cons b l =>
        simp only [List.take_succ_cons, rankFrom, Ordering.then_eq_lt] at *
        exact h.imp_right (And.imp_right ih)

theorem rank_eq_lt_of_first {n : Nat} {k l : SortKeys} (h : (k.first n).rank (l.first n) = .lt) :
    k.rank l = .lt := rankFrom_take_eq_lt h

private theorem rankFrom_take {n : Nat} {k l : List SortKey} (h : min k.length l.length ≤ n) :
    rankFrom (k.take n) (l.take n) = rankFrom k l := by
  induction n generalizing k l with
  | zero => cases k <;> cases l <;> simp_all [rankFrom]
  | succ n ih =>
    cases k with
    | nil => rfl
    | cons a k =>
      cases l with
      | nil => rfl
      | cons b l =>
        simp only [List.take_succ_cons, rankFrom]
        rw [ih (by simp only [List.length_cons] at h; omega)]

/-- Keys beyond those that both have decide nothing. -/
theorem rank_first {n : Nat} {k l : SortKeys} (h : min k.keys.length l.keys.length ≤ n) :
    (k.first n).rank (l.first n) = k.rank l := rankFrom_take h

theorem length_first {n : Nat} {k : SortKeys} (h : n ≤ k.keys.length) :
    (k.first n).keys.length = n := by
  rw [first, List.length_take, Nat.min_eq_left h]

/-! Directions -/

/-- Whether keys have the directions that have been seen, as far as these go. -/
def Follows (seen : List SortOrder) (keys : List SortKey) : Prop :=
  ∀ (i : Nat) (order : SortOrder) (a : SortKey), seen[i]? = some order → keys[i]? = some a →
    a.order = order

private theorem follows_cons {order : SortOrder} {seen : List SortOrder} {a : SortKey}
    {keys : List SortKey} :
    Follows (order :: seen) (a :: keys) ↔ a.order = order ∧ Follows seen keys := by
  constructor
  · exact fun h => ⟨h 0 order a rfl rfl, fun i => h (i + 1)⟩
  · rintro ⟨ha, h⟩ i
    cases i with
    | zero =>
      rintro order' a' ⟨⟩ ⟨⟩
      exact ha
    | succ i => exact h i

/-- The directions of a further item are accepted when they follow those seen, and are then seen as
well. -/
theorem checkOne_eq_ok_iff {position : Nat} {seen seen' : List SortOrder} {keys : List SortKey} :
    checkOne position seen keys = .ok seen' ↔
      Follows seen keys ∧ seen' = seen ++ (keys.drop seen.length).map (·.order) := by
  induction seen generalizing position seen' keys with
  | nil => cases keys <;> simp [checkOne, Follows, eq_comm]
  | cons order seen ih =>
    cases keys with
    | nil => simp [checkOne, Follows, eq_comm]
    | cons a keys =>
      rw [checkOne, follows_cons]
      by_cases ho : order = a.order
      · subst ho
        simp only [ne_eq, not_true, if_false, Markup.map_eq_ok_iff, ih]
        simp only [true_and, List.length_cons, List.drop_succ_cons, List.cons_append]
        constructor
        · rintro ⟨_, ⟨h, rfl⟩, rfl⟩
          exact ⟨h, rfl⟩
        · rintro ⟨h, rfl⟩
          exact ⟨_, ⟨h, rfl⟩, rfl⟩
      · simp [ho, eq_comm]

/-- What follows directions that have been extended by an item agrees with the item. -/
private theorem follows_extended {seen : List SortOrder} {k l : SortKeys}
    (h : Follows seen k.keys) :
    Follows (seen ++ (k.keys.drop seen.length).map (·.order)) l.keys ↔
      Follows seen l.keys ∧ k.Agrees l := by
  have hseen (i : Nat) : (seen ++ (k.keys.drop seen.length).map (·.order))[i]? =
      if i < seen.length then seen[i]? else k.keys[i]?.map (·.order) := by
    split
    · rename_i hi
      rw [List.getElem?_append_left hi]
    · rename_i hi
      rw [List.getElem?_append_right (by omega), List.getElem?_map, List.getElem?_drop]
      congr 2
      omega
  constructor
  · intro hl
    refine ⟨fun i order a ho ha => ?_, fun i a b ha hb => ?_⟩
    · have hi := (List.getElem?_eq_some_iff.mp ho).1
      exact hl i order a (by rw [hseen, if_pos hi, ho]) ha
    · by_cases hi : i < seen.length
      · have ho := List.getElem?_eq_getElem hi
        rw [h i _ a ho ha, hl i _ b (by rw [hseen, if_pos hi, ho]) hb]
      · exact (hl i _ b (by rw [hseen, if_neg hi, ha]; rfl) hb).symm
  · rintro ⟨hl, hkl⟩ i order a ho ha
    rw [hseen] at ho
    split at ho
    · exact hl i order a ho ha
    · obtain ⟨b, hb, rfl⟩ := Option.map_eq_some_iff.mp ho
      exact (hkl i b a hb ha).symm

private theorem foldlM_checkOne {seen : List SortOrder} {items : List SortKeys} :
    (∃ seen', items.foldlM (fun seen (k : SortKeys) => checkOne 0 seen k.keys) seen = .ok seen') ↔
      (∀ k ∈ items, Follows seen k.keys) ∧ items.Pairwise Agrees := by
  induction items generalizing seen with
  | nil => simp [pure, Except.pure]
  | cons k items ih =>
    simp only [List.foldlM_cons, Markup.bind_eq_ok_iff, checkOne_eq_ok_iff, List.forall_mem_cons,
      List.pairwise_cons]
    constructor
    · rintro ⟨_, _, ⟨hk, rfl⟩, h⟩
      obtain ⟨hfollows, hagree⟩ := ih.mp ⟨_, h⟩
      exact ⟨⟨hk, fun l hl => ((follows_extended hk).mp (hfollows l hl)).1⟩,
        fun l hl => ((follows_extended hk).mp (hfollows l hl)).2, hagree⟩
    · rintro ⟨⟨hk, hseen⟩, hagrees, hagree⟩
      obtain ⟨seen', h⟩ := ih.mpr
        ⟨fun l hl => (follows_extended hk).mpr ⟨hseen l hl, hagrees l hl⟩, hagree⟩
      exact ⟨seen', _, ⟨hk, rfl⟩, h⟩

/-- Directions are accepted just when any two items agree on them. -/
theorem checkDirections_eq_ok_iff {items : List SortKeys} :
    checkDirections items = .ok () ↔ ∀ k ∈ items, ∀ l ∈ items, k.Agrees l := by
  have h := @foldlM_checkOne [] items
  simp only [Follows, List.getElem?_nil, reduceCtorEq, false_implies, implies_true, true_and] at h
  have hpairwise : items.Pairwise Agrees ↔ ∀ k ∈ items, ∀ l ∈ items, k.Agrees l :=
    ⟨List.Pairwise.forall_of_forall fun k _ => agrees_self k, List.pairwise_of_forall_mem_list⟩
  rw [← hpairwise, ← h, checkDirections, Markup.bind_eq_ok_iff]
  exact exists_congr fun _ => and_iff_left rfl

theorem agrees_iff_isOk {k l : SortKeys} : (checkDirections [k, l]).isOk ↔ k.Agrees l := by
  have h : checkDirections [k, l] = .ok () ↔ k.Agrees l := by
    rw [checkDirections_eq_ok_iff]
    refine ⟨fun h => h k (by simp) l (by simp), fun h => ?_⟩
    simp [h, h.symm, agrees_self]
  rw [← h]
  cases checkDirections [k, l] <;> simp [Except.isOk, Except.toBool]

instance (k l : SortKeys) : Decidable (k.Agrees l) := decidable_of_iff _ agrees_iff_isOk

end SortKeys
end MarkupGraft
