import MarkupGraft.Query.Function

/-!
The functions that look for one text in another agree on the first occurrence: it splits the text
into what stands before it, the part that was looked for, and what stands after it.
-/

namespace MarkupGraft

namespace Text
variable {α : Type} {l before after : List α}

/-! The first place whose remainder satisfies a test -/

section
variable {p : List α → Bool}

theorem splitWhere?_isSome_iff :
    (splitWhere? p l).isSome ↔ ∃ front rest, front ++ rest = l ∧ p rest := by
  induction l with
  | nil =>
    rw [splitWhere?]
    split
    · rename_i h
      exact ⟨fun _ => ⟨[], [], rfl, h⟩, fun _ => rfl⟩
    · rename_i h
      refine ⟨fun hs => absurd hs Bool.false_ne_true, ?_⟩
      rintro ⟨front, rest, hl, hrest⟩
      exact absurd ((List.append_eq_nil_iff.mp hl).2 ▸ hrest) h
  | cons a l ih =>
    by_cases ha : p (a :: l)
    · simp only [splitWhere?, ha, if_true, Option.isSome_some, true_iff]
      exact ⟨[], a :: l, rfl, ha⟩
    · simp only [splitWhere?, ha, Bool.false_eq_true, if_false, Option.isSome_map, ih]
      constructor
      · rintro ⟨front, rest, rfl, hrest⟩
        exact ⟨a :: front, rest, rfl, hrest⟩
      · rintro ⟨_ | ⟨b, front⟩, rest, hl, hrest⟩
        · exact absurd (hl ▸ hrest) ha
        · exact ⟨front, rest, (List.cons.inj hl).2, hrest⟩

/-- No earlier place satisfies the test. -/
theorem length_le_of_splitWhere? {rest : List α} (h : splitWhere? p l = some (before, rest))
    {front behind : List α} (hl : front ++ behind = l) (hp : p behind) :
    before.length ≤ front.length := by
  induction l generalizing before front with
  | nil =>
    have := congrArg List.length (append_of_splitWhere? h)
    simp only [List.length_append, List.length_nil] at this
    omega
  | cons a l ih =>
    rw [splitWhere?] at h
    split at h
    · cases h
      exact Nat.zero_le _
    · rename_i ha
      obtain ⟨⟨before', rest'⟩, h', e⟩ := Option.map_eq_some_iff.mp h
      cases e
      cases front with
      | nil => exact absurd (hl ▸ hp) ha
      | cons b front =>
        have := ih h' (List.cons.inj hl).2
        simp only [List.length_cons]
        omega

end

/-! The first occurrence of a sequence -/

variable [BEq α] [LawfulBEq α] {needle : List α}

theorem breakOn?_isSome_iff :
    (breakOn? needle l).isSome ↔ ∃ front behind, front ++ needle ++ behind = l := by
  rw [breakOn?, Option.isSome_map, splitWhere?_isSome_iff]
  constructor
  · rintro ⟨front, rest, rfl, hrest⟩
    obtain ⟨behind, rfl⟩ := List.isPrefixOf_iff_prefix.mp hrest
    exact ⟨front, behind, List.append_assoc _ _ _⟩
  · rintro ⟨front, behind, rfl⟩
    exact ⟨front, needle ++ behind, (List.append_assoc _ _ _).symm,
      List.isPrefixOf_iff_prefix.mpr (List.prefix_append _ _)⟩

theorem append_of_breakOn? (h : breakOn? needle l = some (before, after)) :
    before ++ needle ++ after = l := by
  obtain ⟨⟨before', rest⟩, hsplit, e⟩ := Option.map_eq_some_iff.mp h
  cases e
  obtain ⟨behind, rfl⟩ := List.isPrefixOf_iff_prefix.mp (of_splitWhere? hsplit)
  rw [← append_of_splitWhere? hsplit, List.drop_left, List.append_assoc]

/-- No occurrence begins earlier. -/
theorem length_le_of_breakOn? (h : breakOn? needle l = some (before, after))
    {front behind : List α} (hl : front ++ needle ++ behind = l) :
    before.length ≤ front.length := by
  obtain ⟨⟨before', rest⟩, hsplit, e⟩ := Option.map_eq_some_iff.mp h
  cases e
  rw [List.append_assoc] at hl
  exact length_le_of_splitWhere? hsplit hl
    (List.isPrefixOf_iff_prefix.mpr (List.prefix_append _ _))

/-- A sequence begins with another when that occurs with nothing before it. -/
theorem isPrefixOf_iff_breakOn? :
    needle.isPrefixOf l ↔ ∃ after, breakOn? needle l = some ([], after) := by
  rw [List.isPrefixOf_iff_prefix]
  constructor
  · rintro ⟨behind, rfl⟩
    have hfound : (breakOn? needle (needle ++ behind)).isSome :=
      breakOn?_isSome_iff.mpr ⟨[], behind, rfl⟩
    obtain ⟨⟨before, after⟩, h⟩ := Option.isSome_iff_exists.mp hfound
    have hle : before.length ≤ ([] : List α).length := length_le_of_breakOn? h rfl
    obtain rfl := List.length_eq_zero_iff.mp (Nat.le_zero.mp hle)
    exact ⟨after, h⟩
  · rintro ⟨after, h⟩
    exact ⟨after, append_of_breakOn? h⟩

end Text

namespace Query

variable {text part : String}

theorem contains_iff : contains text part ↔ ∃ front behind, front ++ part ++ behind = text := by
  rw [contains, Text.breakOn?_isSome_iff]
  constructor
  · rintro ⟨front, behind, h⟩
    refine ⟨String.ofList front, String.ofList behind, ?_⟩
    rw [← String.toList_inj, ← h]
    simp
  · rintro ⟨front, behind, rfl⟩
    exact ⟨front.toList, behind.toList, by simp⟩

/-- What is before and after a part that is found. -/
private theorem exists_breakOn? (h : contains text part) : ∃ before after : List Char,
    Text.breakOn? part.toList text.toList = some (before, after) ∧
      substringBefore text part = String.ofList before ∧
      substringAfter text part = String.ofList after := by
  obtain ⟨⟨before, after⟩, hbreak⟩ := Option.isSome_iff_exists.mp h
  refine ⟨before, after, hbreak, ?_, ?_⟩
  · rw [substringBefore, hbreak]
  · rw [substringAfter, hbreak]

theorem substringBefore_append (h : contains text part) :
    substringBefore text part ++ part ++ substringAfter text part = text := by
  obtain ⟨before, after, hbreak, hbefore, hafter⟩ := exists_breakOn? h
  rw [hbefore, hafter, ← String.toList_inj, ← Text.append_of_breakOn? hbreak]
  simp

/-- No occurrence begins before the one that is found. -/
theorem length_substringBefore_le (h : contains text part) {front behind : String}
    (htext : front ++ part ++ behind = text) :
    (substringBefore text part).length ≤ front.length := by
  obtain ⟨before, after, hbreak, hbefore, -⟩ := exists_breakOn? h
  have hlist : front.toList ++ part.toList ++ behind.toList = text.toList := by simp [← htext]
  rw [hbefore, String.length_ofList, ← String.length_toList]
  exact Text.length_le_of_breakOn? hbreak hlist

theorem substrings_of_not_contains (h : ¬contains text part) :
    substringBefore text part = "" ∧ substringAfter text part = "" := by
  have hbreak : Text.breakOn? part.toList text.toList = none := by
    rwa [contains, Option.not_isSome_iff_eq_none] at h
  rw [substringBefore, substringAfter, hbreak]
  exact ⟨rfl, rfl⟩

theorem startsWith_iff :
    startsWith text part ↔ contains text part ∧ substringBefore text part = "" := by
  rw [startsWith, Text.isPrefixOf_iff_breakOn?]
  constructor
  · rintro ⟨after, hbreak⟩
    rw [contains, substringBefore, hbreak]
    exact ⟨rfl, rfl⟩
  · rintro ⟨hfound, hempty⟩
    obtain ⟨before, after, hbreak, hbefore, -⟩ := exists_breakOn? hfound
    obtain rfl : before = [] := by simpa [hbefore] using hempty
    exact ⟨after, hbreak⟩

/-- The functions that look for a part of a text take the text apart at its first occurrence, and
find nothing without one. -/
theorem substrings_decompose (v : View) (context : Context) (text part : String) :
    let call (name : String) (texts : List String) :=
      callFunction v context name (texts.map Value.string)
    ∃ found begins before after,
      call "contains" [text, part] = .ok (.boolean found) ∧
      call "starts-with" [text, part] = .ok (.boolean begins) ∧
      call "substring-before" [text, part] = .ok (.string before) ∧
      call "substring-after" [text, part] = .ok (.string after) ∧
      (found ↔ ∃ front behind, front ++ part ++ behind = text) ∧
      (found → call "concat" [before, part, after] = .ok (.string text) ∧
        ∀ front behind, front ++ part ++ behind = text → before.length ≤ front.length) ∧
      (¬found → before = "" ∧ after = "") ∧
      (begins ↔ found ∧ before = "") := by
  intro call
  refine ⟨contains text part, startsWith text part, substringBefore text part,
    substringAfter text part, rfl, rfl, rfl, rfl, contains_iff, fun h => ⟨?_, ?_⟩,
    substrings_of_not_contains, startsWith_iff⟩
  · have hconcat (a b c : String) : call "concat" [a, b, c] = .ok (.string (a ++ b ++ c)) := by
      change Except.ok (Value.string ("".intercalate [a, b, c])) = _
      simp [String.append_assoc]
    rw [hconcat, substringBefore_append h]
  · exact fun front behind htext => length_substringBefore_le h htext

end Query
end MarkupGraft
