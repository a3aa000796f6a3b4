/-!
Where a sequence occurs in another: the first occurrence splits the longer sequence into what stands
before it and what stands after it.
-/

namespace MarkupGraft.Text
variable {α : Type}

/-- Splits at the first place whose remainder satisfies `p`. The remainder may be empty. -/
def splitWhere? (p : List α → Bool) : List α → Option (List α × List α)
  | [] => if p [] then some ([], []) else none
  | a :: l =>
    if p (a :: l) then some ([], a :: l)
    else (splitWhere? p l).map fun (before, rest) => (a :: before, rest)

theorem append_of_splitWhere? {p : List α → Bool} {l before rest : List α}
    (h : splitWhere? p l = some (before, rest)) : before ++ rest = l := by
  induction l generalizing before with
  | nil => grind [splitWhere?]
  | cons a l ih =>
    simp only [splitWhere?] at h
    split at h
    · grind
    · obtain ⟨⟨before', rest'⟩, h', e⟩ := Option.map_eq_some_iff.mp h
      cases e
      simp [ih h']

theorem of_splitWhere? {p : List α → Bool} {l before rest : List α}
    (h : splitWhere? p l = some (before, rest)) : p rest := by
  induction l generalizing before with
  | nil => grind [splitWhere?]
  | cons a l ih =>
    simp only [splitWhere?] at h
    split at h
    · grind
    · obtain ⟨⟨before', rest'⟩, h', e⟩ := Option.map_eq_some_iff.mp h
      cases e
      exact ih h'

variable [BEq α]

/-- What stands before and after the first occurrence of `needle`. -/
def breakOn? (needle l : List α) : Option (List α × List α) :=
  (splitWhere? needle.isPrefixOf l).map fun (before, rest) => (before, rest.drop needle.length)

end MarkupGraft.Text
