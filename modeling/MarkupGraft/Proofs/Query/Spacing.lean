import MarkupGraft.Query.Function

/-!
White space in texts. Words with one space between them are what is left of a text when the white
space around it is dropped and each run inside becomes one space. This counts more characters as
white space than markup does, so it does more than normalizing the white space of markup to every
text that holds one of the others.
-/

namespace MarkupGraft

namespace Text
variable {p q : Char → Bool} {c : Char} {l : List Char}

/-- Each run of characters that satisfy `p` as one space, in the place of its last character. -/
def squeeze (p : Char → Bool) : List Char → List Char
  | [] => []
  | c :: l =>
    if p c then (if l.head?.any p then squeeze p l else ' ' :: squeeze p l) else c :: squeeze p l

/-- A text with no characters that satisfy `p` around it, and each run of them inside as one
space. -/
def tidy (p : Char → Bool) (l : List Char) : List Char := squeeze p (trimWhile p l)

/-- The maximal runs of characters that do not satisfy `p`. -/
def runs (p : Char → Bool) (l : List Char) : List (List Char) :=
  (l.splitOnP p).filter (!·.isEmpty)

/-! Dropping at the end -/

theorem dropEndWhile_cons (p : Char → Bool) (c : Char) (l : List Char) :
    dropEndWhile p (c :: l) =
      if p c ∧ dropEndWhile p l = [] then [] else c :: dropEndWhile p l := by
  simp only [dropEndWhile, List.reverse_cons, List.dropWhile_append, List.isEmpty_iff,
    List.reverse_eq_nil_iff]
  split
  · rename_i hall
    by_cases hc : p c <;> simp [hc, hall]
  · rename_i hall
    simp [hall]

theorem head?_dropEndWhile (h : dropEndWhile p l ≠ []) : (dropEndWhile p l).head? = l.head? := by
  cases l with
  | nil => exact absurd rfl h
  | cons c l =>
    rw [dropEndWhile_cons] at h ⊢
    split
    · rename_i hnil
      exact absurd (if_pos hnil) h
    · rfl

theorem dropEndWhile_eq_nil_iff : dropEndWhile p l = [] ↔ ∀ c ∈ l, p c := by
  induction l with
  | nil => simp [dropEndWhile]
  | cons c l ih => simp [dropEndWhile_cons, ih]

/-! Runs -/

theorem runs_cons_of_pos (hc : p c) : runs p (c :: l) = runs p l := by
  rw [runs, List.splitOnP_cons_eq_if_modifyHead, if_pos hc, List.filter_cons_of_neg (by simp)]
  rfl

/-- A character that does not satisfy `p` begins a run, or goes on with the one behind it. -/
theorem runs_cons_of_neg (hc : ¬p c) : runs p (c :: l) =
    if l.head?.all p then [c] :: runs p l else (runs p l).modifyHead (c :: ·) := by
  rw [runs, List.splitOnP_cons_eq_if_modifyHead, if_neg hc]
  cases l with
  | nil => rfl
  | cons a l =>
    obtain ⟨run, rest, hsplit⟩ := List.exists_cons_of_ne_nil (List.splitOnP_ne_nil p l)
    by_cases ha : p a <;>
      simp [runs, List.splitOnP_cons_eq_if_modifyHead, ha, hsplit]

theorem runs_eq_nil_iff : runs p l = [] ↔ ∀ c ∈ l, p c := by
  induction l with
  | nil => simp [runs]
  | cons c l ih =>
    by_cases hc : p c
    · simp [runs_cons_of_pos hc, ih, hc]
    · have hne : runs p (c :: l) ≠ [] := by
        rw [runs_cons_of_neg hc]
        split
        · exact List.cons_ne_nil _ _
        · rename_i hhead
          rw [ne_eq, List.modifyHead_eq_nil_iff, ih]
          intro hall
          cases l <;> simp_all
      exact iff_of_false hne fun hall => hc (hall c List.mem_cons_self)

theorem intercalate_modifyHead_cons {ws : List (List Char)} (h : ws ≠ []) :
    [' '].intercalate (ws.modifyHead (c :: ·)) = c :: [' '].intercalate ws := by
  obtain ⟨w, ws, rfl⟩ := List.exists_cons_of_ne_nil h
  cases ws with
  | nil => simp
  | cons w' ws => simp [List.intercalate_cons_cons]

/-! Runs with spaces between them -/

/-- Where a text begins with white space, a space stands before the runs of what is squeezed. -/
private theorem squeeze_dropEndWhile (p : Char → Bool) (l : List Char) :
    squeeze p (dropEndWhile p l) =
      if l.head?.any p ∧ runs p l ≠ [] then ' ' :: [' '].intercalate (runs p l)
      else [' '].intercalate (runs p l) := by
  induction l with
  | nil => simp [dropEndWhile, squeeze, runs]
  | cons c l ih =>
    by_cases hc : p c
    · rw [dropEndWhile_cons, runs_cons_of_pos hc]
      by_cases hall : dropEndWhile p l = []
      · have hruns : runs p l = [] := runs_eq_nil_iff.mpr (dropEndWhile_eq_nil_iff.mp hall)
        simp [hc, hall, hruns, squeeze]
      · have hruns : runs p l ≠ [] := fun h =>
          hall (dropEndWhile_eq_nil_iff.mpr (runs_eq_nil_iff.mp h))
        rw [if_neg (fun h => hall h.2), squeeze, if_pos hc, head?_dropEndWhile hall, ih]
        by_cases hhead : l.head?.any p <;> simp [hc, hhead, hruns]
    · have hfirst : ¬((c :: l).head?.any p ∧ runs p (c :: l) ≠ []) := fun h => hc h.1
      rw [dropEndWhile_cons, if_neg (fun h => hc h.1), squeeze, if_neg hc, ih, if_neg hfirst,
        runs_cons_of_neg hc]
      cases l with
      | nil => simp [runs]
      | cons a l =>
        by_cases ha : p a
        · by_cases hruns : runs p (a :: l) = []
          · simp [ha, hruns]
          · simp [ha, hruns, List.intercalate_cons_of_ne_nil hruns]
        · have hruns : runs p (a :: l) ≠ [] := fun h =>
            ha (runs_eq_nil_iff.mp h a List.mem_cons_self)
          simp [ha, intercalate_modifyHead_cons hruns]

theorem runs_dropWhile (p : Char → Bool) (l : List Char) :
    runs p (l.dropWhile p) = runs p l := by
  induction l with
  | nil => rfl
  | cons c l ih =>
    by_cases hc : p c
    · rw [List.dropWhile_cons_of_pos hc, ih, runs_cons_of_pos hc]
    · rw [List.dropWhile_cons_of_neg hc]

theorem intercalate_runs (p : Char → Bool) (l : List Char) :
    [' '].intercalate (runs p l) = tidy p l := by
  have hhead : ¬(l.dropWhile p).head?.any p := by
    have := List.head?_dropWhile_not p l
    cases h : (l.dropWhile p).head? <;> simp_all
  rw [tidy, trimWhile, squeeze_dropEndWhile, if_neg fun h => hhead h.1, runs_dropWhile]

/-! What a tidy text holds -/

theorem eq_space_of_mem_squeeze (h : c ∈ squeeze p l) (hc : p c) : c = ' ' := by
  induction l with
  | nil => cases h
  | cons a l ih =>
    rw [squeeze] at h
    split at h
    · split at h
      · exact ih h
      · exact (List.mem_cons.mp h).elim id ih
    · rename_i ha
      rcases List.mem_cons.mp h with rfl | h
      · exact absurd hc ha
      · exact ih h

theorem filter_squeeze (hp : p ' ') (l : List Char) :
    (squeeze p l).filter (!p ·) = l.filter (!p ·) := by
  induction l with
  | nil => rfl
  | cons c l ih =>
    rw [squeeze]
    by_cases hc : p c
    · by_cases hhead : l.head?.any p <;> simp [hc, hhead, ih, hp]
    · simp [hc, ih]

theorem filter_dropWhile (p : Char → Bool) (l : List Char) :
    (l.dropWhile p).filter (!p ·) = l.filter (!p ·) := by
  induction l with
  | nil => rfl
  | cons c l ih => by_cases hc : p c <;> simp [hc, ih]

/-- What does not satisfy `p` is kept in its order. -/
theorem filter_tidy (hp : p ' ') (l : List Char) :
    (tidy p l).filter (!p ·) = l.filter (!p ·) := by
  rw [tidy, filter_squeeze hp, trimWhile, dropEndWhile, List.filter_reverse, filter_dropWhile,
    ← List.filter_reverse, List.reverse_reverse, filter_dropWhile]

section
variable (h : ∀ c ∈ l, p c = q c)
include h

private theorem dropWhile_agree : l.dropWhile p = l.dropWhile q := by
  induction l with
  | nil => rfl
  | cons c l ih =>
    obtain ⟨hc, h⟩ := List.forall_mem_cons.mp h
    rw [List.dropWhile_cons, List.dropWhile_cons, hc, ih h]

private theorem squeeze_agree : squeeze p l = squeeze q l := by
  induction l with
  | nil => rfl
  | cons c l ih =>
    obtain ⟨hc, h⟩ := List.forall_mem_cons.mp h
    have hhead : l.head?.any p = l.head?.any q := by
      cases l with
      | nil => rfl
      | cons a l => exact h a List.mem_cons_self
    rw [squeeze, squeeze, hc, hhead, ih h]

theorem tidy_agree : tidy p l = tidy q l := by
  have hdrop := dropWhile_agree h
  have hend : ∀ c ∈ (l.dropWhile q).reverse, p c = q c := fun c hc =>
    h c (List.dropWhile_subset _ (List.mem_reverse.mp hc))
  have htrim : trimWhile p l = trimWhile q l := by
    rw [trimWhile, trimWhile, dropEndWhile, dropEndWhile, hdrop, dropWhile_agree hend]
  rw [tidy, tidy, htrim]
  refine squeeze_agree fun c hc => hend c ?_
  exact List.dropWhile_subset _ (List.mem_reverse.mp hc)

end

/-- Two notions of white space, one of which is narrower, tidy a text alike when they agree on all
of it. -/
theorem tidy_eq_tidy_iff (hq : q ' ') (hqp : ∀ c, q c → p c) :
    tidy p l = tidy q l ↔ ∀ c ∈ l, p c → q c := by
  constructor
  · intro h c hc hpc
    refine Decidable.byContradiction fun hqc => ?_
    have hkept : c ∈ (tidy q l).filter (!q ·) := by
      rw [filter_tidy hq]
      exact List.mem_filter.mpr ⟨hc, by simpa using hqc⟩
    rw [← h] at hkept
    exact hqc (eq_space_of_mem_squeeze (List.mem_filter.mp hkept).1 hpc ▸ hq)
  · intro h
    refine tidy_agree fun c hc => ?_
    exact Bool.eq_iff_iff.mpr ⟨h c hc, hqp c⟩

/-! Tidying again -/

theorem runs_append_of_pos {s : Char} (hs : p s) (l m : List Char) :
    runs p (l ++ s :: m) = runs p l ++ runs p m := by
  rw [runs, List.splitOnP_append_cons l m hs, List.filter_append]
  rfl

theorem not_of_mem_splitOnP {w : List Char} (h : w ∈ l.splitOnP p) : ∀ c ∈ w, p c = false := by
  induction l generalizing w with
  | nil =>
    obtain rfl : w = [] := by simpa using h
    exact nofun
  | cons a l ih =>
    rw [List.splitOnP_cons_eq_if_modifyHead] at h
    split at h
    · rcases List.mem_cons.mp h with rfl | h
      · exact nofun
      · exact ih h
    · rename_i ha
      obtain ⟨run, rest, hsplit⟩ := List.exists_cons_of_ne_nil (List.splitOnP_ne_nil p l)
      rw [hsplit] at h ih
      rcases List.mem_cons.mp h with rfl | h
      · exact List.forall_mem_cons.mpr ⟨by simpa using ha, ih List.mem_cons_self⟩
      · exact ih (List.mem_cons_of_mem _ h)

theorem runs_of_mem_runs {w : List Char} (h : w ∈ runs p l) : runs p w = [w] := by
  obtain ⟨hw, hne⟩ := List.mem_filter.mp h
  rw [runs, List.splitOnP_eq_singleton (not_of_mem_splitOnP hw)]
  simp [hne]

theorem runs_intercalate (hp : p ' ') (l : List Char) :
    runs p ([' '].intercalate (runs p l)) = runs p l := by
  have key {ws : List (List Char)} (h : ∀ w ∈ ws, runs p w = [w]) :
      runs p ([' '].intercalate ws) = ws := by
    induction ws with
    | nil => rfl
    | cons w ws ih =>
      obtain ⟨hw, h⟩ := List.forall_mem_cons.mp h
      cases ws with
      | nil => rw [List.intercalate_singleton, hw]
      | cons w' ws =>
        rw [List.intercalate_cons_cons, List.append_assoc, List.singleton_append,
          runs_append_of_pos hp, hw, ih h, List.singleton_append]
  exact key fun w hw => runs_of_mem_runs hw

theorem tidy_tidy (hp : p ' ') (l : List Char) : tidy p (tidy p l) = tidy p l := by
  rw [← intercalate_runs p (tidy p l), ← intercalate_runs p l, runs_intercalate hp]

end Text

namespace Query
open Text (isBlank isMarkupBlank tidy)

theorem toList_normalizeSpace (text : String) :
    (normalizeSpace text).toList = tidy isBlank text.toList := by
  have hwords : (Text.words text).map String.toList = Text.runs isBlank text.toList := by
    simp [Text.words, Text.runs, Function.comp_def]
  rw [normalizeSpace, String.toList_intercalate, hwords, ← Text.intercalate_runs]
  rfl

theorem normalizeSpace_normalizeSpace (text : String) :
    normalizeSpace (normalizeSpace text) = normalizeSpace text := by
  rw [← String.toList_inj, toList_normalizeSpace, toList_normalizeSpace, Text.tidy_tidy rfl]

/-- White space is normalized in the sense of the Unicode property: what is no white space is kept in
order, and normalizing again changes nothing. In the sense of markup it is normalized exactly where
all white space of the text is markup's. -/
theorem normalizeSpace_exact (v : View) (context : Context) (text : String) :
    let call (text : String) := callFunction v context "normalize-space" [.string text]
    ∃ result, call text = .ok (.string result) ∧ call result = .ok (.string result) ∧
      result.toList = tidy isBlank text.toList ∧
      result.toList.filter (!isBlank ·) = text.toList.filter (!isBlank ·) ∧
      (result.toList = tidy isMarkupBlank text.toList ↔
        ∀ c ∈ text.toList, isBlank c → isMarkupBlank c) := by
  intro call
  have hcall (text : String) : call text = .ok (.string (normalizeSpace text)) := rfl
  refine ⟨normalizeSpace text, hcall text, ?_, toList_normalizeSpace text, ?_, ?_⟩
  · rw [hcall, normalizeSpace_normalizeSpace]
  · rw [toList_normalizeSpace, Text.filter_tidy rfl]
  · rw [toList_normalizeSpace]
    exact Text.tidy_eq_tidy_iff rfl fun _ => Text.isBlank_of_isMarkupBlank

/-- A no-break space is white space, though not markup's. -/
example : normalizeSpace " a\u00a0\n b" = "a b" ∧
    tidy isMarkupBlank " a\u00a0\n b".toList = "a\u00a0 b".toList := by decide

end Query
end MarkupGraft
