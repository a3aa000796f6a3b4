import Mathlib.Data.List.Induction
import MarkupGraft.Link.Path

/-!
Cleaned paths. Cleaning takes the segments onto a stack one after the other; what is on it is clean at
every moment, and taking clean segments onto an empty stack only puts them there. So a path may be
cleaned in parts.
-/

namespace MarkupGraft.Path

/-! Segments -/

theorem segments_slash (path more : String) :
    segments (path ++ "/" ++ more) = segments path ++ segments more := by
  have hslash : "/".toList = ['/'] := rfl
  rw [segments, String.toList_append, String.toList_append, hslash, List.append_assoc,
    List.singleton_append, List.splitOn_append_cons_self, List.map_append]
  rfl

theorem segments_of_slash (path : String) : segments ("/" ++ path) = "" :: segments path := by
  have h := segments_slash "" path
  rwa [String.empty_append] at h

private theorem not_mem_of_mem_splitOn {text part : List Char} {c : Char}
    (h : part ∈ text.splitOn c) : c ∉ part := by
  induction text generalizing part with
  | nil =>
    obtain rfl : part = [] := by simpa using h
    simp
  | cons d text ih =>
    rw [List.splitOn_cons_eq_if_modifyHead] at h
    split at h
    · rcases List.mem_cons.mp h with rfl | h
      · simp
      · exact ih h
    · rename_i hd
      cases hparts : text.splitOn c with
      | nil => exact absurd hparts (List.splitOn_ne_nil c text)
      | cons first rest =>
        rw [hparts, List.modifyHead_cons] at h
        rcases List.mem_cons.mp h with rfl | h
        · have hfirst := ih (hparts ▸ List.mem_cons_self)
          exact not_or.mpr ⟨fun he => hd (by simp [he]), hfirst⟩ ∘ List.mem_cons.mp
        · exact ih (hparts ▸ List.mem_cons_of_mem first h)

theorem slash_not_mem_of_mem_segments {path segment : String} (h : segment ∈ segments path) :
    '/' ∉ segment.toList := by
  obtain ⟨part, hpart, rfl⟩ := List.mem_map.mp h
  rw [String.toList_ofList]
  exact not_mem_of_mem_splitOn hpart

theorem segments_intercalate {l : List String} (hl : l ≠ []) (h : ∀ s ∈ l, '/' ∉ s.toList) :
    segments ("/".intercalate l) = l := by
  have hparts : ∀ part ∈ l.map String.toList, '/' ∉ part := by simpa using h
  have hslash : "/".toList = ['/'] := rfl
  rw [segments, String.toList_intercalate, hslash,
    List.splitOn_intercalate '/' hparts (by simpa using hl), List.map_map]
  simp [Function.comp_def]

theorem isRooted_append {path : String} (h : path ≠ "") (more : String) :
    isRooted (path ++ more) = isRooted path := by
  obtain ⟨c, rest, hc⟩ := List.exists_cons_of_ne_nil (show path.toList ≠ [] by simpa using h)
  rw [isRooted, isRooted, String.toList_append, hc]
  rfl

theorem isRooted_slash {path : String} (h : path ≠ "") (more : String) :
    isRooted (path ++ "/" ++ more) = isRooted path := by
  rw [String.append_assoc, isRooted_append h]

/-! Taking segments -/

variable {rooted : Bool} {taken : List String} {segment : String}

theorem push_of_isIdle (h : isIdle segment) : push rooted taken segment = taken := by
  have h : segment = "" ∨ segment = "." := by simpa [isIdle] using h
  rw [push.eq_def, if_pos h]

theorem push_of_not_isIdle (h : ¬isIdle segment) (hup : segment ≠ "..") :
    push rooted taken segment = segment :: taken := by
  have h : ¬(segment = "" ∨ segment = ".") := by simpa [isIdle] using h
  rw [push.eq_def, if_neg h, if_neg hup]

theorem push_up_nil : push rooted [] ".." = if rooted then [] else [".."] := rfl

theorem push_up_cons (last : String) : push rooted (last :: taken) ".." =
    if last = ".." then ".." :: last :: taken else taken := rfl

theorem mem_push {s : String} (h : s ∈ push rooted taken segment) : s ∈ taken ∨ s = segment := by
  by_cases hidle : isIdle segment
  · rw [push_of_isIdle hidle] at h
    exact .inl h
  · by_cases hup : segment = ".."
    · subst hup
      cases taken with
      | nil =>
        rw [push_up_nil] at h
        split at h <;> simp_all
      | cons last rest =>
        rw [push_up_cons] at h
        split at h
        · exact (List.mem_cons.mp h).symm
        · exact .inl (List.mem_cons_of_mem last h)
    · rw [push_of_not_isIdle hidle hup] at h
      exact (List.mem_cons.mp h).symm

theorem mem_foldl_push {l : List String} {s : String} (h : s ∈ l.foldl (push rooted) taken) :
    s ∈ taken ∨ s ∈ l := by
  induction l generalizing taken with
  | nil => exact .inl h
  | cons segment l ih =>
    rcases ih h with h | h
    · rcases mem_push h with h | rfl
      · exact .inl h
      · exact .inr List.mem_cons_self
    · exact .inr (List.mem_cons_of_mem segment h)

/-- The segments of a cleaned path: each leads somewhere, and it goes up before it goes down. From
the root it does not go up. -/
structure IsClean (rooted : Bool) (l : List String) : Prop where
  leads : ∀ s ∈ l, ¬isIdle s
  upFirst : l.Pairwise fun s t => t = ".." → s = ".."
  stays : rooted → ".." ∉ l

namespace IsClean

theorem nil : IsClean rooted [] := ⟨by simp, .nil, by simp⟩

theorem sublist {l m : List String} (h : IsClean rooted m) (hl : l.Sublist m) : IsClean rooted l :=
  ⟨fun s hs => h.leads s (hl.subset hs), h.upFirst.sublist hl,
    fun hr hup => h.stays hr (hl.subset hup)⟩

theorem ne_empty {l : List String} (h : IsClean rooted l) {s : String} (hs : s ∈ l) : s ≠ "" := by
  rintro rfl
  exact h.leads "" hs rfl

/-- Once a path goes up, it has gone up from its beginning. -/
theorem eq_up_of_append {l m : List String} (h : IsClean rooted (l ++ ".." :: m)) :
    ∀ s ∈ l, s = ".." := fun s hs =>
  (List.pairwise_append.mp h.upFirst).2.2 s hs ".." List.mem_cons_self rfl

theorem reverse_push (h : IsClean rooted taken.reverse) (segment : String) :
    IsClean rooted (push rooted taken segment).reverse := by
  by_cases hidle : isIdle segment
  · rwa [push_of_isIdle hidle]
  · by_cases hup : segment = ".."
    · subst hup
      cases taken with
      | nil =>
        cases rooted with
        | true => exact h
        | false => exact ⟨by decide, List.pairwise_singleton _ _, by simp⟩
      | cons last rest =>
        rw [push_up_cons]
        split
        · rename_i hlast
          subst hlast
          rw [List.reverse_cons] at h
          have hrest := h.eq_up_of_append
          refine ⟨?_, ?_, fun hr => absurd (List.mem_append_right _ List.mem_cons_self) (h.stays hr)⟩
          · intro s hs
            rcases List.mem_cons.mp (List.mem_reverse.mp hs) with rfl | hs
            · decide
            · exact h.leads s (by simpa using (List.mem_cons.mp hs).symm)
          · refine List.pairwise_of_forall_mem_list fun s hs t _ _ => ?_
            rcases List.mem_cons.mp (List.mem_reverse.mp hs) with rfl | hs
            · rfl
            · rcases List.mem_cons.mp hs with rfl | hs
              · rfl
              · exact hrest s (List.mem_reverse.mpr hs)
        · exact h.sublist (by simp)
    · rw [push_of_not_isIdle hidle hup, List.reverse_cons]
      refine ⟨?_, ?_, fun hr => ?_⟩
      · intro s hs
        rcases List.mem_append.mp hs with hs | hs
        · exact h.leads s hs
        · rwa [List.mem_singleton.mp hs]
      · refine List.pairwise_append.mpr ⟨h.upFirst, List.pairwise_singleton _ _, ?_⟩
        intro s _ t ht hte
        exact absurd ((List.mem_singleton.mp ht).symm.trans hte) hup
      · simp only [List.mem_append, List.mem_singleton, not_or]
        exact ⟨h.stays hr, fun he => hup he.symm⟩

theorem reverse_foldl_push (h : IsClean rooted taken.reverse) (l : List String) :
    IsClean rooted (l.foldl (push rooted) taken).reverse := by
  induction l generalizing taken with
  | nil => exact h
  | cons segment l ih => exact ih (h.reverse_push segment)

/-- Clean segments are taken as they are. -/
theorem foldl_push_eq {l : List String} (h : IsClean rooted l) :
    l.foldl (push rooted) [] = l.reverse := by
  induction l using List.reverseRecOn with
  | nil => rfl
  | append_singleton l segment ih =>
    have hidle := h.leads segment (by simp)
    rw [List.foldl_append, ih (h.sublist (List.sublist_append_left l _)), List.foldl_cons,
      List.foldl_nil, List.reverse_append, List.reverse_singleton, List.singleton_append]
    by_cases hup : segment = ".."
    · subst hup
      have hl := h.eq_up_of_append
      cases hlast : l.reverse with
      | nil =>
        have hr : rooted = false := by
          by_contra hr
          exact h.stays (by simpa using hr) (by simp)
        rw [push_up_nil, hr]
        rfl
      | cons last rest =>
        rw [push_up_cons, if_pos (hl last (List.mem_reverse.mp (hlast ▸ List.mem_cons_self)))]
    · exact push_of_not_isIdle hidle hup

end IsClean

/-! Cleaned paths -/

/-- Where a path leads, in clean segments. -/
def route (path : String) : List String := cleanSegments (isRooted path) (segments path)

theorem clean_eq (path : String) : clean path = ofSegments (isRooted path) (route path) := rfl

theorem isClean_route (path : String) : IsClean (isRooted path) (route path) :=
  IsClean.nil.reverse_foldl_push (segments path)

theorem slash_not_mem_of_mem_route {path s : String} (h : s ∈ route path) : '/' ∉ s.toList := by
  rcases mem_foldl_push (List.mem_reverse.mp h) with h | h
  · cases h
  · exact slash_not_mem_of_mem_segments h

theorem foldl_push_segments (path : String) :
    (segments path).foldl (push (isRooted path)) [] = (route path).reverse := by
  rw [route, cleanSegments, List.reverse_reverse]

section
variable {l : List String} (h : ∀ s ∈ l, '/' ∉ s.toList)
include h

/-- The segments of a path that is put together lead where they were to lead. -/
theorem foldl_push_ofSegments (begins rooted : Bool) (taken : List String) :
    (segments (ofSegments begins l)).foldl (push rooted) taken = l.foldl (push rooted) taken := by
  have hidle (s : String) (hs : isIdle s) (rest : List String) :
      (s :: rest).foldl (push rooted) taken = rest.foldl (push rooted) taken := by
    rw [List.foldl_cons, push_of_isIdle hs]
  rcases eq_or_ne l [] with rfl | hl
  · cases begins with
    | true => exact (hidle "" rfl [""]).trans (hidle "" rfl [])
    | false => exact hidle "." rfl []
  · cases begins with
    | true =>
      rw [ofSegments, if_pos rfl, segments_of_slash, hidle "" rfl, segments_intercalate hl h]
    | false =>
      have hne : l.isEmpty = false := by simpa using hl
      rw [ofSegments, if_neg Bool.false_ne_true, hne, if_neg Bool.false_ne_true,
        segments_intercalate hl h]

end

theorem IsClean.isRooted_ofSegments {l : List String} (hl : IsClean rooted l)
    (h : ∀ s ∈ l, '/' ∉ s.toList) : isRooted (ofSegments rooted l) = rooted := by
  cases rooted with
  | true => exact isRooted_append (by decide) ("/".intercalate l)
  | false =>
    cases l with
    | nil => rfl
    | cons s l =>
      have hne := hl.ne_empty List.mem_cons_self
      have hs : isRooted s = false := by
        rw [isRooted, decide_eq_false_iff_not]
        exact fun hhead => h s List.mem_cons_self (List.mem_of_head? hhead)
      have hof : ofSegments false (s :: l) = "/".intercalate (s :: l) := rfl
      rw [hof]
      cases l with
      | nil => rwa [String.intercalate_singleton]
      | cons t l =>
        rw [String.intercalate_cons_cons, String.append_assoc, isRooted_append hne, hs]

theorem isRooted_clean (path : String) : isRooted (clean path) = isRooted path :=
  (isClean_route path).isRooted_ofSegments fun _ hs => slash_not_mem_of_mem_route hs

theorem IsClean.ofSegments_ne_empty {l : List String} (hl : IsClean rooted l) :
    ofSegments rooted l ≠ "" := by
  cases rooted with
  | true => simp [ofSegments]
  | false =>
    cases l with
    | nil => decide
    | cons s l =>
      have hne := hl.ne_empty List.mem_cons_self
      cases l <;> simp [ofSegments, hne]

theorem clean_ne_empty (path : String) : clean path ≠ "" := (isClean_route path).ofSegments_ne_empty

/-- What is cleaned already leads where it led. -/
theorem foldl_push_segments_clean (path : String) :
    (segments (clean path)).foldl (push (isRooted path)) [] = (route path).reverse := by
  rw [clean_eq, foldl_push_ofSegments (fun _ hs => slash_not_mem_of_mem_route hs),
    (isClean_route path).foldl_push_eq]

theorem route_clean (path : String) : route (clean path) = route path := by
  rw [route, isRooted_clean, cleanSegments, foldl_push_segments_clean, List.reverse_reverse]

/-- A path in two parts is taken from where the first part leads. -/
theorem route_slash {path : String} (h : path ≠ "") (more : String) :
    route (path ++ "/" ++ more) =
      ((segments more).foldl (push (isRooted path)) (route path).reverse).reverse := by
  rw [route, isRooted_slash h, cleanSegments, segments_slash, List.foldl_append,
    foldl_push_segments]

/-- The first part of a path may be cleaned before the second is taken. -/
theorem clean_clean_slash {path : String} (h : path ≠ "") (more : String) :
    clean (clean path ++ "/" ++ more) = clean (path ++ "/" ++ more) := by
  rw [clean_eq (clean path ++ "/" ++ more), clean_eq (path ++ "/" ++ more), isRooted_slash h,
    isRooted_slash (clean_ne_empty path), route_slash h, route_slash (clean_ne_empty path),
    isRooted_clean, route_clean]

end MarkupGraft.Path
