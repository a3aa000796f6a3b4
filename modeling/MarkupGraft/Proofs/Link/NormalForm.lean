import MarkupGraft.Proofs.Link.Directory

/-!
The normal form of paths. A path in normal form takes no step that leads nowhere and goes up only at
its beginning, and from the root not at all. Cleaning gives every path this form, and changes no path
that has it.
-/

namespace MarkupGraft.Path

/-- The segments of a path without the one in front of the slash that it may begin with. -/
def steps (path : String) : List String :=
  (segments path).drop (if isRooted path then 1 else 0)

/-- A path in normal form. The slash and the dot are the paths without a step. -/
structure IsNormal (path : String) : Prop where
  ne_empty : path ≠ ""
  leads : path = "." ∨ path = "/" ∨ ∀ s ∈ steps path, s ≠ "" ∧ s ≠ "."
  /-- Only steps up come before a step up. -/
  upFirst : (steps path).Pairwise fun s t => t = ".." → s = ".."
  stays : isRooted path → ".." ∉ steps path
  slash : path.toList.getLast? = some '/' → path = "/"

theorem intercalate_segments (path : String) : "/".intercalate (segments path) = path := by
  have hslash : "/".toList = ['/'] := rfl
  refine String.toList_inj.mp ?_
  rw [String.toList_intercalate, hslash, segments, List.map_map]
  simp [Function.comp_def, List.intercalate_splitOn]

theorem eq_slash_append_of_isRooted {path : String} (h : isRooted path) :
    ∃ rest, path = "/" ++ rest := by
  have hhead : path.toList.head? = some '/' := by simpa [isRooted] using h
  obtain ⟨rest, hrest⟩ := List.head?_eq_some_iff.mp hhead
  exact ⟨String.ofList rest, String.toList_inj.mp (by simp [hrest])⟩

/-- A path is put together from its steps. -/
theorem ofSegments_steps (path : String) : ofSegments (isRooted path) (steps path) = path := by
  cases h : isRooted path with
  | true =>
    obtain ⟨rest, rfl⟩ := eq_slash_append_of_isRooted h
    rw [ofSegments, steps, h, if_pos rfl, if_pos rfl, segments_of_slash, List.drop_succ_cons,
      List.drop_zero, intercalate_segments]
  | false =>
    have hne : (segments path).isEmpty = false := by simp [segments]
    rw [ofSegments, steps, h, if_neg Bool.false_ne_true, if_neg Bool.false_ne_true, List.drop_zero,
      hne, if_neg Bool.false_ne_true, intercalate_segments]

namespace IsClean
variable {rooted : Bool} {l : List String} (hl : IsClean rooted l) (h : ∀ s ∈ l, '/' ∉ s.toList)
include h

theorem segments_ofSegments (hne : l ≠ []) :
    segments (ofSegments rooted l) = (if rooted then [""] else []) ++ l := by
  have hsegments := segments_intercalate hne h
  cases rooted with
  | true =>
    have hof : ofSegments true l = "/" ++ "/".intercalate l := rfl
    rw [hof, segments_of_slash, hsegments]
    rfl
  | false =>
    have hempty : l.isEmpty = false := by simpa using hne
    have hof : ofSegments false l = "/".intercalate l := by simp [ofSegments, hempty]
    rw [hof, hsegments]
    rfl

include hl

theorem steps_ofSegments (hne : l ≠ []) : steps (ofSegments rooted l) = l := by
  rw [steps, hl.isRooted_ofSegments h, segments_ofSegments h hne]
  cases rooted <;> rfl

/-- Behind a slash at its end a path would have an empty segment. -/
private theorem getLast?_ofSegments (hne : l ≠ []) :
    (ofSegments rooted l).toList.getLast? ≠ some '/' := by
  intro hlast
  obtain ⟨before, hbefore⟩ := List.getLast?_eq_some_iff.mp hlast
  have hend : ofSegments rooted l = String.ofList before ++ "/" ++ "" :=
    String.toList_inj.mp (by simp [hbefore])
  have hsegments : (segments (ofSegments rooted l)).getLast? = _ :=
    congrArg List.getLast? (segments_ofSegments h hne)
  have hempty : segments "" = [""] := rfl
  rw [hend, segments_slash, hempty, List.getLast?_concat, List.getLast?_append,
    List.getLast?_eq_some_getLast hne, Option.some_or, Option.some.injEq] at hsegments
  exact hl.ne_empty (List.getLast_mem hne) hsegments.symm

/-- Clean segments are put together to a path in normal form. -/
theorem isNormal_ofSegments : IsNormal (ofSegments rooted l) := by
  rcases eq_or_ne l [] with rfl | hne
  · cases rooted with
    | true => exact ⟨by decide, .inr (.inl rfl), List.pairwise_singleton _ "", by decide, fun _ => rfl⟩
    | false => exact ⟨by decide, .inl rfl, List.pairwise_singleton _ ".", by decide, by decide⟩
  · have hsteps := hl.steps_ofSegments h hne
    refine ⟨hl.ofSegments_ne_empty, .inr (.inr fun s hs => ?_), ?_, fun hrooted => ?_,
      fun hlast => absurd hlast (hl.getLast?_ofSegments h hne)⟩
    · rw [hsteps] at hs
      simpa [isIdle] using hl.leads s hs
    · rw [hsteps]
      exact hl.upFirst
    · rw [hl.isRooted_ofSegments h] at hrooted
      rw [hsteps]
      exact hl.stays hrooted

end IsClean

theorem isNormal_clean (path : String) : IsNormal (clean path) :=
  (isClean_route path).isNormal_ofSegments fun _ hs => slash_not_mem_of_mem_route hs

theorem slash_not_mem_of_mem_steps {path s : String} (h : s ∈ steps path) : '/' ∉ s.toList :=
  slash_not_mem_of_mem_segments (List.mem_of_mem_drop h)

/-- A path in normal form stays as it is. -/
theorem IsNormal.clean_eq {path : String} (h : IsNormal path) : clean path = path := by
  rcases h.leads with rfl | rfl | hleads
  · decide
  · decide
  · have hclean : IsClean (isRooted path) (steps path) :=
      ⟨fun s hs => by simpa [isIdle] using hleads s hs, h.upFirst, h.stays⟩
    have hsteps := hclean.clean_ofSegments fun _ hs => slash_not_mem_of_mem_steps hs
    rwa [ofSegments_steps] at hsteps

/-- Cleaning produces a normal form: a path comes out in normal form, rooted if it was, and is not
changed again. What has the form already, and nothing else, is not changed at all. -/
theorem clean_normalizes (path : String) :
    IsNormal (clean path) ∧ isRooted (clean path) = isRooted path ∧
      clean (clean path) = clean path ∧ (clean path = path ↔ IsNormal path) :=
  ⟨isNormal_clean path, isRooted_clean path, clean_clean path,
    fun h => h ▸ isNormal_clean path, IsNormal.clean_eq⟩

example : steps (clean "/../a//./b/../c/") = ["a", "c"] ∧ steps (clean "a/../../b") = ["..", "b"] := by
  decide +kernel

end MarkupGraft.Path
