import Mathlib.Data.List.TakeWhile
import MarkupGraft.Proofs.Link.Path

/-!
Directories and names. Only the segments that lead somewhere count, so a path may be cut behind its
last slash, cleaned in front of it, and put together again; and what is joined to a path may be cleaned
before or after.
-/

namespace MarkupGraft.Path

variable {rooted : Bool} {taken : List String}

/-! Idle segments -/

theorem foldl_push_filter (l : List String) :
    (l.filter (!isIdle ·)).foldl (push rooted) taken = l.foldl (push rooted) taken := by
  induction l generalizing taken with
  | nil => rfl
  | cons segment l ih =>
    by_cases hidle : isIdle segment
    · rw [List.filter_cons_of_neg (by simpa using hidle), ih, List.foldl_cons,
        push_of_isIdle hidle]
    · rw [List.filter_cons_of_pos (by simpa using hidle), List.foldl_cons, ih, List.foldl_cons]

theorem trail_slash (path more : String) : trail (path ++ "/" ++ more) = trail path ++ trail more := by
  rw [trail, segments_slash, List.filter_append]
  rfl

theorem route_eq (path : String) : route path = cleanSegments (isRooted path) (trail path) :=
  congrArg List.reverse (foldl_push_filter (segments path)).symm

theorem trail_append_slash (path : String) : trail (path ++ "/") = trail path := by
  have htrail := trail_slash path ""
  rw [String.append_empty] at htrail
  exact htrail.trans (List.append_nil _)

/-- Where a path leads is a matter of its beginning and of the segments that lead somewhere. -/
theorem clean_congr {path other : String} (hrooted : isRooted path = isRooted other)
    (htrail : trail path = trail other) : clean path = clean other := by
  rw [clean_eq, clean_eq, route_eq, route_eq, hrooted, htrail]

/-! Cleaning what is joined -/

/-- Segments of a path that is not rooted may be cleaned before they are taken. -/
theorem foldl_push_cleanSegments (l : List String) :
    (cleanSegments false l).foldl (push rooted) taken = l.foldl (push rooted) taken := by
  induction l using List.reverseRecOn with
  | nil => rfl
  | append_singleton l segment ih =>
    have hclean : IsClean false (l.foldl (push false) []).reverse :=
      IsClean.reverse_foldl_push .nil l
    rw [cleanSegments, List.foldl_append, List.foldl_append, ← ih, cleanSegments]
    generalize l.foldl (push false) [] = first at hclean ⊢
    -- What is pushed is either put on top, which may as well be done later, or undone at once.
    by_cases hidle : isIdle segment
    · simp [push_of_isIdle hidle]
    · by_cases hup : segment = ".."
      · subst hup
        cases first with
        | nil => rfl
        | cons last rest =>
          by_cases hlast : last = ".."
          · simp [push_up_cons, hlast]
          · have hleads : ¬isIdle last := hclean.leads last (by simp)
            simp [push_up_cons, hlast, push_of_not_isIdle hleads hlast]
      · simp [push_of_not_isIdle hidle hup]

/-- The second part of a path may be cleaned before it is taken, unless it is rooted. -/
theorem clean_slash_clean {path more : String} (h : path ≠ "") (hmore : isRooted more = false) :
    clean (path ++ "/" ++ clean more) = clean (path ++ "/" ++ more) := by
  have hslash : ∀ s ∈ route more, '/' ∉ s.toList := fun _ hs => slash_not_mem_of_mem_route hs
  have hroute : route (path ++ "/" ++ clean more) = route (path ++ "/" ++ more) := by
    rw [route_slash h, route_slash h, clean_eq more, foldl_push_ofSegments hslash, route.eq_1 more,
      hmore, foldl_push_cleanSegments]
  rw [clean_eq (path ++ "/" ++ clean more), clean_eq (path ++ "/" ++ more), hroute,
    isRooted_slash h, isRooted_slash h]

theorem clean_clean (path : String) : clean (clean path) = clean path := by
  rw [clean_eq (clean path), isRooted_clean, route_clean, ← clean_eq]

theorem join_eq {base : String} (h : base ≠ "") (path : String) :
    join base path = clean (base ++ "/" ++ path) := if_neg h

/-- Joining is associative. -/
theorem join_join {a b : String} (ha : a ≠ "") (hb : b ≠ "") (hrooted : isRooted b = false)
    (c : String) : join (join a b) c = join a (join b c) := by
  have hbc : isRooted (b ++ "/" ++ c) = false := (isRooted_slash hb c).trans hrooted
  have hab : a ++ "/" ++ b ≠ "" := by simp [ha]
  calc join (join a b) c
      = clean (clean (a ++ "/" ++ b) ++ "/" ++ c) := by
        rw [join_eq ha, join_eq (clean_ne_empty _)]
    _ = clean (a ++ "/" ++ (b ++ "/" ++ c)) := by
        rw [clean_clean_slash hab]
        simp only [String.append_assoc]
    _ = join a (join b c) := by rw [join_eq hb, join_eq ha, clean_slash_clean ha hbc]

/-! The last slash -/

/-- A path has no slash, or something before and something behind the last one. -/
theorem split_cases (path : String) : '/' ∉ path.toList ∨
    ∃ before name, path = before ++ "/" ++ name ∧ '/' ∉ name.toList := by
  have hdivide := List.takeWhile_append_dropWhile (p := (· ≠ '/')) (l := path.toList.reverse)
  have hname : '/' ∉ path.toList.reverse.takeWhile (· ≠ '/') := fun hmem => by
    simpa using List.mem_takeWhile_imp hmem
  generalize path.toList.reverse.takeWhile (· ≠ '/') = name at hdivide hname
  cases hdrop : path.toList.reverse.dropWhile (· ≠ '/') with
  | nil =>
    rw [hdrop, List.append_nil] at hdivide
    rw [hdivide, List.mem_reverse] at hname
    exact .inl hname
  | cons c before =>
    have hc : c = '/' := by
      have hhead := List.head?_dropWhile_not (· ≠ '/') path.toList.reverse
      rw [hdrop] at hhead
      simpa using hhead
    refine .inr ⟨String.ofList before.reverse, String.ofList name.reverse, ?_, by simpa using hname⟩
    rw [hdrop, hc] at hdivide
    refine String.toList_inj.mp ?_
    rw [← List.reverse_reverse path.toList, ← hdivide]
    simp

section
variable {name : String} (h : '/' ∉ name.toList)
include h

private theorem not_slash_of_mem_reverse : ∀ c ∈ name.toList.reverse, decide (c ≠ '/') := by
  intro c hc
  have hne : c ≠ '/' := fun he => h (he ▸ List.mem_reverse.mp hc)
  simpa using hne

theorem dir_of_not_mem : dir name = "." := by
  rw [dir, List.dropWhile_eq_nil_iff.mpr (not_slash_of_mem_reverse h)]

theorem fileName_of_not_mem : fileName name = name := by
  rw [fileName, List.takeWhile_eq_self_iff.mpr (not_slash_of_mem_reverse h), List.reverse_reverse,
    String.ofList_toList]

theorem fileName_slash (before : String) : fileName (before ++ "/" ++ name) = name := by
  have hreverse : (before ++ "/" ++ name).toList.reverse =
      name.toList.reverse ++ '/' :: before.toList.reverse := by simp
  rw [fileName, hreverse, List.takeWhile_append_of_pos (not_slash_of_mem_reverse h),
    List.takeWhile_cons_of_neg (by simp), List.append_nil, List.reverse_reverse,
    String.ofList_toList]

/-- A directory is what stands in front of the last slash, but the root is written with it. -/
theorem dir_slash (before : String) : dir (before ++ "/" ++ name) = clean (before ++ "/") := by
  have hcut : (before ++ "/" ++ name).toList.reverse.dropWhile (· ≠ '/') =
      '/' :: before.toList.reverse := by
    have hreverse : (before ++ "/" ++ name).toList.reverse =
        name.toList.reverse ++ '/' :: before.toList.reverse := by simp
    rw [hreverse, List.dropWhile_append_of_pos (not_slash_of_mem_reverse h),
      List.dropWhile_cons_of_neg (by simp)]
  rw [dir, hcut]
  by_cases hbefore : before = ""
  · subst hbefore
    rfl
  · obtain ⟨c, rest, hrest⟩ : ∃ c rest, before.toList.reverse = c :: rest :=
      List.exists_cons_of_ne_nil (by simpa using hbefore)
    rw [clean_congr (isRooted_append hbefore "/") (trail_append_slash before), hrest]
    change clean (String.ofList (c :: rest).reverse) = _
    rw [← hrest, List.reverse_reverse, String.ofList_toList]

end

theorem dir_ne_empty (path : String) : dir path ≠ "" := by
  rcases split_cases path with h | ⟨before, name, rfl, h⟩
  · rw [dir_of_not_mem h]
    decide
  · rw [dir_slash h]
    exact clean_ne_empty _

theorem isRooted_of_not_mem {name : String} (h : '/' ∉ name.toList) : isRooted name = false := by
  rw [isRooted, decide_eq_false_iff_not]
  exact fun hhead => h (List.mem_of_head? hhead)

/-- A slash more or less makes no difference. -/
theorem clean_slash_slash (path more : String) :
    clean (path ++ "/" ++ "/" ++ more) = clean (path ++ "/" ++ more) := by
  refine clean_congr ?_ ?_
  · by_cases hpath : path = ""
    · rw [hpath, String.empty_append, String.append_assoc, isRooted_append (by decide),
        isRooted_append (by decide)]
    · rw [isRooted_slash (by simp), isRooted_append hpath, isRooted_slash hpath]
  · rw [trail_slash, trail_slash, trail_append_slash]

/-- A path is its name in its directory. -/
theorem join_dir_fileName (path : String) : join (dir path) (fileName path) = clean path := by
  rw [join_eq (dir_ne_empty path)]
  rcases split_cases path with h | ⟨before, name, rfl, h⟩
  · rw [dir_of_not_mem h, fileName_of_not_mem h]
    refine clean_congr ?_ (trail_slash "." path)
    rw [isRooted_slash (by decide), isRooted_of_not_mem h]
    rfl
  · rw [dir_slash h, fileName_slash h, clean_clean_slash (by simp), clean_slash_slash]

/-! Names -/

theorem IsClean.clean_ofSegments {l : List String} (hl : IsClean rooted l)
    (h : ∀ s ∈ l, '/' ∉ s.toList) : clean (ofSegments rooted l) = ofSegments rooted l := by
  rw [clean_eq, route, hl.isRooted_ofSegments h, cleanSegments, foldl_push_ofSegments h,
    hl.foldl_push_eq, List.reverse_reverse]

/-- A path that is put together from segments has the last one for its name, in the directory that the
others make up. -/
theorem IsClean.dir_fileName_ofSegments {l : List String} (hl : IsClean rooted l)
    (h : ∀ s ∈ l, '/' ∉ s.toList) {name : String} (hname : '/' ∉ name.toList) :
    dir (ofSegments rooted (l ++ [name])) = ofSegments rooted l ∧
      fileName (ofSegments rooted (l ++ [name])) = name := by
  cases l with
  | nil =>
    cases rooted with
    | true => exact ⟨dir_slash hname "", fileName_slash hname ""⟩
    | false => exact ⟨dir_of_not_mem hname, fileName_of_not_mem hname⟩
  | cons s l =>
    have hjoined : "/".intercalate (s :: l ++ [name]) = "/".intercalate (s :: l) ++ "/" ++ name :=
      (String.intercalate_append_of_ne_nil (List.cons_ne_nil s l) (List.cons_ne_nil name [])).trans
        (by rw [String.intercalate_singleton])
    have happend : ofSegments rooted (s :: l ++ [name]) =
        ofSegments rooted (s :: l) ++ "/" ++ name := by
      cases rooted with
      | true => exact (congrArg ("/" ++ ·) hjoined).trans (by simp [ofSegments, String.append_assoc])
      | false => exact hjoined
    rw [happend, dir_slash hname, fileName_slash hname,
      clean_congr (isRooted_append hl.ofSegments_ne_empty "/") (trail_append_slash _),
      hl.clean_ofSegments h]
    exact ⟨rfl, rfl⟩

theorem cleanSegments_append_name {name : String} (hidle : ¬isIdle name) (hup : name ≠ "..")
    (l : List String) : cleanSegments rooted (l ++ [name]) = cleanSegments rooted l ++ [name] := by
  rw [cleanSegments, List.foldl_append, List.foldl_cons, List.foldl_nil,
    push_of_not_isIdle hidle hup, List.reverse_cons]
  rfl

theorem trail_name {name : String} (h : '/' ∉ name.toList) (hidle : ¬isIdle name) :
    trail name = [name] := by
  have hsegments := segments_intercalate (List.cons_ne_nil name []) (by simpa using h)
  rw [String.intercalate_singleton] at hsegments
  rw [trail, hsegments, List.filter_cons_of_pos (by simpa using hidle), List.filter_nil]

/-- Whether a path ends in a name, not in a slash or in dots. -/
def endsInName (path : String) : Bool := !isIdle (fileName path) && fileName path ≠ ".."

/-- Cleaning the path of a file leaves the file in its directory and keeps its name. -/
theorem dir_fileName_clean {path : String} (h : endsInName path) :
    dir (clean path) = dir path ∧ fileName (clean path) = fileName path := by
  obtain ⟨hidle, hup⟩ : ¬isIdle (fileName path) ∧ fileName path ≠ ".." := by
    simpa [endsInName] using h
  rcases split_cases path with hslash | ⟨before, name, rfl, hslash⟩
  · rw [fileName_of_not_mem hslash] at hidle hup ⊢
    have hroute : route path = [] ++ [path] := by
      rw [route_eq, trail_name hslash hidle]
      exact cleanSegments_append_name hidle hup []
    rw [clean_eq, hroute, isRooted_of_not_mem hslash, dir_of_not_mem hslash]
    exact IsClean.nil.dir_fileName_ofSegments (by simp) hslash
  · rw [fileName_slash hslash] at hidle hup ⊢
    have hrooted : isRooted (before ++ "/" ++ name) = isRooted (before ++ "/") :=
      isRooted_append (by simp) name
    have hroute : route (before ++ "/" ++ name) = route (before ++ "/") ++ [name] := by
      rw [route_eq, trail_slash, trail_name hslash hidle, hrooted,
        cleanSegments_append_name hidle hup, route_eq, trail_append_slash]
    rw [clean_eq, hroute, hrooted, dir_slash hslash, clean_eq (before ++ "/")]
    exact (isClean_route _).dir_fileName_ofSegments
      (fun _ hs => slash_not_mem_of_mem_route hs) hslash

/-! Paths inside a directory -/

theorem isRooted_dir (path : String) : isRooted (dir path) = isRooted path := by
  rcases split_cases path with h | ⟨before, name, rfl, h⟩
  · rw [dir_of_not_mem h, isRooted_of_not_mem h]
    rfl
  · rw [dir_slash h, isRooted_clean]
    exact (isRooted_append (by simp) name).symm

theorem fileName_slash_path (base path : String) :
    fileName (base ++ "/" ++ path) = fileName path := by
  rcases split_cases path with h | ⟨before, name, rfl, h⟩
  · rw [fileName_slash h, fileName_of_not_mem h]
  · have happend : base ++ "/" ++ (before ++ "/" ++ name) = base ++ "/" ++ before ++ "/" ++ name := by
      simp only [String.append_assoc]
    rw [happend, fileName_slash h, fileName_slash h]

/-- The directory of a path inside another directory. -/
theorem dir_slash_path {base path : String} (h : base ≠ "") (hpath : isRooted path = false) :
    dir (base ++ "/" ++ path) = join base (dir path) := by
  rw [join_eq h]
  rcases split_cases path with hslash | ⟨before, name, rfl, hslash⟩
  · rw [dir_slash hslash, dir_of_not_mem hslash]
    refine clean_congr ?_ ?_
    · rw [isRooted_append h, isRooted_slash h]
    · rw [trail_append_slash, trail_slash]
      exact (List.append_nil _).symm
  · have happend : base ++ "/" ++ (before ++ "/" ++ name) = base ++ "/" ++ before ++ "/" ++ name := by
      simp only [String.append_assoc]
    have hbefore : isRooted (before ++ "/") = false := (isRooted_append (by simp) name).symm.trans hpath
    rw [happend, dir_slash hslash, dir_slash hslash, clean_slash_clean h hbefore]
    simp only [String.append_assoc]

end MarkupGraft.Path
