import MarkupGraft.Link.Relative
import MarkupGraft.Proofs.Link.Path

/-!
Links fitted to another place. The way from a directory to a target goes up out of what only the
directory's path has and down along what only the target's path has, so it leads there; there is no
way exactly when the directory's path climbs further than the target's.
-/

namespace MarkupGraft.Path

/-! Common beginnings -/

theorem exists_dropCommon (l m : List String) :
    ∃ common, l = common ++ (dropCommon l m).1 ∧ m = common ++ (dropCommon l m).2 := by
  induction l generalizing m with
  | nil => exact ⟨[], by simp [dropCommon], by simp [dropCommon]⟩
  | cons a l ih =>
    cases m with
    | nil => exact ⟨[], rfl, rfl⟩
    | cons b m =>
      by_cases hab : a = b
      · obtain ⟨common, hl, hm⟩ := ih m
        refine ⟨a :: common, ?_, ?_⟩
        · rw [dropCommon, if_pos hab, List.cons_append, ← hl]
        · rw [dropCommon, if_pos hab, List.cons_append, ← hm, hab]
      · exact ⟨[], by rw [dropCommon, if_neg hab]; rfl, by rw [dropCommon, if_neg hab]; rfl⟩

/-- How many segments at the beginning go up. -/
def countUps (l : List String) : Nat := (l.takeWhile (· = "..")).length

theorem countUps_cons (s : String) (l : List String) :
    countUps (s :: l) = if s = ".." then countUps l + 1 else 0 := by
  by_cases hs : s = ".." <;> simp [countUps, hs]

variable {rooted : Bool}

theorem IsClean.countUps_pos_iff {l : List String} (h : IsClean rooted l) :
    0 < countUps l ↔ ".." ∈ l := by
  cases l with
  | nil => simp [countUps]
  | cons s l =>
    rw [countUps_cons]
    split
    · rename_i hs
      simp [hs]
    · rename_i hs
      refine iff_of_false (Nat.lt_irrefl 0) fun hup => ?_
      rcases List.mem_cons.mp hup with he | hup
      · exact hs he.symm
      · exact hs (List.rel_of_pairwise_cons h.upFirst hup rfl)

/-- Behind the common beginning of two paths the first, if it is clean, goes up just when it climbs
further than the second. -/
theorem IsClean.mem_dropCommon_iff {l : List String} (hl : IsClean rooted l) (m : List String) :
    ".." ∈ (dropCommon l m).1 ↔ countUps m < countUps l := by
  induction l generalizing m with
  | nil => simp [dropCommon, countUps]
  | cons a l ih =>
    have hrest := hl.sublist (List.sublist_cons_self a l)
    cases m with
    | nil => exact hl.countUps_pos_iff.symm
    | cons b m =>
      rw [dropCommon, countUps_cons b, countUps_cons a]
      by_cases ha : a = ".."
      · by_cases hab : a = b
        · rw [if_pos hab, ih hrest, if_pos ha, if_pos (hab ▸ ha), Nat.add_lt_add_iff_right]
        · rw [if_neg hab, if_pos ha, if_neg fun hb => hab (ha.trans hb.symm)]
          simp [ha]
      · -- From here on the first path goes down only.
        have hdown : ".." ∉ a :: l := fun hup => ha <| by
          have := hl.countUps_pos_iff.mpr hup
          rw [countUps_cons] at this
          exact Decidable.byContradiction fun hne => by simp [hne] at this
        rw [if_neg ha]
        refine iff_of_false (fun hup => hdown ?_) (Nat.not_lt_zero _)
        split at hup
        · exact List.mem_cons_of_mem a (hrest.countUps_pos_iff.mp
            (Nat.zero_lt_of_lt ((ih hrest m).mp hup)))
        · exact hup

/-! The way -/

/-- Going up once for each name undoes the names. -/
theorem foldl_push_ups {names : List String} (h : ".." ∉ names) (taken : List String) :
    (List.replicate names.length "..").foldl (push rooted) (names ++ taken) = taken := by
  induction names with
  | nil => rfl
  | cons last names ih =>
    obtain ⟨hlast, hnames⟩ := not_or.mp (List.mem_cons.not.mp h)
    rw [List.length_cons, List.replicate_succ, List.foldl_cons, List.cons_append, push_up_cons,
      if_neg (Ne.symm hlast), ih hnames]

/-- Going up out of what only the first path has and down along what only the second has leads from
the one to the other. -/
theorem foldl_push_way {source target : List String} (ht : IsClean rooted target)
    (h : ".." ∉ (dropCommon source target).1) :
    (List.replicate (dropCommon source target).1.length ".." ++
      (dropCommon source target).2).foldl (push rooted) source.reverse = target.reverse := by
  obtain ⟨common, hsource, htarget⟩ := exists_dropCommon source target
  have hcommon : IsClean rooted common :=
    ht.sublist (htarget ▸ List.sublist_append_left common _)
  have hup : (List.replicate (dropCommon source target).1.length "..").foldl (push rooted)
      source.reverse = common.reverse := by
    have hups := @foldl_push_ups rooted (dropCommon source target).1.reverse (by simpa using h)
      common.reverse
    rwa [List.length_reverse, ← List.reverse_append, ← hsource] at hups
  rw [List.foldl_append, hup, ← hcommon.foldl_push_eq, ← List.foldl_append, ← htarget,
    ht.foldl_push_eq]

theorem trail_clean (path : String) : trail (clean path) = route path := by
  have hkept : (route path).filter (!isIdle ·) = route path :=
    List.filter_eq_self.mpr fun s hs => by simpa using (isClean_route path).leads s hs
  have hslash : ∀ s ∈ route path, '/' ∉ s.toList := fun _ hs => slash_not_mem_of_mem_route hs
  rw [trail, clean_eq]
  cases hroute : route path with
  | nil => cases isRooted path <;> rfl
  | cons s l =>
    rw [hroute] at hkept hslash
    have hsegments := segments_intercalate (List.cons_ne_nil s l) hslash
    cases isRooted path with
    | true =>
      rw [ofSegments, if_pos rfl, segments_of_slash, hsegments,
        List.filter_cons_of_neg (by simp [isIdle]), hkept]
    | false => exact (congrArg _ hsegments).trans hkept

/-- How many steps a path goes up out of the place that it is meant from. -/
def climbs (path : String) : Nat := countUps (trail (clean path))

/-- From one place to another there is a way, and it leads there, unless only one of the two is meant
from the root or the first is further up than the second. -/
theorem relative?_clean {source : String} (h : source ≠ "") (target : String) :
    if isRooted source = isRooted target ∧ climbs source ≤ climbs target then
      ∃ way, relative? (clean source) (clean target) = some way ∧
        clean (source ++ "/" ++ way) = clean target
    else relative? (clean source) (clean target) = none := by
  have hs := isClean_route source
  have hiff := hs.mem_dropCommon_iff (route target)
  simp only [climbs, relative?, isRooted_clean, trail_clean]
  by_cases hrooted : isRooted source = isRooted target
  · have ht : IsClean (isRooted source) (route target) := hrooted ▸ isClean_route target
    by_cases hclimbs : countUps (route source) ≤ countUps (route target)
    · have hup : ".." ∉ (dropCommon (route source) (route target)).1 :=
        hiff.not.mpr (Nat.not_lt.mpr hclimbs)
      rw [if_pos ⟨hrooted, hclimbs⟩, if_neg (not_not.mpr hrooted), if_neg (by simpa using hup)]
      have hslash : ∀ s ∈ List.replicate (dropCommon (route source) (route target)).1.length ".." ++
          (dropCommon (route source) (route target)).2, '/' ∉ s.toList := by
        intro s hs
        rcases List.mem_append.mp hs with hs | hs
        · rw [List.eq_of_mem_replicate hs]
          decide
        · obtain ⟨common, -, htarget⟩ := exists_dropCommon (route source) (route target)
          have hs := List.mem_append_right common hs
          rw [← htarget] at hs
          exact slash_not_mem_of_mem_route hs
      refine ⟨_, rfl, ?_⟩
      rw [clean_eq (source ++ "/" ++ _), clean_eq target, isRooted_slash h, route_slash h,
        foldl_push_ofSegments hslash, foldl_push_way ht hup, List.reverse_reverse, hrooted]
    · rw [if_neg fun hboth => hclimbs hboth.2, if_neg (not_not.mpr hrooted), if_pos]
      simpa using hiff.mpr (Nat.not_le.mp hclimbs)
  · rw [if_neg fun hboth => hrooted hboth.1, if_pos hrooted]

/-- Nothing says how the place is called that a directory was left for by going up. -/
example : relative? "../site" "../a.png" = some "../a.png" ∧ relative? "../site" "a.png" = none := by
  decide

end MarkupGraft.Path

namespace MarkupGraft.Link

/-! Links -/

/-- A link is cut in front of its query or its fragment, whichever begins first. -/
theorem splitSuffix_append {path suffix : String} (hpath : ∀ c ∈ path.toList, c ≠ '?' ∧ c ≠ '#')
    (hsuffix : ∀ c ∈ suffix.toList.head?, c = '?' ∨ c = '#') :
    splitSuffix (path ++ suffix) = (path, suffix) := by
  have htake : (path ++ suffix).toList.takeWhile (fun c => c ≠ '?' && c ≠ '#') = path.toList := by
    rw [String.toList_append, List.takeWhile_append_of_pos fun c hc => by simpa using hpath c hc]
    cases hs : suffix.toList with
    | nil => simp
    | cons c rest =>
      have hc := hsuffix c (by rw [hs]; rfl)
      rw [List.takeWhile_cons_of_neg (by rcases hc with rfl | rfl <;> decide), List.append_nil]
  rw [splitSuffix, htake, String.toList_append, List.drop_left, String.ofList_toList,
    String.ofList_toList]

/-- The place that a link of a document in `sourceDir` leads to. -/
theorem target_eq {sourceDir cwd : String} (hcwd : cwd ≠ "") (path : String) :
    target sourceDir path cwd = Path.clean
      ((if Path.isRooted sourceDir then sourceDir else cwd ++ "/" ++ sourceDir) ++ "/" ++ path) := by
  rw [target]
  split
  · rename_i hrooted
    have hne : sourceDir ≠ "" := by
      rintro rfl
      cases hrooted
    rw [Path.join, if_neg (Path.clean_ne_empty _), Path.clean_clean_slash hne]
  · have hne : cwd ++ "/" ++ sourceDir ≠ "" := by simp [hcwd]
    rw [Path.join, Path.join, if_neg hcwd, if_neg (Path.clean_ne_empty _),
      Path.clean_clean_slash hne]

section
variable {sourceDir path suffix cwd : String}
  (hsource : Url.isAbsolute sourceDir = false) (hlink : Url.isAbsolute (path ++ suffix) = false)
  (hrooted : Path.isRooted (path ++ suffix) = false) (hpath : path ≠ "")
  (hplain : ∀ c ∈ path.toList, c ≠ '?' ∧ c ≠ '#')
  (hsuffix : ∀ c ∈ suffix.toList.head?, c = '?' ∨ c = '#') (hcwd : cwd ≠ "")
include hsource hlink hrooted hpath hplain hsuffix hcwd

/-- A link with a path becomes the way to its target, its query and its fragment kept. -/
private theorem relative_eq : relative sourceDir (path ++ suffix) cwd =
    match Path.relative? (Path.clean cwd) (target sourceDir path cwd) with
    | some way => .ok (way ++ suffix)
    | none => .error (.unreachable (target sourceDir path cwd) cwd) := by
  rw [relative, hlink, hrooted]
  cases hparsed : Url.parse sourceDir with
  | ok url => simp [Url.isAbsolute, hparsed, Except.isOk, Except.toBool] at hsource
  | error cause =>
    simp only [splitSuffix_append hplain hsuffix, if_neg hpath, if_neg hcwd]
    rfl

/-- A link with a path, in a document whose directory is no URL, leads from the directory of reference
where it led from its document, and keeps its query and its fragment. It is refused exactly when only
one of the directory of reference and the target is meant from the root, or the directory climbs
further than the target. -/
theorem relative_leads :
    let base := if Path.isRooted sourceDir then sourceDir else cwd ++ "/" ++ sourceDir
    let target := base ++ "/" ++ path
    if Path.isRooted cwd = Path.isRooted target ∧ Path.climbs cwd ≤ Path.climbs target then
      ∃ way, relative sourceDir (path ++ suffix) cwd = .ok (way ++ suffix) ∧
        Path.clean (cwd ++ "/" ++ way) = Path.clean target
    else relative sourceDir (path ++ suffix) cwd = .error (.unreachable (Path.clean target) cwd) := by
  have hrelative := relative_eq hsource hlink hrooted hpath hplain hsuffix hcwd
  rw [target_eq hcwd] at hrelative
  intro base target
  have hway := Path.relative?_clean hcwd target
  split at hway
  · rename_i hreachable
    obtain ⟨way, hway, hleads⟩ := hway
    rw [if_pos hreachable]
    exact ⟨way, by rw [hrelative, hway], hleads⟩
  · rename_i hreachable
    rw [if_neg hreachable, hrelative, hway]

end

/-- A link of a page below the directory of reference, which lies beside the place that paths are
meant from, to a picture outside it. -/
theorem relative_leads_outward : ∃ way,
    relative "posts" "../../img/a.png?v=1#top" "../site/x" = .ok (way ++ "?v=1#top") ∧
      Path.clean ("../site/x" ++ "/" ++ way) = "../site/img/a.png" := by
  have h := @relative_leads "posts" "../../img/a.png" "?v=1#top" "../site/x" (by decide) (by decide)
    (by decide) (by decide) (by simp) (by simp) (by decide)
  have hreachable : Path.isRooted "../site/x" =
        Path.isRooted ("../site/x" ++ "/" ++ "posts" ++ "/" ++ "../../img/a.png") ∧
      Path.climbs "../site/x" ≤
        Path.climbs ("../site/x" ++ "/" ++ "posts" ++ "/" ++ "../../img/a.png") := by decide
  have hrooted : ¬Path.isRooted "posts" := by decide
  dsimp only at h
  rw [if_neg hrooted, if_pos hreachable] at h
  obtain ⟨way, hway, hleads⟩ := h
  exact ⟨way, hway, hleads.trans (by decide)⟩

end MarkupGraft.Link
