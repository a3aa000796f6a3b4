import Mathlib.Data.List.DropRight
import MarkupGraft.Proofs.Link.Directory
import MarkupGraft.Proofs.Link.Relative
import MarkupGraft.Proofs.Query.Lexeme

/-!
Schemes. A text can be taken for an absolute URL only if it begins with a scheme and a colon. The colon
stands in front of every slash, so it is in the first segment of a path; and a link that is fitted to
another place begins with such a segment only where cleaning has brought one to the front.
-/

namespace MarkupGraft

theorem drop_length_takeWhile {α : Type} (p : α → Bool) (l : List α) :
    l.drop (l.takeWhile p).length = l.dropWhile p := by
  have hdivide := List.prefix_iff_eq_append.mp (List.takeWhile_prefix p (l := l))
  exact List.append_cancel_left (hdivide.trans List.takeWhile_append_dropWhile.symm)

namespace Url

/-- Whether a text begins with a scheme, behind controls and spaces. -/
def hasScheme (text : String) : Bool := (splitScheme? (trimmed text)).isSome

def isSchemeMark (c : Char) : Bool := c.isAlphanum || c = '+' || c = '-' || c = '.'

/-- Whether a character is passed over wherever it stands. -/
def isPassedOver (c : Char) : Bool := c = '\t' || c = '\n' || c = '\r'

private theorem isSchemeMark_eq :
    (fun c : Char => c.isAlphanum || c = '+' || c = '-' || c = '.') = isSchemeMark := rfl

theorem splitScheme?_eq {c : Char} {scheme : List Char} (hc : c.isAlpha)
    (h : ∀ d ∈ c :: scheme, isSchemeMark d) (rest : List Char) :
    splitScheme? (c :: scheme ++ ':' :: rest) =
      some (String.ofList ((c :: scheme).map Char.toLower), rest) := by
  have htake : (c :: scheme ++ ':' :: rest).takeWhile isSchemeMark = c :: scheme := by
    rw [List.takeWhile_append_of_pos h, List.takeWhile_cons_of_neg (by decide), List.append_nil]
  rw [splitScheme?, isSchemeMark_eq, htake, List.drop_left]
  exact if_pos hc

theorem exists_of_splitScheme? {text : List Char} (h : (splitScheme? text).isSome) :
    ∃ c scheme rest, text = c :: scheme ++ ':' :: rest ∧ c.isAlpha ∧
      ∀ d ∈ c :: scheme, isSchemeMark d := by
  have hdivide := List.takeWhile_append_dropWhile (p := isSchemeMark) (l := text)
  have hmarks : ∀ d ∈ text.takeWhile isSchemeMark, isSchemeMark d := fun _ =>
    List.mem_takeWhile_imp
  rw [splitScheme?, isSchemeMark_eq, drop_length_takeWhile] at h
  generalize text.takeWhile isSchemeMark = marks at h hdivide hmarks
  split at h
  · rename_i c scheme rest hrest
    rw [hrest] at hdivide
    split at h
    · exact ⟨c, scheme, rest, hdivide.symm, ‹_›, hmarks⟩
    · cases h
  · cases h

/-- Nothing that stands in front of a mark is lost at the end. -/
private theorem exists_rdropWhile_eq {p : Char → Bool} {c : Char} (hc : ¬p c) (text rest : List Char) :
    ∃ kept, (text ++ c :: rest).rdropWhile p = text ++ c :: kept := by
  refine ⟨rest.rdropWhile p, ?_⟩
  rw [List.rdropWhile, List.reverse_append, List.reverse_cons, List.append_assoc,
    List.dropWhile_append]
  split
  · rename_i hempty
    have hkept : rest.rdropWhile p = [] := by
      rw [List.rdropWhile, List.isEmpty_iff.mp hempty, List.reverse_nil]
    simp [List.dropWhile_cons_of_neg hc, hkept]
  · simp [List.rdropWhile]

theorem trimmed_eq (text : String) : trimmed text =
    ((text.toList.dropWhile isControlOrSpace).rdropWhile isControlOrSpace).filter
      (!isPassedOver ·) := by
  refine List.filter_congr fun c _ => ?_
  simp [isPassedOver, Bool.and_assoc]

theorem isControlOrSpace_of_isPassedOver {c : Char} (h : isPassedOver c) : isControlOrSpace c := by
  simp only [isPassedOver, Bool.or_eq_true, decide_eq_true_eq] at h
  rcases h with (rfl | rfl) | rfl <;> decide

/-- A text has a scheme if, behind controls and spaces, a letter comes first, and then only what may stand
in a scheme up to a colon. -/
theorem hasScheme_iff {text : String} : hasScheme text ↔
    ∃ idle c scheme rest, text.toList = idle ++ (c :: scheme ++ ':' :: rest) ∧
      (∀ d ∈ idle, isControlOrSpace d) ∧ c.isAlpha ∧
      ∀ d ∈ c :: scheme, isSchemeMark d ∨ isPassedOver d := by
  rw [hasScheme, trimmed_eq]
  constructor
  · intro h
    obtain ⟨c, scheme, rest, hsplit, hc, hmarks⟩ := exists_of_splitScheme? h
    have hlead := List.takeWhile_append_dropWhile (p := isControlOrSpace) (l := text.toList)
    have hhead := List.head?_dropWhile_not isControlOrSpace text.toList
    have hidle : ∀ d ∈ text.toList.takeWhile isControlOrSpace, isControlOrSpace d := fun _ =>
      List.mem_takeWhile_imp
    generalize text.toList.takeWhile isControlOrSpace = idle at hlead hidle
    generalize text.toList.dropWhile isControlOrSpace = inner at hsplit hlead hhead
    obtain ⟨behind, hbehind⟩ := List.rdropWhile_prefix isControlOrSpace (l := inner)
    generalize inner.rdropWhile isControlOrSpace = kept at hsplit hbehind
    obtain ⟨front, colon, rfl, hfront, hcolon⟩ := List.filter_eq_append_iff.mp hsplit
    obtain ⟨passed, tail, rfl, hpassed, -, -⟩ := List.filter_eq_cons_iff.mp hcolon
    have hof {d : Char} (hd : d ∈ front) : d ∈ c :: scheme ∨ isPassedOver d := by
      cases hover : isPassedOver d with
      | true => exact .inr rfl
      | false => exact .inl (hfront ▸ List.mem_filter.mpr ⟨hd, by simpa using hover⟩)
    -- The letter comes first, for what comes first is not passed over.
    obtain ⟨front, rfl⟩ : ∃ rest, front = c :: rest := by
      cases front with
      | nil => cases hfront
      | cons d front =>
        have hd : ¬isPassedOver d := fun hover => by
          rw [← hbehind] at hhead
          simp [isControlOrSpace_of_isPassedOver hover] at hhead
        rw [List.filter_cons_of_pos (by simpa using hd)] at hfront
        exact ⟨front, by rw [(List.cons.inj hfront).1]⟩
    refine ⟨idle, c, front ++ passed, tail ++ behind, ?_, hidle, hc, fun d hd => ?_⟩
    · rw [← hlead, ← hbehind]
      simp
    · rw [← List.cons_append] at hd
      rcases List.mem_append.mp hd with hd | hd
      · exact (hof hd).imp_left (hmarks d)
      · exact .inr (by simpa using hpassed d hd)
  · rintro ⟨idle, c, scheme, rest, htext, hidle, hc, hmarks⟩
    have hstart : ¬isControlOrSpace c := by
      have := Query.isAlpha_iff.mp hc
      simp only [isControlOrSpace, decide_eq_true_eq]
      omega
    have hover : ¬isPassedOver c := fun h => hstart (isControlOrSpace_of_isPassedOver h)
    obtain ⟨kept, hkept⟩ := exists_rdropWhile_eq (p := isControlOrSpace) (c := ':') (by decide)
      (c :: scheme) rest
    have hdrop : text.toList.dropWhile isControlOrSpace = c :: scheme ++ ':' :: rest := by
      rw [htext, List.dropWhile_append_of_pos hidle, List.cons_append,
        List.dropWhile_cons_of_neg hstart]
    have hscheme : (c :: scheme).filter (!isPassedOver ·) =
        c :: scheme.filter (!isPassedOver ·) := List.filter_cons_of_pos (by simpa using hover)
    rw [hdrop, hkept, List.filter_append, hscheme, List.filter_cons_of_pos (by decide),
      splitScheme?_eq hc]
    · rfl
    · intro d hd
      rw [← hscheme] at hd
      obtain ⟨hd, hnot⟩ := List.mem_filter.mp hd
      exact (hmarks d hd).resolve_right (by simpa using hnot)

theorem hasScheme_of_isAbsolute {text : String} (h : isAbsolute text) : hasScheme text := by
  rw [isAbsolute, parse] at h
  rw [hasScheme]
  cases hsplit : splitScheme? (trimmed text) with
  | none => simp [hsplit, Except.isOk, Except.toBool] at h
  | some _ => rfl

theorem hasScheme_append {text : String} (h : hasScheme text) (more : String) :
    hasScheme (text ++ more) := by
  obtain ⟨idle, c, scheme, rest, htext, hidle, hc, hmarks⟩ := hasScheme_iff.mp h
  refine hasScheme_iff.mpr ⟨idle, c, scheme, rest ++ more.toList, ?_, hidle, hc, hmarks⟩
  simp [htext]

/-- The scheme of a text ends in front of the first slash, and of the query and the fragment. -/
theorem hasScheme_of_append {text more : String} (h : hasScheme (text ++ more))
    (hmore : ∀ c ∈ more.toList.head?, c = '/' ∨ c = '?' ∨ c = '#') : hasScheme text := by
  obtain ⟨idle, c, scheme, rest, htext, hidle, hc, hmarks⟩ := hasScheme_iff.mp h
  have hends {d : Char} (hd : d = '/' ∨ d = '?' ∨ d = '#') : d ∉ idle ++ (c :: scheme ++ [':']) := by
    have hstop : ¬isControlOrSpace d ∧ ¬isSchemeMark d ∧ ¬isPassedOver d ∧ d ≠ ':' := by
      rcases hd with rfl | rfl | rfl <;> decide
    simp only [List.mem_append, List.mem_singleton, not_or]
    exact ⟨fun hmem => hstop.1 (hidle d hmem),
      fun hmem => (hmarks d hmem).elim hstop.2.1 hstop.2.2.1, hstop.2.2.2⟩
  have hwhole : text.toList ++ more.toList = (idle ++ (c :: scheme ++ [':'])) ++ rest := by
    rw [← String.toList_append, htext]
    simp
  obtain ⟨behind, hbehind⟩ : idle ++ (c :: scheme ++ [':']) <+: text.toList := by
    rcases List.append_eq_append_iff.mp hwhole with ⟨cut, hcut, hcuts⟩ | ⟨behind, hbehind, -⟩
    · cases hempty : cut with
      | nil => exact ⟨[], by rw [hcut, hempty]; simp⟩
      | cons d cut =>
        rw [hempty] at hcut hcuts
        exact absurd (by rw [hcut]; simp) (hends (hmore d (by rw [hcuts]; rfl)))
    · exact ⟨behind, hbehind.symm⟩
  exact hasScheme_iff.mpr ⟨idle, c, scheme, behind, by rw [← hbehind]; simp, hidle, hc, hmarks⟩

end Url

namespace Path

/-! What stands in front -/

variable {rooted : Bool}

/-- What a path leads through is what is left of the place that it is taken from, and what is new. -/
theorem exists_foldl_push (taken l : List String) :
    ∃ own k, l.foldl (push rooted) taken = own ++ taken.drop k ∧ own ⊆ l := by
  induction l generalizing taken with
  | nil => exact ⟨[], 0, rfl, List.nil_subset _⟩
  | cons segment l ih =>
    obtain ⟨first, j, hpush, hfirst⟩ : ∃ first j,
        push rooted taken segment = first ++ taken.drop j ∧ first ⊆ [segment] := by
      by_cases hidle : isIdle segment
      · exact ⟨[], 0, push_of_isIdle hidle, List.nil_subset _⟩
      · by_cases hup : segment = ".."
        · subst hup
          cases taken with
          | nil => cases rooted with
            | true => exact ⟨[], 0, rfl, List.nil_subset _⟩
            | false => exact ⟨[".."], 0, rfl, List.Subset.refl _⟩
          | cons last rest =>
            rw [push_up_cons]
            split
            · exact ⟨[".."], 0, rfl, List.Subset.refl _⟩
            · exact ⟨[], 1, rfl, List.nil_subset _⟩
        · exact ⟨[segment], 0, push_of_not_isIdle hidle hup, List.Subset.refl _⟩
    obtain ⟨own, k, hown, hsubset⟩ := ih (first ++ taken.drop j)
    refine ⟨own ++ first.drop k, j + (k - first.length), ?_, ?_⟩
    · rw [List.foldl_cons, hpush, hown, List.drop_append, List.drop_drop, List.append_assoc]
    · refine List.append_subset.mpr ⟨fun s hs => List.mem_cons_of_mem segment (hsubset hs), ?_⟩
      intro s hs
      rw [List.mem_singleton.mp (hfirst ((List.drop_sublist k first).subset hs))]
      exact List.mem_cons_self

theorem mem_segments_of_mem_route {path s : String} (h : s ∈ route path) : s ∈ segments path :=
  (mem_foldl_push (List.mem_reverse.mp h)).resolve_left List.not_mem_nil

theorem dropCommon_append (common l m : List String) :
    dropCommon (common ++ l) (common ++ m) = dropCommon l m := by
  induction common with
  | nil => rfl
  | cons s common ih => rw [List.cons_append, List.cons_append, dropCommon, if_pos rfl, ih]

theorem dropCommon_route_subset {source : String} (h : source ≠ "") (path : String) :
    (dropCommon (route source) (route (source ++ "/" ++ path))).2 ⊆ segments path := by
  obtain ⟨own, k, hown, hsubset⟩ :=
    @exists_foldl_push (isRooted source) (route source).reverse (segments path)
  have htarget : route (source ++ "/" ++ path) =
      (route source).take ((route source).length - k) ++ own.reverse := by
    rw [route_slash h, hown, List.reverse_append, List.reverse_drop, List.reverse_reverse,
      List.length_reverse]
  generalize (route source).length - k = left at htarget
  have hcommon : dropCommon (route source) (route (source ++ "/" ++ path)) =
      dropCommon ((route source).drop left) own.reverse :=
    calc dropCommon (route source) (route (source ++ "/" ++ path))
        = dropCommon ((route source).take left ++ (route source).drop left)
            ((route source).take left ++ own.reverse) := by rw [htarget, List.take_append_drop]
      _ = dropCommon ((route source).drop left) own.reverse := dropCommon_append _ _ _
  rw [hcommon]
  obtain ⟨common, -, hdown⟩ := exists_dropCommon ((route source).drop left) own.reverse
  intro s hs
  have hs := List.mem_append_right common hs
  rw [← hdown] at hs
  exact hsubset (List.mem_reverse.mp hs)

/-- The way from a directory to a path that is meant from there goes up, and down along segments of
the path. -/
theorem exists_way_eq {source way : String} (h : source ≠ "") (path : String)
    (hway : relative? (clean source) (clean (source ++ "/" ++ path)) = some way) :
    ∃ l, way = ofSegments false l ∧
      ∀ s ∈ l, s ≠ "" ∧ '/' ∉ s.toList ∧ (s = ".." ∨ s ∈ segments path) := by
  simp only [relative?, isRooted_clean, trail_clean, isRooted_slash h, ne_eq, not_true_eq_false,
    if_false] at hway
  split at hway
  · cases hway
  · refine ⟨_, (Option.some.inj hway).symm, fun s hs => ?_⟩
    rcases List.mem_append.mp hs with hs | hs
    · rw [List.eq_of_mem_replicate hs]
      exact ⟨by decide, by decide, .inl rfl⟩
    · have hsegment := dropCommon_route_subset h path hs
      obtain ⟨common, -, hdown⟩ :=
        exists_dropCommon (route source) (route (source ++ "/" ++ path))
      have hroute := List.mem_append_right common hs
      rw [← hdown] at hroute
      exact ⟨(isClean_route _).ne_empty hroute, slash_not_mem_of_mem_segments hsegment,
        .inr hsegment⟩

/-- A path whose segments are no empty ones begins with the first of them. -/
theorem exists_ofSegments_append {l : List String} (h : ∀ s ∈ l, s ≠ "" ∧ '/' ∉ s.toList)
    {suffix : String} (hsuffix : ∀ c ∈ suffix.toList.head?, c = '?' ∨ c = '#') :
    ∃ s more, ofSegments false l ++ suffix = s ++ more ∧ (s ∈ l ∨ s = ".") ∧ s ≠ "" ∧
      '/' ∉ s.toList ∧ ∀ c ∈ more.toList.head?, c = '/' ∨ c = '?' ∨ c = '#' := by
  cases l with
  | nil => exact ⟨".", suffix, rfl, .inr rfl, by decide, by decide, fun c hc => .inr (hsuffix c hc)⟩
  | cons s l =>
    have hs := h s List.mem_cons_self
    cases l with
    | nil =>
      refine ⟨s, suffix, ?_, .inl List.mem_cons_self, hs.1, hs.2, fun c hc => .inr (hsuffix c hc)⟩
      have hof : ofSegments false [s] = "/".intercalate [s] := rfl
      rw [hof, String.intercalate_singleton]
    | cons t l =>
      refine ⟨s, "/" ++ "/".intercalate (t :: l) ++ suffix, ?_, .inl List.mem_cons_self, hs.1, hs.2,
        fun c hc => .inl ?_⟩
      · have hof : ofSegments false (s :: t :: l) = "/".intercalate (s :: t :: l) := rfl
        rw [hof, String.intercalate_cons_cons]
        simp only [String.append_assoc]
      · simpa using hc.symm

end Path

namespace Link

/-- A link is its path and what begins with a mark of a query or a fragment. -/
theorem splitSuffix_eq {link path suffix : String} (h : splitSuffix link = (path, suffix)) :
    link = path ++ suffix ∧ ∀ c ∈ suffix.toList.head?, c = '?' ∨ c = '#' := by
  obtain ⟨rfl, rfl⟩ := Prod.mk.inj h
  have hhead := List.head?_dropWhile_not (fun c => c ≠ '?' && c ≠ '#') link.toList
  rw [drop_length_takeWhile]
  refine ⟨String.toList_inj.mp (by simp), fun c hc => ?_⟩
  rw [String.toList_ofList] at hc
  rw [hc] at hhead
  have hstop : (decide (c ≠ '?') && decide (c ≠ '#')) = false := hhead
  rw [Bool.and_eq_false_iff] at hstop
  simpa using hstop

/-- Whether a text begins with a segment that has a scheme. -/
def IsFronted (segments : List String) (text : String) : Prop :=
  ∃ s ∈ segments, Url.hasScheme s ∧ s.toList <+: text.toList

section
variable {sourceDir link cwd result path suffix : String} (hsource : Url.isAbsolute sourceDir = false)
  (hunrooted : Path.isRooted sourceDir = false) (hlink : Url.isAbsolute link = false)
  (hrooted : Path.isRooted link = false) (hresult : relative sourceDir link cwd = .ok result)
  (hsplit : splitSuffix link = (path, suffix))
include hsource hunrooted hlink hrooted hresult hsplit

/-- What becomes of a link: nothing if it has no path, and else a path through segments of the link and
of the directory it is meant from. -/
private theorem exists_result_eq : path = "" ∧ result = link ∨
    ∃ l, result = Path.ofSegments false l ++ suffix ∧ ∀ s ∈ l, s ≠ "" ∧ '/' ∉ s.toList ∧
      (s = ".." ∨ s ∈ Path.segments sourceDir ++ Path.segments path) := by
  have hunrootedPath : Path.isRooted path = false := by
    by_cases hpath : path = ""
    · rw [hpath]
      rfl
    · rwa [(splitSuffix_eq hsplit).1, Path.isRooted_append hpath] at hrooted
  rw [relative, hlink, hrooted] at hresult
  cases hparsed : Url.parse sourceDir with
  | ok url => simp [Url.isAbsolute, hparsed, Except.isOk, Except.toBool] at hsource
  | error cause =>
    simp only [hparsed, hsplit, Bool.or_false, Bool.false_eq_true, if_false] at hresult
    split at hresult
    · exact .inl ⟨‹_›, (Except.ok.inj hresult).symm⟩
    · rename_i hpath
      right
      split at hresult
      · -- Nothing but the directory and the path is joined.
        obtain ⟨joined, hjoined, hjoinedRooted, hsegments⟩ : ∃ joined,
            Path.join sourceDir path = Path.clean joined ∧ Path.isRooted joined = false ∧
            Path.segments joined ⊆ Path.segments sourceDir ++ Path.segments path := by
          by_cases hdir : sourceDir = ""
          · exact ⟨path, if_pos hdir, hunrootedPath, List.subset_append_right _ _⟩
          · refine ⟨sourceDir ++ "/" ++ path, if_neg hdir, ?_, ?_⟩
            · rw [Path.isRooted_slash hdir, hunrooted]
            · rw [Path.segments_slash]
              exact List.Subset.refl _
        refine ⟨Path.route joined, ?_, fun s hs => ⟨(Path.isClean_route joined).ne_empty hs,
          Path.slash_not_mem_of_mem_route hs, .inr (hsegments (Path.mem_segments_of_mem_route hs))⟩⟩
        rw [← Except.ok.inj hresult, hjoined, Path.clean_eq, hjoinedRooted]
      · rename_i hcwd
        have hassoc : cwd ++ "/" ++ sourceDir ++ "/" ++ path =
            cwd ++ "/" ++ (sourceDir ++ "/" ++ path) := by simp only [String.append_assoc]
        rw [target_eq hcwd, hunrooted, if_neg Bool.false_ne_true, hassoc] at hresult
        split at hresult
        · rename_i way hway
          obtain ⟨l, hl, hall⟩ := Path.exists_way_eq hcwd _ hway
          refine ⟨l, ?_, fun s hs => ⟨(hall s hs).1, (hall s hs).2.1, ?_⟩⟩
          · rw [← hl, ← Except.ok.inj hresult]
          · rw [← Path.segments_slash]
            exact (hall s hs).2.2
        · cases hresult

/-- A link that is relative, in a document whose directory is neither a URL nor rooted, never becomes
rooted. It can be taken for an absolute URL only if it begins with a segment of the link or of the
directory that has a scheme, and where such a segment has come to the front it does have a scheme. -/
theorem relative_stays : Path.isRooted result = false ∧
    (¬IsFronted (Path.segments sourceDir ++ Path.segments path) result →
      Url.isAbsolute result = false) ∧
    (IsFronted (Path.segments sourceDir ++ Path.segments path) result → Url.hasScheme result) := by
  obtain ⟨hparts, hsuffix⟩ := splitSuffix_eq hsplit
  obtain ⟨hresultRooted, hfronted⟩ : Path.isRooted result = false ∧ (Url.hasScheme result →
      IsFronted (Path.segments sourceDir ++ Path.segments path) result) := by
    rcases exists_result_eq hsource hunrooted hlink hrooted hresult hsplit with
      ⟨rfl, rfl⟩ | ⟨l, hl, hall⟩
    · refine ⟨hrooted, fun hscheme => ?_⟩
      rw [hparts] at hscheme
      exact absurd (Url.hasScheme_of_append hscheme fun c hc => .inr (hsuffix c hc)) (by decide)
    · obtain ⟨s, more, hbegins, hs, hne, hslash, hmore⟩ :=
        Path.exists_ofSegments_append (fun s hs => ⟨(hall s hs).1, (hall s hs).2.1⟩) hsuffix
      rw [hbegins] at hl
      rw [hl]
      refine ⟨?_, fun hscheme => ?_⟩
      · rw [Path.isRooted_append hne, Path.isRooted_of_not_mem hslash]
      · have hscheme := Url.hasScheme_of_append hscheme hmore
        refine ⟨s, ?_, hscheme, by simp⟩
        rcases hs with hs | rfl
        · refine (hall s hs).2.2.resolve_left ?_
          rintro rfl
          exact absurd hscheme (by decide)
        · exact absurd hscheme (by decide)
  refine ⟨hresultRooted, fun hnot => ?_, ?_⟩
  · by_contra habsolute
    exact hnot (hfronted (Url.hasScheme_of_isAbsolute (by simpa using habsolute)))
  · rintro ⟨s, -, hscheme, more, hmore⟩
    have hresult : result = s ++ String.ofList more := String.toList_inj.mp (by simp [hmore])
    rw [hresult]
    exact Url.hasScheme_append hscheme _

end

/-- A picture with a colon in its name, in a directory beside that of the page. -/
theorem relative_stays_picture :
    relative "posts" "../img/./a:b.png?v=1:2" "/site/x" = .ok "img/a:b.png?v=1:2" ∧
      Path.isRooted "img/a:b.png?v=1:2" = false ∧ Url.isAbsolute "img/a:b.png?v=1:2" = false := by
  have hresult : relative "posts" "../img/./a:b.png?v=1:2" "/site/x" = .ok "img/a:b.png?v=1:2" := by
    decide
  have h := @relative_stays "posts" "../img/./a:b.png?v=1:2" "/site/x" "img/a:b.png?v=1:2"
    "../img/./a:b.png" "?v=1:2" (by decide) (by decide) (by decide) (by decide) hresult (by decide)
  have hsegments : Path.segments "posts" ++ Path.segments "../img/./a:b.png" =
      ["posts", "..", "img", ".", "a:b.png"] := by decide
  refine ⟨hresult, h.1, h.2.1 ?_⟩
  rintro ⟨s, hs, hscheme, hfront⟩
  rw [hsegments] at hs
  simp only [List.mem_cons, List.not_mem_nil, or_false] at hs
  rcases hs with rfl | rfl | rfl | rfl | rfl
  · exact absurd hscheme (by decide)
  · exact absurd hscheme (by decide)
  · exact absurd hscheme (by decide)
  · exact absurd hscheme (by decide)
  · exact absurd hfront (by decide)

/-- A dot that keeps a name with a colon from being a scheme is cleaned away. -/
example : relative "." "./a:b" "" = .ok "a:b" ∧ Url.isAbsolute "./a:b" = false ∧
    Url.isAbsolute "a:b" = true := by decide

end Link
end MarkupGraft
