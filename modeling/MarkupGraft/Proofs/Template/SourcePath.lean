import MarkupGraft.Proofs.Link.Directory
import MarkupGraft.Template.Run

/-!
Paths of sources. A link in a document is meant from the directory of that document, and documents may
be reached through a chain of links. A page is given the directory of its source to put in front of
links of its own.
-/

namespace MarkupGraft

namespace Path

/-- The path of the document that a link in the document at `path` leads to. -/
def follow (path link : String) : String :=
  if isRooted link then clean link else join (dir path) link

theorem endsInName_clean {path : String} (h : endsInName path) : endsInName (clean path) := by
  rwa [endsInName, (dir_fileName_clean h).2]

theorem endsInName_slash {base path : String} (h : endsInName path) :
    endsInName (base ++ "/" ++ path) := by
  rwa [endsInName, fileName_slash_path]

theorem endsInName_follow {link : String} (path : String) (h : endsInName link) :
    endsInName (follow path link) := by
  rw [follow]
  split
  · exact endsInName_clean h
  · rw [join_eq (dir_ne_empty path)]
    exact endsInName_clean (endsInName_slash h)

/-- The document that a link leads to lies in the directory that the directory of the link leads to. -/
theorem dir_follow {path link : String} (h : endsInName link) (hlink : isRooted link = false) :
    dir (follow path link) = join (dir path) (dir link) := by
  rw [follow, hlink, if_neg Bool.false_ne_true, join_eq (dir_ne_empty path),
    (dir_fileName_clean (endsInName_slash h)).1, dir_slash_path (dir_ne_empty path) hlink]

/-- A link in a linked document may be fitted to the first document before it is followed. -/
theorem follow_follow {link : String} (h : endsInName link) (path next : String) :
    follow (follow path link) next = follow path (follow link next) := by
  cases hnext : isRooted next with
  | true =>
    have hclean (other : String) : follow other next = clean next := by rw [follow, if_pos hnext]
    rw [hclean, hclean, follow, isRooted_clean, if_pos hnext, clean_clean]
  | false =>
    have hjoin (other : String) : follow other next = join (dir other) next := by
      rw [follow, hnext, if_neg Bool.false_ne_true]
    have hrooted : isRooted (join (dir link) next) = isRooted link := by
      rw [join_eq (dir_ne_empty link), isRooted_clean, isRooted_slash (dir_ne_empty link),
        isRooted_dir]
    rw [hjoin, hjoin]
    cases hlink : isRooted link with
    | true =>
      have hcleaned : clean (join (dir link) next) = join (dir link) next := by
        rw [join_eq (dir_ne_empty link), clean_clean]
      rw [follow.eq_1 path link, if_pos hlink, (dir_fileName_clean h).1, follow, hrooted, if_pos hlink,
        hcleaned]
    | false =>
      rw [dir_follow h hlink, follow, hrooted, hlink, if_neg Bool.false_ne_true]
      exact join_join (dir_ne_empty path) (dir_ne_empty link) ((isRooted_dir link).trans hlink) next

/-- A path and the links that are followed from it one after the other, grouped in some way: each link
may be followed from where the ones before it lead, or be fitted to another link first. -/
inductive Chain where
  | single (path : String)
  | follow (first second : Chain)

namespace Chain

def paths : Chain → List String
  | single path => [path]
  | follow first second => first.paths ++ second.paths

/-- Where the chain leads. -/
def leadsTo : Chain → String
  | single path => path
  | follow first second => Path.follow first.leadsTo second.leadsTo

end Chain

/-- What is followed from a place one link after the other may be followed from there as one link. -/
private theorem follow_foldl {links : List String} {link : String}
    (h : ∀ l ∈ (link :: links).dropLast, endsInName l) (path : String) :
    follow path (links.foldl follow link) = links.foldl follow (follow path link) := by
  induction links generalizing link with
  | nil => rfl
  | cons next links ih =>
    have hlink : endsInName link := h link List.mem_cons_self
    have hnext : ∀ l ∈ (next :: links).dropLast, endsInName l := fun l hl =>
      h l (List.mem_cons_of_mem link hl)
    have hfollowed : ∀ l ∈ (follow link next :: links).dropLast, endsInName l := by
      cases links with
      | nil => simp
      | cons last links =>
        intro l hl
        rcases List.mem_cons.mp hl with rfl | hl
        · exact endsInName_follow link (hnext next List.mem_cons_self)
        · exact hnext l (List.mem_cons_of_mem next hl)
    rw [List.foldl_cons, List.foldl_cons, ih hfollowed, follow_follow hlink]

namespace Chain

theorem exists_paths (chain : Chain) : ∃ path links, chain.paths = path :: links := by
  induction chain with
  | single path => exact ⟨path, [], rfl⟩
  | follow first second ihFirst _ =>
    obtain ⟨path, links, h⟩ := ihFirst
    exact ⟨path, links ++ second.paths, by rw [paths, h, List.cons_append]⟩

/-- However it is grouped, a chain leads where its links lead one after the other. -/
theorem leadsTo_eq {chain : Chain} {path : String} {links : List String}
    (hchain : chain.paths = path :: links) (h : ∀ l ∈ links.dropLast, endsInName l) :
    chain.leadsTo = links.foldl Path.follow path := by
  induction chain generalizing path links with
  | single only =>
    obtain ⟨rfl, rfl⟩ := List.cons.inj hchain
    rfl
  | follow first second ihFirst ihSecond =>
    obtain ⟨start, before, hfirst⟩ := first.exists_paths
    obtain ⟨link, behind, hsecond⟩ := second.exists_paths
    rw [paths, hfirst, hsecond, List.cons_append] at hchain
    obtain ⟨rfl, rfl⟩ := List.cons.inj hchain
    rw [List.dropLast_append_of_ne_nil (List.cons_ne_nil link behind)] at h
    have hbefore : ∀ l ∈ before.dropLast, endsInName l := fun l hl =>
      h l (List.mem_append_left _ ((List.dropLast_sublist before).subset hl))
    have hbehind : ∀ l ∈ (link :: behind).dropLast, endsInName l := fun l hl =>
      h l (List.mem_append_right _ hl)
    have hinner : ∀ l ∈ behind.dropLast, endsInName l := by
      cases behind with
      | nil => simp
      | cons next behind => exact fun l hl => hbehind l (List.mem_cons_of_mem link hl)
    rw [leadsTo, ihFirst hfirst hbefore, ihSecond hsecond hinner, follow_foldl hbehind,
      List.foldl_append, List.foldl_cons]

end Chain
end Path

/-- Paths are joined associatively, and a path is its name joined to its directory. So the document that
a chain of links leads to does not depend on how the links are grouped, where all but the last of them
name a document. -/
theorem Path.joins_compose :
    (∀ a b c : String, a ≠ "" → b ≠ "" → isRooted b = false →
      join (join a b) c = join a (join b c)) ∧
    (∀ path : String, join (dir path) (fileName path) = clean path) ∧
    ∀ (f : Frame) (links : List String) (chain : Chain), chain.paths = f.path :: links →
      (∀ l ∈ links.dropLast, endsInName l) →
      chain.leadsTo = links.foldl (fun path link => { f with path }.linkedPath link) f.path :=
  ⟨fun _ _ c ha hb hrooted => join_join ha hb hrooted c, join_dir_fileName,
    fun _ _ _ hchain h => Chain.leadsTo_eq hchain h⟩

/-- From a page to a picture of the chapter beside it, either step by step or along the one link that
the three of them make up. -/
theorem Path.joins_compose_chapters :
    join (join "/book" "../site//one") "../two/." = join "/book" (join "../site//one" "../two/.") ∧
    join (dir "../a//b/..") (fileName "../a//b/..") = clean "../a//b/.." ∧
    (Chain.follow (.single "book/index.html") (.follow (.single "one/./page.html")
      (.follow (.single "../two/page.html") (.single "../img/a.png")))).leadsTo =
        "book/img/a.png" := by
  refine ⟨joins_compose.1 "/book" "../site//one" "../two/." (by decide) (by decide) (by decide),
    joins_compose.2.1 "../a//b/..", ?_⟩
  have h := joins_compose.2.2 ⟨Document.ofText 0 "", 0, "book/index.html"⟩
    ["one/./page.html", "../two/page.html", "../img/a.png"]
    (.follow (.single "book/index.html") (.follow (.single "one/./page.html")
      (.follow (.single "../two/page.html") (.single "../img/a.png")))) rfl (by decide)
  exact h.trans (by decide)

/-! The directory of a source -/

namespace Path

theorem exists_dir_eq_clean (path : String) : ∃ cleaned, dir path = clean cleaned := by
  rcases split_cases path with h | ⟨before, name, rfl, h⟩
  · exact ⟨"", dir_of_not_mem h⟩
  · exact ⟨before ++ "/", dir_slash h before⟩

/-- Only the root ends in a slash. -/
theorem getLast?_clean {path : String} (h : clean path ≠ "/") :
    (clean path).toList.getLast? ≠ some '/' := by
  have hclean := isClean_route path
  have hslash : ∀ s ∈ route path, '/' ∉ s.toList := fun _ hs => slash_not_mem_of_mem_route hs
  rw [clean_eq] at h ⊢
  rcases List.eq_nil_or_concat (route path) with hroute | ⟨outer, name, hroute⟩
  · rw [hroute] at h ⊢
    cases hrooted : isRooted path with
    | true => exact absurd (by rw [hrooted]; rfl) h
    | false => decide
  · intro hlast
    rw [List.concat_eq_append] at hroute
    rw [hroute] at hclean hslash hlast
    obtain ⟨stem, hstem⟩ := List.getLast?_eq_some_iff.mp hlast
    have happend : ofSegments (isRooted path) (outer ++ [name]) = String.ofList stem ++ "/" ++ "" :=
      String.toList_inj.mp (by simp [hstem])
    have hname := ((hclean.sublist (List.sublist_append_left outer _)).dir_fileName_ofSegments
      (fun s hs => hslash s (List.mem_append_left _ hs)) (hslash name (by simp))).2
    rw [happend, fileName_slash (by simp)] at hname
    exact hclean.ne_empty (by simp) hname.symm

/-- Only the root, and what is put behind it with another slash, begins with two slashes. -/
theorem not_slashes_clean {path : String} (h : clean path ≠ "/") (more : String) :
    ¬['/', '/'] <+: (clean path ++ "/" ++ more).toList := by
  rintro ⟨rest, hrest⟩
  have hrooted : isRooted (clean path ++ "/" ++ more) = true := by
    rw [isRooted, ← hrest]
    rfl
  rw [isRooted_slash (clean_ne_empty path), isRooted_clean] at hrooted
  rw [clean_eq, hrooted] at h hrest
  cases hroute : route path with
  | nil => exact h (by rw [hroute]; rfl)
  | cons s l =>
    have hs : s ∈ route path := by simp [hroute]
    obtain ⟨c, letters, hc⟩ : ∃ c letters, s.toList = c :: letters :=
      List.exists_cons_of_ne_nil (by simpa using (isClean_route path).ne_empty hs)
    obtain ⟨behind, hbehind⟩ : ∃ behind, "/".intercalate (s :: l) = s ++ behind := by
      cases l with
      | nil => exact ⟨"", by rw [String.intercalate_singleton, String.append_empty]⟩
      | cons t l => exact ⟨_, by rw [String.intercalate_cons_cons, String.append_assoc]⟩
    rw [hroute, ofSegments, if_pos rfl, hbehind] at hrest
    have hslash : c = '/' := by
      simp [hc] at hrest
      exact hrest.1.symm
    exact slash_not_mem_of_mem_route hs (by rw [hc, hslash]; exact List.mem_cons_self)

end Path

/-- What is selected as the directory of a source, with the name of the source behind it, leads to the
source. It ends in one slash and does not begin with two, unless the source lies in the root. -/
theorem Frame.relativeDir_usable {m : Mapping} (hsource : m.source? = none)
    (hdata : m.data? = some .relativeDir) (hformat : m.format? = none) (f : Frame)
    (env : Environment) :
    ∃ text, f.selection? env m = .ok (some [.text text]) ∧
      Path.clean (text ++ Path.fileName f.path) = Path.clean f.path ∧
      ((∃ stem, text = stem ++ "/" ∧ stem.toList.getLast? ≠ some '/') ↔ Path.dir f.path ≠ "/") ∧
      (¬['/', '/'] <+: (text ++ Path.fileName f.path).toList ↔ Path.dir f.path ≠ "/") := by
  obtain ⟨cleaned, hcleaned⟩ := Path.exists_dir_eq_clean f.path
  refine ⟨Path.dir f.path ++ "/", ?_, ?_, ⟨?_, fun hroot => ⟨Path.dir f.path, rfl, ?_⟩⟩,
    ⟨fun hslashes hroot => ?_, fun hroot => ?_⟩⟩
  · rw [selection?, hsource, hdata, hformat]
    rfl
  · rw [← Path.join_eq (Path.dir_ne_empty f.path), Path.join_dir_fileName]
  · rintro ⟨stem, hstem, hlast⟩ hroot
    rw [← (String.append_left_inj "/").mp hstem, hroot] at hlast
    exact hlast rfl
  · rw [hcleaned] at hroot ⊢
    exact Path.getLast?_clean hroot
  · rw [hroot] at hslashes
    exact hslashes ⟨(Path.fileName f.path).toList, by simp⟩
  · rw [hcleaned] at hroot ⊢
    exact Path.not_slashes_clean hroot _

/-- A page goes before the links of its own with a directory outside the place that paths are meant
from. -/
theorem Frame.relativeDir_usable_outward :
    let f : Frame := ⟨Document.ofText 0 "", 0, "../site//posts/./a.html"⟩
    let m : Mapping := ⟨none, none, some .relativeDir, none, .graft, false⟩
    let env : Environment := { load := fun path => .error (.notFound path) }
    ∃ text, f.selection? env m = .ok (some [.text text]) ∧
      Path.clean (text ++ "a.html") = "../site/posts/a.html" ∧
      (∃ stem, text = stem ++ "/" ∧ stem.toList.getLast? ≠ some '/') ∧
      ¬['/', '/'] <+: (text ++ "a.html").toList := by
  intro f m env
  have hname : Path.fileName f.path = "a.html" := by decide
  have hroot : Path.dir f.path ≠ "/" := by decide
  obtain ⟨text, hselected, hclean, hlast, hfirst⟩ :=
    Frame.relativeDir_usable (m := m) rfl rfl rfl f env
  rw [hname] at hclean hfirst
  exact ⟨text, hselected, hclean.trans (by decide), hlast.mpr hroot, hfirst.mpr hroot⟩

/-- The directory of a source in the root has a slash of its own. -/
example : Path.dir "/a.html" ++ "/" = "//" := by decide

end MarkupGraft
