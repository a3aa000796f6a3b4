import MarkupGraft.Proofs.Link.Path
import MarkupGraft.Proofs.Markup.Run
import MarkupGraft.Resource.Directory

/-!
Documents that are confined to a directory. What is read is what stands where a path leads, so however a
path is written it is read exactly if that place is a file below the directory. Documents that are not
confined are read by the path as written, which the system takes only up to a certain length.
-/

namespace MarkupGraft
open Markup

namespace FileTree
variable {t : FileTree} {place next names : List String} {path segment : String} {data : Bytes}

/-- Whether names lead down, each to something inside what the names before it lead to. -/
def LeadDown (names : List String) : Prop := ∀ name ∈ names, name ≠ ".." ∧ ¬Path.isIdle name

/-- Every step starts at a directory; it stays there, goes up, or goes down to something inside. -/
theorem follow_cases (h : t.follow place segment = .ok next) :
    Path.isIdle segment ∧ next = place ∨ segment = ".." ∧ next = place.tail ∨
      segment ≠ ".." ∧ ¬Path.isIdle segment ∧ next = segment :: place := by
  unfold follow at h
  split at h
  · cases h
  · cases h
  · split at h
    · cases h
      exact .inl ⟨‹_›, rfl⟩
    · split at h
      · cases h
        exact .inr (.inl ⟨‹_›, rfl⟩)
      · split at h
        · cases h
        · split at h
          · cases h
            exact .inr (.inr ⟨‹_›, ‹_›, rfl⟩)
          · cases h

/-- A segment that leads nowhere is passed over inside a directory. -/
theorem follow_of_isIdle {entries : List (String × FileTree)}
    (hplace : t.find? place.reverse = some (.directory entries)) (h : Path.isIdle segment) :
    t.follow place segment = .ok place := by
  unfold follow
  rw [hplace]
  exact if_pos h

private theorem leadDown_foldlM {segments : List String} (hplace : LeadDown place)
    (h : segments.foldlM t.follow place = .ok next) : LeadDown next := by
  induction segments generalizing place with
  | nil =>
    cases h
    exact hplace
  | cons segment segments ih =>
    rw [List.foldlM_cons] at h
    obtain ⟨behind, hstep, hrest⟩ := bind_eq_ok_iff.mp h
    refine ih ?_ hrest
    rcases follow_cases hstep with ⟨-, rfl⟩ | ⟨-, rfl⟩ | ⟨hup, hidle, rfl⟩
    · exact hplace
    · exact fun name hname => hplace name (List.mem_of_mem_tail hname)
    · exact List.forall_mem_cons.mpr ⟨⟨hup, hidle⟩, hplace⟩

theorem canonical_eq_ok_iff : t.canonical path = .ok names ↔ '\x00' ∉ path.toList ∧
    (Path.segments path).foldlM t.follow [] = .ok names.reverse := by
  unfold canonical
  split
  · rename_i hnul
    exact iff_of_false (by simp) fun h => h.1 (by simpa using hnul)
  · rename_i hnul
    rw [map_eq_ok_iff]
    constructor
    · rintro ⟨place, hplace, rfl⟩
      exact ⟨by simpa using hnul, by rw [List.reverse_reverse]; exact hplace⟩
    · rintro ⟨-, hplace⟩
      exact ⟨names.reverse, hplace, List.reverse_reverse names⟩

/-- Where a path leads is said without going up. -/
theorem leadDown_canonical (h : t.canonical path = .ok names) : LeadDown names := by
  have hplace := leadDown_foldlM (fun name hname => absurd hname List.not_mem_nil)
    (canonical_eq_ok_iff.mp h).2
  exact fun name hname => hplace name (List.mem_reverse.mpr hname)

theorem readAt_eq_ok_iff : t.readAt names = .ok data ↔ t.find? names = some (.file data) := by
  unfold readAt
  split <;> simp_all

/-- What is read is the file to which the path leads, unless the path is too long. -/
theorem read_eq_ok_iff : t.read path = .ok data ↔ path.utf8ByteSize < 4096 ∧
    ∃ names, t.canonical path = .ok names ∧ t.find? names = some (.file data) := by
  simp only [← readAt_eq_ok_iff]
  by_cases hnul : path.toList.contains '\x00'
  · have hread : t.read path = .error .nameWithNul := by
      rw [read, if_pos hnul]
      rfl
    rw [hread]
    refine iff_of_false (by simp) ?_
    rintro ⟨-, names, hnames, -⟩
    exact (canonical_eq_ok_iff.mp hnames).1 (by simpa using hnul)
  · by_cases hlong : 4096 ≤ path.utf8ByteSize
    · have hread : t.read path = .error .nameTooLong := by
        rw [read, if_neg hnul, if_pos hlong]
        rfl
      rw [hread]
      exact iff_of_false (by simp) fun h => absurd h.1 (Nat.not_lt_of_le hlong)
    · have hread : t.read path = t.canonical path >>= t.readAt := by
        rw [read, if_neg hnul, if_neg hlong]
      rw [hread, bind_eq_ok_iff, and_iff_right (Nat.lt_of_not_le hlong)]

end FileTree

namespace Directory
variable {d : Directory} {home names : List String} {path : String} {data : Bytes}

theorem load_eq_ok_iff : d.load path = .ok data ↔ d.read? path = some (.ok data) := by
  unfold load
  cases d.read? path with
  | none => simp
  | some result => cases result <;> simp [Except.mapError]

/-- A path leads to a document exactly if the document can be loaded. -/
theorem contains_iff_load : d.contains path ↔ ∃ data, d.load path = .ok data := by
  simp only [load_eq_ok_iff, contains]
  cases d.read? path with
  | none => simp
  | some result => cases result <;> simp [Except.isOk, Except.toBool]

theorem load_unconfined (hc : ¬d.confined) : d.load path = .ok data ↔
    (Path.under d.base path).utf8ByteSize < 4096 ∧
      ∃ names, d.tree.canonical (Path.under d.base path) = .ok names ∧
        d.tree.find? names = some (.file data) := by
  rw [load_eq_ok_iff, ← FileTree.read_eq_ok_iff, read?]
  simp [hc]

theorem encloses_iff (hhome : d.tree.canonical d.base = .ok home) :
    d.encloses names ↔ home <+: names := by
  rw [encloses, hhome]
  exact List.isPrefixOf_iff_prefix

/-- What is read under confinement is the file to which a path leads. Where a path leads nowhere the
second look at it finds nothing either. -/
theorem load_confined (hc : d.confined) (hhome : d.tree.canonical d.base = .ok home) :
    d.load path = .ok data ↔ ¬Path.isRooted path ∧
      ∃ inner, d.tree.canonical (Path.under d.base path) = .ok (home ++ inner) ∧
        d.tree.find? (home ++ inner) = some (.file data) := by
  rw [load_eq_ok_iff, read?]
  simp only [hc, Bool.not_true, Bool.false_eq_true, if_false]
  by_cases hrooted : Path.isRooted path
  · simp [hrooted]
  · rw [if_neg hrooted, and_iff_right hrooted]
    cases hplace : d.tree.canonical (Path.under d.base path) with
    | error e =>
      have hread : d.tree.read (Path.under d.base path) ≠ .ok data := fun h => by
        obtain ⟨-, names, hnames, -⟩ := FileTree.read_eq_ok_iff.mp h
        cases hplace.symm.trans hnames
      dsimp only
      split <;> simp [hread]
    | ok names =>
      dsimp only
      split
      · rename_i hin
        obtain ⟨inner, rfl⟩ := (encloses_iff hhome).mp hin
        rw [Option.some.injEq, FileTree.readAt_eq_ok_iff]
        constructor
        · exact fun h => ⟨inner, rfl, h⟩
        · rintro ⟨inner', hinner, hfile⟩
          rwa [List.append_cancel_left (Except.ok.inj hinner)]
      · rename_i hout
        refine iff_of_false (by simp) ?_
        rintro ⟨inner, hinner, -⟩
        exact hout ((encloses_iff hhome).mpr ⟨inner, (Except.ok.inj hinner).symm⟩)

/-- A directory with one document, beside another document. -/
def house (confined : Bool) : Directory where
  tree := .directory [("house", .directory [("a", .file [0x78])]), ("b", .file [0x79])]
  base := "/house"
  confined

/-- A way to the document `a` that stays where it is a number of times. -/
def detour : Nat → String
  | 0 => "a"
  | n + 1 => "." ++ "/" ++ detour n

private theorem size_detour (n : Nat) : (detour n).utf8ByteSize = 2 * n + 1 := by
  induction n with
  | zero => rfl
  | succ n ih =>
    have hdot : ("." ++ "/").utf8ByteSize = 2 := rfl
    rw [detour, String.utf8ByteSize_append, hdot, ih]
    omega

private theorem nul_not_mem_detour (n : Nat) : '\x00' ∉ (detour n).toList := by
  induction n with
  | zero => decide
  | succ n ih => simpa [detour] using ih

private theorem not_isRooted_detour (n : Nat) : ¬Path.isRooted (detour n) := by
  cases n with
  | zero => decide
  | succ n =>
    rw [detour, Path.isRooted_slash (by decide)]
    decide

private theorem under_house (confined : Bool) (n : Nat) :
    Path.under (house confined).base (detour n) = "/house" ++ "/" ++ detour n := by
  rw [Path.under, if_neg (not_isRooted_detour n)]
  exact if_neg (show ¬("/house" = "" ∨ "/house".toList.getLast? = some '/') by decide)

private theorem foldlM_detour (confined : Bool) (n : Nat) :
    (Path.segments (detour n)).foldlM (house confined).tree.follow ["house"] =
      .ok ["a", "house"] := by
  induction n with
  | zero => rfl
  | succ n ih =>
    have hdot : Path.segments "." = ["."] := by decide +kernel
    have hhouse : (house confined).tree.find? ["house"] =
        some (.directory [("a", .file [0x78])]) := rfl
    have hidle : (house confined).tree.follow ["house"] "." = .ok ["house"] :=
      FileTree.follow_of_isIdle hhouse rfl
    rw [detour, Path.segments_slash, hdot, List.singleton_append, List.foldlM_cons, hidle]
    exact ih

private theorem canonical_detour (confined : Bool) (n : Nat) :
    (house confined).tree.canonical (Path.under (house confined).base (detour n)) =
      .ok ["house", "a"] := by
  rw [under_house, FileTree.canonical_eq_ok_iff, Path.segments_slash]
  refine ⟨by simpa using nul_not_mem_detour n, ?_⟩
  have hhouse : Path.segments "/house" = ["", "house"] := by decide +kernel
  rw [hhouse]
  exact foldlM_detour confined n

end Directory
end MarkupGraft
