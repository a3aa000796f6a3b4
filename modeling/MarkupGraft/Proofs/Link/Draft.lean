import MarkupGraft.Link.UrlPath

/-!
Following a path from a directory. Where no drive is in the way, what is followed does the same in every
directory: it leaves some of the directories that are open and writes names of its own behind the rest.
-/

namespace MarkupGraft.Url.Draft

variable {rules : PathRules}

/-- Goes along segments, one after the other. -/
def along (rules : PathRules) : Draft → List (List Char) → Draft
  | d, [] => d
  | d, [segment] => d.push rules segment true
  | d, segment :: next :: segments => along rules (d.push rules segment false) (next :: segments)

private theorem foldl_push_zipIdx {segments : List (List Char)} {d : Draft} {start last : Nat}
    (hne : segments ≠ []) (hlast : last + 1 = start + segments.length) :
    (segments.zipIdx start).foldl (fun d part => push rules d part.1 (part.2 = last)) d =
      along rules d segments := by
  induction segments generalizing d start with
  | nil => exact absurd rfl hne
  | cons segment segments ih =>
    rw [List.zipIdx_cons, List.foldl_cons]
    cases segments with
    | nil =>
      obtain rfl : start = last := by simpa using hlast.symm
      simp [along]
    | cons next segments =>
      rw [List.length_cons] at hlast
      have hstart : decide (start = last) = false := by
        rw [decide_eq_false_iff_not]
        have : (next :: segments).length ≠ 0 := by simp
        omega
      rw [hstart, ih (List.cons_ne_nil _ _) (by omega), along]

theorem follow_eq (d : Draft) (path : List Char) :
    d.follow rules path = along rules d (path.splitOnP (isSlash rules.web)) := by
  have hne := List.splitOnP_ne_nil (isSlash rules.web) path
  have hlength := List.length_pos_iff.mpr hne
  exact foldl_push_zipIdx hne (by omega)

/-! Open drafts -/

theorem append_open (hrules : rules.drives = false) (outer : List (List Char))
    (segment : List Char) : append rules ([] :: outer) segment = segment :: outer := by
  cases outer <;> simp [append, hrules]

/-- Going along a segment from behind a slash. -/
theorem push_open (hrules : rules.drives = false) (outer : List (List Char)) (segment : List Char)
    (isLast : Bool) : push rules ([] :: outer) segment isLast =
      if dots segment = 1 then [] :: outer
      else if dots segment = 2 then leave ([] :: outer)
      else if isLast then percentEncode inPath segment :: outer
      else [] :: percentEncode inPath segment :: outer := by
  rw [push]
  split <;> simp_all [close, append_open]

/-- Names that are not made of dots are written one behind the other. -/
theorem along_names (hrules : rules.drives = false) {names : List (List Char)} (hne : names ≠ [])
    (h : ∀ n ∈ names, dots n ≠ 1 ∧ dots n ≠ 2) (outer : List (List Char)) :
    along rules ([] :: outer) names = (names.map (percentEncode inPath)).reverse ++ outer := by
  induction names generalizing outer with
  | nil => exact absurd rfl hne
  | cons name names ih =>
    have hname := h name List.mem_cons_self
    cases names with
    | nil => simp [along, push_open hrules, hname]
    | cons next names =>
      rw [along, push_open hrules, if_neg hname.1, if_neg hname.2, if_neg Bool.false_ne_true,
        ih (List.cons_ne_nil _ _) fun n hn => h n (List.mem_cons_of_mem name hn)]
      simp

/-- Whether nothing is in the way out of directories. -/
def IsClear (outer : List (List Char)) : Prop := ∀ name ∈ outer, beginsWithDrive name = false

theorem IsClear.leave_eq {outer : List (List Char)} (h : IsClear outer) :
    leave ([] :: outer) = [] :: outer.drop 1 := by
  cases outer with
  | nil => rfl
  | cons name outer => simp [leave, h name List.mem_cons_self]

theorem IsClear.drop {outer : List (List Char)} (h : IsClear outer) (k : Nat) :
    IsClear (outer.drop k) := fun name hname => h name ((List.drop_sublist k outer).subset hname)

/-- A step from behind a slash, where some of the directories are names of one's own: it leads behind
another slash, or it is the last one and writes a name. -/
private theorem push_own (hrules : rules.drives = false) (names : List (List Char))
    (segment : List Char) (isLast : Bool) :
    (∃ names' k, ∀ outer, IsClear outer →
      push rules ([] :: (names ++ outer)) segment isLast = [] :: (names' ++ outer.drop k)) ∨
    isLast ∧ ∀ outer, push rules ([] :: (names ++ outer)) segment isLast =
      percentEncode inPath segment :: (names ++ outer) := by
  by_cases hone : dots segment = 1
  · exact .inl ⟨names, 0, fun outer _ => by rw [push_open hrules, if_pos hone, List.drop_zero]⟩
  by_cases htwo : dots segment = 2
  · refine .inl ?_
    cases names with
    | nil => exact ⟨[], 1, fun outer h => by
        rw [push_open hrules, if_neg hone, if_pos htwo, List.nil_append, h.leave_eq, List.nil_append]⟩
    | cons name names =>
      refine ⟨if beginsWithDrive name then name :: names else names, 0, fun outer _ => ?_⟩
      rw [push_open hrules, if_neg hone, if_pos htwo, List.cons_append, leave]
      split <;> simp
  cases isLast with
  | true =>
    exact .inr ⟨rfl, fun outer => by rw [push_open hrules, if_neg hone, if_neg htwo, if_pos rfl]⟩
  | false =>
    refine .inl ⟨percentEncode inPath segment :: names, 0, fun outer _ => ?_⟩
    rw [push_open hrules, if_neg hone, if_neg htwo, if_neg Bool.false_ne_true]
    rfl

private theorem exists_along_own (hrules : rules.drives = false) {segments : List (List Char)}
    (hne : segments ≠ []) (names : List (List Char)) : ∃ own k, ∀ outer, IsClear outer →
      along rules ([] :: (names ++ outer)) segments = own ++ outer.drop k := by
  induction segments generalizing names with
  | nil => exact absurd rfl hne
  | cons segment segments ih =>
    cases segments with
    | nil =>
      rcases push_own hrules names segment true with ⟨names', k, hpush⟩ | ⟨-, hpush⟩
      · exact ⟨[] :: names', k, hpush⟩
      · exact ⟨percentEncode inPath segment :: names, 0, fun outer _ => hpush outer⟩
    | cons next segments =>
      obtain ⟨names', j, hpush⟩ := (push_own hrules names segment false).resolve_right (by simp)
      obtain ⟨own, k, hown⟩ := ih (List.cons_ne_nil next segments) names'
      refine ⟨own, j + k, fun outer h => ?_⟩
      rw [along, hpush outer h, hown _ (h.drop j), List.drop_drop]

/-- A path does the same in every directory that nothing keeps it in: it leaves as many directories, as
far as there are any, and writes the same names. -/
theorem exists_follow_eq (hrules : rules.drives = false) (path : List Char) : ∃ own k,
    ∀ outer, IsClear outer → follow rules ([] :: outer) path = own ++ outer.drop k := by
  obtain ⟨own, k, hown⟩ := exists_along_own hrules (List.splitOnP_ne_nil (isSlash rules.web) path) []
  exact ⟨own, k, fun outer h => (follow_eq _ path).trans (hown outer h)⟩

/-- Names between slashes are written one behind the other. -/
theorem follow_names (hrules : rules.drives = false) {names : List (List Char)} (hne : names ≠ [])
    (hdots : ∀ n ∈ names, dots n ≠ 1 ∧ dots n ≠ 2)
    (h : ∀ n ∈ names, ∀ c ∈ n, isSlash rules.web c = false) (outer : List (List Char)) :
    follow rules ([] :: outer) (['/'].intercalate names) =
      (names.map (percentEncode inPath)).reverse ++ outer := by
  have hsplit : (['/'].intercalate names).splitOnP (isSlash rules.web) = names := by
    clear outer hdots
    induction names with
    | nil => exact absurd rfl hne
    | cons name names ih =>
      have hname := List.splitOnP_eq_singleton (h name List.mem_cons_self)
      cases names with
      | nil => simpa using hname
      | cons next names =>
        rw [List.intercalate_cons_cons, List.append_assoc, List.singleton_append,
          List.splitOnP_append_cons _ _ (by rfl), hname,
          ih (List.cons_ne_nil _ _) fun n hn => h n (List.mem_cons_of_mem name hn)]
        rfl
  rw [follow_eq, hsplit, along_names hrules hne hdots]

end MarkupGraft.Url.Draft
