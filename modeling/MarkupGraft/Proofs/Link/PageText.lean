import MarkupGraft.Proofs.Link.Page

/-!
Texts of pages. A text with a web scheme, slashes, a server and names between slashes is read as the page
with these names. Taken for the path of a file it has a directory too, and that is again such a text:
with one slash in front of the server, without empty names, and without a slash at its end.
-/

namespace MarkupGraft.Url

/-! Escapes -/

section
variable {needsEscape : Char → Bool}

theorem percentEncode_cons (c : Char) (text : List Char) : percentEncode needsEscape (c :: text) =
    percentEncode needsEscape [c] ++ percentEncode needsEscape text := by
  simp [percentEncode]

theorem upperHex_ne_slash {n : Nat} (h : n < 16) : upperHex n ≠ '/' := by
  have hall : ∀ n < 16, upperHex n ≠ '/' := by decide
  exact hall n h

/-- A character stands for itself, or there are escapes for it. -/
theorem percentEncode_singleton (c : Char) : percentEncode needsEscape [c] = [c] ∨
    ∃ digits, percentEncode needsEscape [c] = '%' :: digits ∧ '/' ∉ digits := by
  rw [percentEncode, List.flatMap_singleton]
  split
  · refine .inr ?_
    obtain ⟨b, bytes, hbytes⟩ := List.exists_cons_of_ne_nil (@String.utf8EncodeChar_ne_nil c)
    rw [hbytes, List.flatMap_cons]
    refine ⟨_, rfl, ?_⟩
    have hhex (b : UInt8) : '/' ≠ upperHex (b.toNat / 16) ∧ '/' ≠ upperHex (b.toNat % 16) := by
      have hb : b.toNat < 256 := b.toNat_lt_size
      exact ⟨(upperHex_ne_slash (by omega)).symm, (upperHex_ne_slash (by omega)).symm⟩
    simp [hhex]
  · exact .inl rfl

theorem slash_not_mem_percentEncode {text : List Char} (h : '/' ∉ text) :
    '/' ∉ percentEncode needsEscape text := by
  induction text with
  | nil => exact List.not_mem_nil
  | cons c text ih =>
    rw [List.mem_cons, not_or] at h
    rw [percentEncode_cons, List.mem_append, not_or]
    refine ⟨?_, ih h.2⟩
    rcases @percentEncode_singleton needsEscape c with hc | ⟨digits, hc, hdigits⟩
    · simpa [hc] using h.1
    · simpa [hc] using hdigits

theorem exists_percentEncode_cons (c : Char) (text : List Char) :
    percentEncode needsEscape (c :: text) = c :: percentEncode needsEscape text ∨
      ∃ more, percentEncode needsEscape (c :: text) = '%' :: more := by
  rw [percentEncode_cons]
  rcases @percentEncode_singleton needsEscape c with hc | ⟨digits, hc, -⟩
  · exact .inl (by rw [hc, List.singleton_append])
  · exact .inr ⟨digits ++ percentEncode needsEscape text, by rw [hc, List.cons_append]⟩

theorem percentEncode_eq_nil_iff {text : List Char} :
    percentEncode needsEscape text = [] ↔ text = [] := by
  cases text with
  | nil => exact iff_of_true rfl rfl
  | cons c text =>
    rcases @exists_percentEncode_cons needsEscape c text with hc | ⟨more, hc⟩ <;> simp [hc]

theorem beginsWithDrive_cons (letter mark : Char) (rest : List Char) :
    beginsWithDrive (letter :: mark :: rest) =
      (isDrive [letter, mark] && rest.head?.all "/\\?#".toList.contains) := rfl

/-- Escapes make no drives. -/
theorem beginsWithDrive_of_percentEncode {text : List Char}
    (h : beginsWithDrive (percentEncode needsEscape text)) : beginsWithDrive text := by
  -- An escape is no letter, no mark of a drive, and does not end a segment.
  have hletter (more : List Char) : beginsWithDrive ('%' :: more) = false := by
    cases more <;> rfl
  have hmark (letter : Char) (more : List Char) :
      beginsWithDrive (letter :: '%' :: more) = false := by
    rw [beginsWithDrive_cons, isDrive, Bool.and_eq_false_iff]
    exact .inl (by simp)
  cases text with
  | nil => exact h
  | cons letter text =>
    rcases @exists_percentEncode_cons needsEscape letter text with hc | ⟨more, hc⟩
    · rw [hc] at h
      cases text with
      | nil => exact h
      | cons mark rest =>
        rcases @exists_percentEncode_cons needsEscape mark rest with hd | ⟨more, hd⟩
        · rw [hd, beginsWithDrive_cons] at h
          rw [beginsWithDrive_cons]
          cases rest with
          | nil => exact h
          | cons e rest =>
            rcases @exists_percentEncode_cons needsEscape e rest with he | ⟨more, he⟩
            · rwa [he] at h
            · rw [he] at h
              simp at h
        · rw [hd, hmark] at h
          exact absurd h Bool.false_ne_true
    · rw [hc, hletter] at h
      exact absurd h Bool.false_ne_true

end

/-! Parts of a text -/

/-- A tail is cut off where it begins. -/
theorem splitTail_append (web : Bool) {path tail : List Char} (hpath : ∀ c ∈ path, c ≠ '?' ∧ c ≠ '#')
    (htail : ∀ c ∈ tail.head?, c = '?' ∨ c = '#') :
    splitTail web (path ++ tail) = (path, (splitTail web tail).2) := by
  have hfragment : ∀ c ∈ path, decide (c ≠ '#') := fun c hc => by simpa using (hpath c hc).2
  have hquery : ∀ c ∈ path, decide (c ≠ '?') := fun c hc => by simpa using (hpath c hc).1
  have hnone : (tail.takeWhile (· ≠ '#')).takeWhile (· ≠ '?') = [] := by
    cases tail with
    | nil => rfl
    | cons c tail => rcases htail c rfl with rfl | rfl <;> simp
  simp only [splitTail, List.takeWhile_append_of_pos hfragment, List.takeWhile_append_of_pos hquery,
    hnone, List.append_nil, List.length_append, List.drop_length_add_append, List.drop_left,
    List.length_nil, List.drop_zero]

/-- Of the web a server needs a name, so it makes no difference whether anything follows. -/
theorem authority_isLast {scheme : String} (hscheme : hasHostScheme scheme) (text : List Char)
    (isLast : Bool) : authority scheme text isLast = authority scheme text false := by
  have hweb : (rulesOf scheme).web = true := by rw [rulesOf_eq hscheme]
  rw [authority, authority, hweb]
  cases hplace : (text.reverse.takeWhile (· ≠ '@')).reverse with
  | nil =>
    -- The server is missed either way, at one check or at the other.
    simp only [List.take_nil, List.isEmpty_nil, and_self, if_true]
    split <;> split <;> rfl
  | cons c place => simp only [List.isEmpty_cons, Bool.false_eq_true, false_and, and_false]

theorem slash_not_mem_query {web : Bool} {text : List Char} (h : '/' ∉ text) :
    ∀ q ∈ (splitTail web text).2.query?, '/' ∉ q.toList := by
  intro q hq
  obtain ⟨part, hpart, rfl⟩ := Option.map_eq_some_iff.mp hq
  rw [String.toList_ofList]
  refine slash_not_mem_percentEncode fun hslash => h ?_
  cases hdrop : (text.takeWhile (· ≠ '#')).drop
      ((text.takeWhile (· ≠ '#')).takeWhile (· ≠ '?')).length with
  | nil =>
    rw [hdrop] at hpart
    cases hpart
  | cons c rest =>
    rw [hdrop] at hpart
    obtain rfl := Option.some.inj hpart
    have hmem := (List.drop_sublist _ _).subset (hdrop ▸ List.mem_cons_of_mem c hslash)
    exact (List.takeWhile_sublist _).subset hmem

theorem splitAuthority_append {server rest : List Char} (hserver : ∀ c ∈ server, isSlash true c = false)
    (hrest : ∀ c ∈ rest.head?, c = '/') : splitAuthority true (server ++ rest) = (server, rest) := by
  have hwhole : (server ++ rest).takeWhile (!isSlash true ·) = server := by
    rw [List.takeWhile_append_of_pos (by simpa using hserver)]
    cases rest with
    | nil => simp
    | cons c rest => simp [hrest c rfl, isSlash]
  have hnumber : ((server.reverse.takeWhile (· ≠ '@')).reverse.drop
      (serverLength false (server.reverse.takeWhile (· ≠ '@')).reverse)).dropWhile (· ≠ '\\') = [] := by
    rw [List.dropWhile_eq_nil_iff]
    intro c hc
    have hmem : c ∈ server := List.mem_reverse.mp ((List.takeWhile_sublist _).subset
      (List.mem_reverse.mp ((List.drop_sublist _ _).subset hc)))
    have hslash : c ≠ '/' ∧ c ≠ '\\' := by simpa [isSlash] using hserver c hmem
    simpa using hslash.2
  simp only [splitAuthority, hwhole, hnumber, List.length_nil, Nat.sub_zero, List.splitAt_eq,
    List.take_left, List.drop_left]

theorem intercalate_cons_eq (name : List Char) (names : List (List Char)) :
    ['/'].intercalate (name :: names) = name ++ names.flatMap ('/' :: ·) := by
  induction names generalizing name with
  | nil => simp
  | cons next names ih =>
    rw [List.intercalate_cons_cons, ih, List.flatMap_cons, List.append_assoc, List.singleton_append,
      List.cons_append]

/-- Whether a character can stand in a name of a text of a page. -/
def isPlain (c : Char) : Bool := !isControlOrSpace c && !"/\\?#".toList.contains c

theorem ne_of_isPlain {c : Char} (h : isPlain c) :
    isControlOrSpace c = false ∧ isSlash true c = false ∧ c ≠ '?' ∧ c ≠ '#' := by
  simp only [isPlain, Bool.and_eq_true, Bool.not_eq_true'] at h
  have hmarks : c ≠ '/' ∧ c ≠ '\\' ∧ c ≠ '?' ∧ c ≠ '#' := by simpa using h.2
  exact ⟨h.1, by simp [isSlash, hmarks], hmarks.2.2⟩

/-- What follows the slashes is read as the server, the names and the tail. -/
theorem afterSlashes_eq {scheme : String} (hscheme : hasHostScheme scheme) {server tail : List Char}
    {names : List (List Char)} (hserver : ∀ c ∈ server, isPlain c)
    (hnames : ∀ n ∈ names, ∀ c ∈ n, isPlain c) (hdots : ∀ n ∈ names, dots n ≠ 1 ∧ dots n ≠ 2)
    (htail : ∀ c ∈ tail.head?, c = '?' ∨ c = '#') :
    afterSlashes scheme (server ++ names.flatMap ('/' :: ·) ++ tail) =
      (authority scheme server false).map fun a => make scheme (some a)
        (.segments (if names = [] then [""] else
          names.map fun n => String.ofList (percentEncode inPath n))) (splitTail true tail).2 := by
  have hpath : ∀ c ∈ server ++ names.flatMap ('/' :: ·), c ≠ '?' ∧ c ≠ '#' := by
    intro c hc
    rcases List.mem_append.mp hc with hc | hc
    · exact (ne_of_isPlain (hserver c hc)).2.2
    · obtain ⟨n, hn, hc⟩ := List.mem_flatMap.mp hc
      rcases List.mem_cons.mp hc with rfl | hc
      · decide
      · exact (ne_of_isPlain (hnames n hn c hc)).2.2
  have hrest : ∀ c ∈ (names.flatMap ('/' :: ·)).head?, c = '/' := by
    cases names <;> simp
  have hfollow : (Draft.follow ⟨true, false⟩ Draft.root
      (if (names.flatMap ('/' :: ·)).head?.any (isSlash true) then (names.flatMap ('/' :: ·)).drop 1
        else names.flatMap ('/' :: ·))).finish ⟨true, false⟩ =
      .segments (if names = [] then [""] else
        names.map fun n => String.ofList (percentEncode inPath n)) := by
    cases names with
    | nil => rfl
    | cons n names =>
      have hdrop : ((n :: names).flatMap ('/' :: ·)).drop 1 = ['/'].intercalate (n :: names) := by
        rw [intercalate_cons_eq]
        rfl
      have hhead : ((n :: names).flatMap ('/' :: ·)).head?.any (isSlash true) = true := rfl
      rw [hhead, if_pos rfl, hdrop, Draft.root, Draft.follow_names rfl (List.cons_ne_nil n names) hdots
        fun n hn c hc => (ne_of_isPlain (hnames n hn c hc)).2.1]
      simp [Draft.finish]
  rw [afterSlashes, rulesOf_eq hscheme, splitTail_append true hpath htail]
  simp only [splitAuthority_append (fun c hc => (ne_of_isPlain (hserver c hc)).2.1) hrest,
    authority_isLast hscheme server _, hfollow, Bool.not_true, Bool.and_false, Bool.false_eq_true,
    if_false]
  cases authority scheme server false <;> rfl

/-! Reading pages -/

/-- A name as it is written in the page that is read. -/
def writeName (n : String) : String := String.ofList (percentEncode inPath n.toList)

theorem writeName_eq_empty_iff {n : String} : writeName n = "" ↔ n = "" := by
  rw [writeName, ← String.toList_eq_nil_iff, String.toList_ofList, percentEncode_eq_nil_iff,
    String.toList_eq_nil_iff]

/-- A text in the parts of the URL of a page. -/
structure PageText where
  scheme : String
  slashes : String
  server : String
  names : List String
  /-- The query and the fragment, with their marks. -/
  tail : String

namespace PageText

variable {p : PageText}

def text (p : PageText) : String :=
  p.scheme ++ ":" ++ p.slashes ++ p.server ++ (UrlPath.segments p.names).text ++ p.tail

def schemeName (p : PageText) : String := String.ofList (p.scheme.toList.map Char.toLower)

/-- The page that is read, once its authority is known. Without a path it is that of the root. -/
def page (p : PageText) (authority : String) : Url :=
  make p.schemeName (some authority)
    (.segments (if p.names = [] then [""] else p.names.map writeName))
    (splitTail true p.tail.toList).2

/-- A text whose parts stay apart, and in which no name leads elsewhere: neither the server nor a name
is made of dots, and no directory is a drive. -/
structure IsPlain (p : PageText) : Prop where
  scheme : hasHostScheme p.schemeName
  slashes : p.slashes ≠ "" ∧ ∀ c ∈ p.slashes.toList, c = '/'
  server : ¬Path.isIdle p.server ∧ p.server ≠ ".."
  dots : ∀ n ∈ p.names, dots n.toList ≠ 1 ∧ dots n.toList ≠ 2
  drives : ∀ n ∈ p.names.dropLast, beginsWithDrive n.toList = false
  characters : ∀ part ∈ p.server :: p.names, ∀ c ∈ part.toList, isPlain c
  tail : (∀ c ∈ p.tail.toList.head?, c = '?' ∨ c = '#') ∧
    ∀ c ∈ p.tail.toList, isControlOrSpace c = false ∧ c ≠ '/'

end PageText

theorem isAlpha_of_isAlpha_toLower {c : Char} (h : c.toLower.isAlpha) : c.isAlpha := by
  by_contra hnot
  have hsame : c.toLower = c := by
    refine dif_neg ?_
    rintro ⟨hfirst, hlast⟩
    have hlow : 65 ≤ c.toNat := UInt32.le_iff_toNat_le.mp hfirst
    have hhigh : c.toNat ≤ 90 := UInt32.le_iff_toNat_le.mp hlast
    exact hnot (Query.isAlpha_iff.mpr (.inl ⟨hlow, hhigh⟩))
  exact hnot (hsame ▸ h)

theorem isAlpha_of_hasHostScheme {scheme : String} (h : hasHostScheme scheme) :
    scheme ≠ "" ∧ ∀ c ∈ scheme.toList, c.isAlpha := by
  obtain ⟨⟨name, number⟩, hmem, hname⟩ := List.lookup_isSome_iff.mp h
  obtain rfl : scheme = name := by simpa using hname
  have hall : hostSchemes.all fun scheme => scheme.1 ≠ "" && scheme.1.toList.all Char.isAlpha := by
    decide
  have hscheme := List.all_eq_true.mp hall _ hmem
  rw [Bool.and_eq_true] at hscheme
  exact ⟨by simpa using hscheme.1, List.all_eq_true.mp hscheme.2⟩

/-- Where nothing has to be left out the text is read as it stands. -/
theorem trimmed_eq_toList {text : String} (h : ∀ c ∈ text.toList, isControlOrSpace c = false) :
    trimmed text = text.toList := by
  have hfront : text.toList.dropWhile isControlOrSpace = text.toList := by
    cases hlist : text.toList with
    | nil => rfl
    | cons c rest => exact List.dropWhile_cons_of_neg (by simp [h c (by simp [hlist])])
  have hend : text.toList.rdropWhile isControlOrSpace = text.toList :=
    List.rdropWhile_eq_self_iff.mpr fun hne => by simp [h _ (List.getLast_mem hne)]
  rw [trimmed_eq, hfront, hend, List.filter_eq_self]
  intro c hc
  have hnot : ¬isPassedOver c := fun hover =>
    absurd (isControlOrSpace_of_isPassedOver hover) (by simp [h c hc])
  simpa using hnot

theorem toList_text_segments (names : List String) :
    (UrlPath.segments names).text.toList = (names.map String.toList).flatMap ('/' :: ·) := by
  induction names with
  | nil => rfl
  | cons n names ih => simp [text_segments_cons, ih]

namespace PageText

variable {p : PageText} (h : p.IsPlain)
include h

theorem IsPlain.isAlpha_scheme : p.scheme.toList ≠ [] ∧ ∀ c ∈ p.scheme.toList, c.isAlpha := by
  obtain ⟨hne, halpha⟩ := isAlpha_of_hasHostScheme h.scheme
  refine ⟨?_, fun c hc => isAlpha_of_isAlpha_toLower (halpha _ ?_)⟩
  · simpa [schemeName] using hne
  · rw [schemeName, String.toList_ofList]
    exact List.mem_map_of_mem hc

theorem IsPlain.server_ne_nil : p.server.toList ≠ [] := by
  intro hempty
  exact h.server.1 (by rw [String.toList_eq_nil_iff.mp hempty]; rfl)

theorem IsPlain.not_isControlOrSpace : ∀ c ∈ p.text.toList, isControlOrSpace c = false := by
  have hpart : ∀ part ∈ p.server :: p.names, ∀ c ∈ part.toList, isControlOrSpace c = false :=
    fun part hpart c hc => (ne_of_isPlain (h.characters part hpart c hc)).1
  have hletter : ∀ c ∈ p.scheme.toList, isControlOrSpace c = false := by
    intro c hc
    have := Query.isAlpha_iff.mp (h.isAlpha_scheme.2 c hc)
    simp only [isControlOrSpace, decide_eq_false_iff_not]
    omega
  intro c hc
  simp only [text, String.toList_append, toList_text_segments, List.mem_append] at hc
  rcases hc with ((((hc | hc) | hc) | hc) | hc) | hc
  · exact hletter c hc
  · rw [List.mem_singleton.mp hc]
    decide
  · rw [h.slashes.2 c hc]
    decide
  · exact hpart p.server List.mem_cons_self c hc
  · simp only [List.mem_flatMap, List.mem_map, List.mem_cons] at hc
    obtain ⟨_, ⟨n, hn, rfl⟩, rfl | hc⟩ := hc
    · decide
    · exact hpart n (List.mem_cons_of_mem _ hn) c hc
  · exact (h.tail.2 c hc).1

/-- The text of a page is read as the page. -/
theorem IsPlain.parse_page :
    parse p.text = (authority p.schemeName p.server.toList false).map p.page := by
  obtain ⟨letter, letters, hscheme⟩ := List.exists_cons_of_ne_nil h.isAlpha_scheme.1
  obtain ⟨first, server, hserver⟩ := List.exists_cons_of_ne_nil h.server_ne_nil
  have hmarks : ∀ c ∈ letter :: letters, isSchemeMark c := by
    intro c hc
    have halpha := h.isAlpha_scheme.2 c (hscheme ▸ hc)
    simp [isSchemeMark, Char.isAlphanum, halpha]
  have hfirst : isSlash true first = false :=
    (ne_of_isPlain (h.characters p.server List.mem_cons_self first (by simp [hserver]))).2.1
  have htext : p.text.toList = letter :: letters ++ ':' :: (p.slashes.toList ++
      (p.server.toList ++ (p.names.map String.toList).flatMap ('/' :: ·) ++ p.tail.toList)) := by
    simp [text, hscheme, toList_text_segments]
  have hslashes : (p.slashes.toList ++ (p.server.toList ++
      (p.names.map String.toList).flatMap ('/' :: ·) ++ p.tail.toList)).dropWhile (isSlash true) =
      p.server.toList ++ (p.names.map String.toList).flatMap ('/' :: ·) ++ p.tail.toList := by
    rw [List.dropWhile_append_of_pos fun c hc => by rw [h.slashes.2 c hc]; rfl, hserver]
    exact List.dropWhile_cons_of_neg (by simp [hfirst])
  have hname : String.ofList ((letter :: letters).map Char.toLower) = p.schemeName := by
    rw [schemeName, hscheme]
  rw [parse, trimmed_eq_toList h.not_isControlOrSpace, htext,
    splitScheme?_eq (h.isAlpha_scheme.2 letter (by simp [hscheme])) hmarks, hname]
  simp only [afterScheme, if_neg (ne_file_of_hasHostScheme h.scheme), if_pos h.scheme, hslashes]
  rw [afterSlashes_eq h.scheme (h.characters p.server List.mem_cons_self) _ _ h.tail.1]
  · simp only [List.map_map, List.map_eq_nil_iff]
    rfl
  · simpa using fun n hn => h.characters n (List.mem_cons_of_mem _ hn)
  · simpa using h.dots

end PageText

/-! The directory of a page -/

theorem intercalate_cons_text (n : String) (names : List String) :
    "/".intercalate (n :: names) = n ++ (UrlPath.segments names).text := by
  have htext := text_segments_cons n names
  rw [text_segments_eq (List.cons_ne_nil n names), String.append_assoc] at htext
  exact (String.append_right_inj "/").mp htext

theorem trail_slashes {slashes : String} (hne : slashes ≠ "") (h : ∀ c ∈ slashes.toList, c = '/')
    (path more : String) :
    Path.trail (path ++ slashes ++ more) = Path.trail path ++ Path.trail more := by
  have hnone {text : List Char} (htext : ∀ c ∈ text, c = '/') :
      Path.trail (String.ofList text ++ more) = Path.trail more := by
    induction text with
    | nil => exact congrArg Path.trail String.empty_append
    | cons c text ih =>
      obtain rfl : c = '/' := htext c List.mem_cons_self
      have hcons : String.ofList ('/' :: text) ++ more = "" ++ "/" ++ (String.ofList text ++ more) :=
        String.toList_inj.mp (by simp)
      rw [hcons, Path.trail_slash, ih fun c hc => htext c (List.mem_cons_of_mem _ hc)]
      rfl
  obtain ⟨c, text, hslashes⟩ := List.exists_cons_of_ne_nil (mt String.toList_eq_nil_iff.mp hne)
  obtain rfl : c = '/' := h c (by simp [hslashes])
  have hcons : path ++ slashes ++ more = path ++ "/" ++ (String.ofList text ++ more) :=
    String.toList_inj.mp (by simp [hslashes])
  rw [hcons, Path.trail_slash, hnone fun c hc => h c (by simp [hslashes, hc])]

namespace PageText

variable {p : PageText}

/-- The text of the directory of a page, as it is cleaned. -/
def directory (p : PageText) : PageText :=
  ⟨p.scheme, "/", p.server, p.names.dropLast.filter (· ≠ ""), ""⟩

theorem mem_of_mem_directory {n : String} (hn : n ∈ p.directory.names) : n ∈ p.names.dropLast :=
  (List.mem_filter.mp hn).1

section
variable (h : p.IsPlain)
include h

theorem IsPlain.directory : p.directory.IsPlain where
  scheme := h.scheme
  slashes := ⟨by simp [PageText.directory], by simp [PageText.directory]⟩
  server := h.server
  dots n hn := h.dots n ((List.dropLast_sublist _).subset (mem_of_mem_directory hn))
  drives n hn := h.drives n (mem_of_mem_directory ((List.dropLast_sublist _).subset hn))
  characters part hpart := h.characters part (by
    rcases List.mem_cons.mp hpart with rfl | hn
    · exact List.mem_cons_self
    · exact List.mem_cons_of_mem _ ((List.dropLast_sublist _).subset (mem_of_mem_directory hn)))
  tail := ⟨by simp [PageText.directory], by simp [PageText.directory]⟩

private theorem IsPlain.slash_not_mem {part : String} (hpart : part ∈ p.server :: p.names) :
    '/' ∉ part.toList := fun hslash =>
  absurd (ne_of_isPlain (h.characters part hpart '/' hslash)).2.1 (by decide)

/-- The segments of a text of a page that lead somewhere, but for its last name. -/
private theorem IsPlain.trail_eq {directories : List String} (hsubset : directories ⊆ p.names) :
    Path.trail (p.scheme ++ ":" ++ p.slashes ++ (p.server ++ (UrlPath.segments directories).text)) =
      (p.scheme ++ ":") :: p.server :: directories.filter (· ≠ "") ∧
    Path.IsClean false ((p.scheme ++ ":") :: p.server :: directories.filter (· ≠ "")) := by
  have hscheme : '/' ∉ (p.scheme ++ ":").toList := by
    intro hslash
    rw [String.toList_append, List.mem_append] at hslash
    rcases hslash with hslash | hslash
    · exact absurd (h.isAlpha_scheme.2 '/' hslash) (by decide)
    · exact absurd hslash (by decide)
  have hcolon : ∀ s ∈ ["", ".", ".."], p.scheme ++ ":" ≠ s := by
    intro s hs heq
    have hlast : s.toList.getLast? = some ':' := by rw [← heq]; simp
    simp only [List.mem_cons, List.not_mem_nil, or_false] at hs
    rcases hs with rfl | rfl | rfl <;> exact absurd hlast (by decide)
  have hname : ∀ n ∈ directories, n ≠ "." ∧ n ≠ ".." := by
    intro n hn
    have hdots := h.dots n (hsubset hn)
    exact ⟨by rintro rfl; exact hdots.1 rfl, by rintro rfl; exact hdots.2 rfl⟩
  have hfilter : directories.filter (!Path.isIdle ·) = directories.filter (· ≠ "") :=
    List.filter_congr fun n hn => by simp [Path.isIdle, (hname n hn).1]
  constructor
  · rw [trail_slashes h.slashes.1 h.slashes.2, Path.trail_name hscheme, ← intercalate_cons_text,
      Path.trail, Path.segments_intercalate (List.cons_ne_nil _ _),
      List.filter_cons_of_pos (by simpa using h.server.1), hfilter]
    · rfl
    · intro part hpart
      rcases List.mem_cons.mp hpart with rfl | hn
      · exact h.slash_not_mem List.mem_cons_self
      · exact h.slash_not_mem (List.mem_cons_of_mem _ (hsubset hn))
    · simp [Path.isIdle, hcolon]
  · refine ⟨?_, ?_, fun hrooted => absurd hrooted Bool.false_ne_true⟩
    · intro s hs
      rcases List.mem_cons.mp hs with rfl | hs
      · simp [Path.isIdle, hcolon]
      · rcases List.mem_cons.mp hs with rfl | hs
        · exact h.server.1
        · obtain ⟨hn, hne⟩ := List.mem_filter.mp hs
          simp [Path.isIdle, (hname s hn).1, of_decide_eq_true hne]
    · refine List.pairwise_of_forall_mem_list fun s _ t ht hup => ?_
      subst hup
      rcases List.mem_cons.mp ht with heq | ht
      · exact absurd heq.symm (hcolon ".." (by simp))
      · rcases List.mem_cons.mp ht with heq | ht
        · exact absurd heq.symm h.server.2
        · exact absurd rfl (hname ".." (List.mem_filter.mp ht).1).2

/-- What stands in front of the last slash is cleaned to the text of the directory. -/
theorem IsPlain.dir_text (hpath : p.names ≠ []) : Path.dir p.text = p.directory.text := by
  obtain ⟨directories, file, hnames⟩ : ∃ directories file, p.names = directories ++ [file] :=
    ⟨_, _, (List.dropLast_append_getLast hpath).symm⟩
  have hfile : '/' ∉ (file ++ p.tail).toList := by
    rw [String.toList_append, List.mem_append, not_or]
    exact ⟨h.slash_not_mem (by simp [hnames]), fun hslash => (h.tail.2 '/' hslash).2 rfl⟩
  have hsubset : directories ⊆ p.names := by simp [hnames]
  obtain ⟨htrail, hclean⟩ := h.trail_eq hsubset
  have htext : p.text = p.scheme ++ ":" ++ p.slashes ++ (p.server ++
      (UrlPath.segments directories).text) ++ "/" ++ (file ++ p.tail) := by
    rw [text, hnames, text_segments_append, text_segments_eq (List.cons_ne_nil file []),
      String.intercalate_singleton]
    simp only [String.append_assoc]
  have hunrooted : Path.isRooted (p.scheme ++ ":" ++ p.slashes ++ (p.server ++
      (UrlPath.segments directories).text) ++ "/") = false := by
    have hslash : '/' ∉ p.scheme.toList := fun hslash =>
      absurd (h.isAlpha_scheme.2 '/' hslash) (by decide)
    simp only [String.append_assoc]
    rw [Path.isRooted_append (mt String.toList_eq_nil_iff.mpr h.isAlpha_scheme.1),
      Path.isRooted_of_not_mem hslash]
  rw [htext, Path.dir_slash hfile, Path.clean_eq, Path.route_eq, Path.trail_append_slash, htrail,
    hunrooted, Path.cleanSegments, hclean.foldl_push_eq, List.reverse_reverse]
  have hof (s : String) (l : List String) : Path.ofSegments false (s :: l) = "/".intercalate (s :: l) :=
    rfl
  rw [hof, intercalate_cons_text, text_segments_cons, text, PageText.directory, hnames, List.dropLast_concat]
  simp only [String.append_assoc, String.append_empty]

omit h in
/-- The directory of a page is the page that its text names. -/
theorem outer_page (hpath : p.names ≠ []) (authority : String) :
    (p.page authority).outer = p.directory.page authority := by
  have hfilter : (p.names.dropLast.map writeName).filter (· ≠ "") =
      (p.names.dropLast.filter (· ≠ "")).map writeName := by
    rw [List.filter_map]
    exact congrArg _ (List.filter_congr fun n _ => by simp [writeName_eq_empty_iff])
  rw [page, page, make, make, outer, if_neg hpath]
  simp only [← List.map_dropLast, hfilter, List.isEmpty_iff, List.map_eq_nil_iff]
  rfl

theorem IsPlain.exists_authority {url : Url} (hurl : parse p.text = .ok url) :
    ∃ a, authority p.schemeName p.server.toList false = .ok a ∧ url = p.page a := by
  rw [h.parse_page] at hurl
  cases hauthority : authority p.schemeName p.server.toList false with
  | error cause =>
    rw [hauthority] at hurl
    cases hurl
  | ok a =>
    rw [hauthority] at hurl
    exact ⟨a, rfl, (Except.ok.inj hurl).symm⟩

/-- The directory of a text is read as the directory of the page. -/
theorem IsPlain.parse_dir (hpath : p.names ≠ []) {url : Url} (hurl : parse p.text = .ok url) :
    parse (Path.dir p.text) = .ok url.outer := by
  obtain ⟨a, hauthority, rfl⟩ := h.exists_authority hurl
  rw [h.dir_text hpath, h.directory.parse_page, outer_page hpath]
  exact congrArg (Except.map p.directory.page) hauthority

/-- A page stands on its server, behind names without slashes. -/
theorem IsPlain.standsOn (hpath : p.names ≠ []) {url : Url} (hurl : parse p.text = .ok url) :
    ∃ a directories file, StandsOn url p.schemeName a (directories ++ [file]) ∧
      (∀ n ∈ directories ++ [file], '/' ∉ n.toList) ∧ ∀ q ∈ url.query?, '/' ∉ q.toList := by
  obtain ⟨a, -, rfl⟩ := h.exists_authority hurl
  have hnames : p.names.map writeName =
      p.names.dropLast.map writeName ++ [writeName (p.names.getLast hpath)] := by
    rw [← List.map_singleton, ← List.map_append, List.dropLast_append_getLast hpath]
  refine ⟨a, p.names.dropLast.map writeName, writeName (p.names.getLast hpath),
    ⟨rfl, rfl, ?_, ?_⟩, ?_, ?_⟩
  · exact congrArg UrlPath.segments ((if_neg hpath).trans hnames)
  · rw [List.dropLast_concat]
    intro n hn
    obtain ⟨d, hd, rfl⟩ := List.mem_map.mp hn
    rw [writeName, String.toList_ofList]
    by_contra hdrive
    have hplain := beginsWithDrive_of_percentEncode (by simpa using hdrive)
    rw [h.drives d hd] at hplain
    exact absurd hplain Bool.false_ne_true
  · rw [← hnames]
    intro n hn
    obtain ⟨d, hd, rfl⟩ := List.mem_map.mp hn
    rw [writeName, String.toList_ofList]
    exact slash_not_mem_percentEncode (h.slash_not_mem (List.mem_cons_of_mem _ hd))
  · exact slash_not_mem_query fun hslash => (h.tail.2 '/' hslash).2 rfl

end

end PageText
end MarkupGraft.Url
