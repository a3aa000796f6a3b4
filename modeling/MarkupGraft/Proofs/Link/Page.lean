import MarkupGraft.Proofs.Link.Draft
import MarkupGraft.Proofs.Link.Scheme

/-!
Pages of a server. What a reference makes of the page that it is resolved against is the same for all
pages of a server: it leads elsewhere, or stays on the page, or leaves some directories and goes along
names of its own. So two pages can be told apart by a reference only where it leaves a directory of the
one and not of the other.
-/

namespace MarkupGraft.Url

/-- What a reference makes of a page. -/
inductive Effect where
  | elsewhere (result : Except UrlError Url)
  | samePage (tail : Tail)
  /-- Leaves the page and some directories, and goes along names. -/
  | beside (up : Nat) (names : List String) (tail : Tail)

/-- The effect on a page with the given names in its path. -/
def Effect.on (u : Url) (names : List String) : Effect → Except UrlError Url
  | elsewhere result => result
  | samePage tail =>
    .ok { u with query? := tail.query?.or u.query?, fragment? := tail.fragment? }
  | beside up own tail =>
    .ok ⟨u.scheme, u.authority?, .segments (names.dropLast.rdrop up ++ own), tail.query?,
      tail.fragment?⟩

/-- A URL is a page of a server, in directories that a path can lead out of. -/
structure StandsOn (u : Url) (scheme authority : String) (names : List String) : Prop where
  scheme_eq : u.scheme = scheme
  authority_eq : u.authority? = some authority
  path_eq : u.path = .segments names
  clear : ∀ n ∈ names.dropLast, beginsWithDrive n.toList = false

private theorem ofBase_eq {rules : PathRules} (hrules : rules.drives = false)
    (names : List String) :
    Draft.ofBase rules names = [] :: (names.dropLast.reverse.map String.toList) := by
  rw [Draft.ofBase, ← List.tail_reverse]
  cases names.reverse <;> simp [Draft.root, hrules]

private theorem finish_eq {rules : PathRules} (hrules : rules.drives = false)
    (own : List (List Char)) (names : List String) (k : Nat) :
    Draft.finish rules (own ++ (names.reverse.map String.toList).drop k) =
      .segments (names.rdrop k ++ own.reverse.map String.ofList) := by
  rw [Draft.finish, hrules, List.rdrop_eq_reverse_drop_reverse, ← List.map_drop]
  simp

section
variable {scheme : String} (hscheme : hasHostScheme scheme)
include hscheme

theorem ne_file_of_hasHostScheme : scheme ≠ "file" := by
  rintro rfl
  exact absurd hscheme (by decide)

theorem rulesOf_eq : rulesOf scheme = ⟨true, false⟩ := by
  rw [rulesOf, hscheme, decide_eq_false (ne_file_of_hasHostScheme hscheme)]
  rfl

theorem StandsOn.resolve_eq {u : Url} {authority : String} {names : List String}
    (h : StandsOn u scheme authority names) (text : List Char) :
    u.resolve text = resolveOnServer u names text := by
  rw [resolve, h.path_eq]
  exact if_neg (h.scheme_eq ▸ ne_file_of_hasHostScheme hscheme)

theorem exists_effect_resolve (authority : String) (text : List Char) : ∃ effect : Effect,
    ∀ u names, StandsOn u scheme authority names → u.resolve text = effect.on u names := by
  cases hsplit : splitTail true text with
  | mk path tail =>
  have hresolve {u : Url} {names : List String} (h : StandsOn u scheme authority names) :=
    h.resolve_eq hscheme text
  cases hslashes : path.takeWhile (isSlash true) with
  | nil =>
    by_cases hpath : path.isEmpty
    · refine ⟨.samePage tail, fun u names h => ?_⟩
      rw [hresolve h, resolveOnServer, h.scheme_eq, rulesOf_eq hscheme]
      simp only [hsplit, hslashes, hpath, if_true, Effect.on, h.scheme_eq]
    · obtain ⟨own, k, hfollow⟩ := @Draft.exists_follow_eq ⟨true, false⟩ rfl path
      refine ⟨.beside k (own.reverse.map String.ofList) tail, fun u names h => ?_⟩
      have hclear : Draft.IsClear (names.dropLast.reverse.map String.toList) := by
        intro name hname
        obtain ⟨n, hn, rfl⟩ := List.mem_map.mp hname
        exact h.clear n (List.mem_reverse.mp hn)
      rw [hresolve h, resolveOnServer, h.scheme_eq, rulesOf_eq hscheme]
      simp only [hsplit, hslashes, hpath, ofBase_eq, hfollow _ hclear, finish_eq]
      simp [Effect.on, h.scheme_eq, make]
  | cons c slashes =>
    cases slashes with
    | nil =>
      refine ⟨.elsewhere (.ok (make scheme (some authority)
        ((Draft.root.follow ⟨true, false⟩ (path.drop 1)).finish ⟨true, false⟩) tail)),
        fun u names h => ?_⟩
      rw [hresolve h, resolveOnServer, h.scheme_eq, rulesOf_eq hscheme]
      simp only [hsplit, hslashes, h.authority_eq, Effect.on]
    | cons d slashes =>
      refine ⟨.elsewhere (if ['/', '/'].isPrefixOf path then afterSlashes scheme (text.drop 2)
        else afterSlashes scheme (text.dropWhile (isSlash true))), fun u names h => ?_⟩
      rw [hresolve h, resolveOnServer, h.scheme_eq, rulesOf_eq hscheme]
      simp only [hsplit, hslashes, Effect.on]

/-- A reference does the same to all pages of a server. -/
theorem exists_effect (authority link : String) : ∃ effect : Effect,
    ∀ u names, StandsOn u scheme authority names → u.join link = effect.on u names := by
  cases hsplit : splitScheme? (trimmed link) with
  | none =>
    obtain ⟨effect, heffect⟩ := exists_effect_resolve hscheme authority (trimmed link)
    refine ⟨effect, fun u names h => ?_⟩
    rw [← heffect u names h, join]
    simp only [hsplit]
  | some parts =>
    obtain ⟨other, rest⟩ := parts
    cases hrelative : decide (other = scheme) && (decide (other = "file") || hasHostScheme other &&
      decide ((rest.takeWhile (isSlash true)).length < 2)) with
    | true =>
      obtain ⟨effect, heffect⟩ := exists_effect_resolve hscheme authority rest
      refine ⟨effect, fun u names h => ?_⟩
      rw [← heffect u names h, join]
      simp only [hsplit, h.scheme_eq, hrelative, if_true]
    | false =>
      refine ⟨.elsewhere (afterScheme other rest), fun u names h => ?_⟩
      rw [join]
      simp only [hsplit, h.scheme_eq, hrelative, Bool.false_eq_true, if_false, Effect.on]

end

/-! Texts -/

theorem text_segments_cons (name : String) (names : List String) :
    (UrlPath.segments (name :: names)).text = "/" ++ name ++ (UrlPath.segments names).text := by
  cases names with
  | nil =>
    have htext : (UrlPath.segments [name]).text = "".intercalate ["/" ++ name] := rfl
    rw [htext, String.intercalate_singleton]
    exact String.append_empty.symm
  | cons next names =>
    have htext : (UrlPath.segments (name :: next :: names)).text =
        "".intercalate (("/" ++ name) :: ("/" ++ next) :: names.map ("/" ++ ·)) := rfl
    rw [htext, String.intercalate_cons_cons, String.append_empty]
    rfl

theorem text_segments_append (names more : List String) :
    (UrlPath.segments (names ++ more)).text =
      (UrlPath.segments names).text ++ (UrlPath.segments more).text := by
  induction names with
  | nil => exact String.empty_append.symm
  | cons name names ih =>
    rw [List.cons_append, text_segments_cons, text_segments_cons, ih]
    simp only [String.append_assoc]

theorem text_segments_eq {names : List String} (hne : names ≠ []) :
    (UrlPath.segments names).text = "/" ++ "/".intercalate names := by
  induction names with
  | nil => exact absurd rfl hne
  | cons name names ih =>
    rw [text_segments_cons]
    cases names with
    | nil =>
      rw [String.intercalate_singleton]
      exact String.append_empty
    | cons next names =>
      rw [ih (List.cons_ne_nil next names), String.intercalate_cons_cons]
      simp only [String.append_assoc]

/-- The text of a path shows its names. -/
theorem segments_text {names : List String} (h : ∀ n ∈ names, '/' ∉ n.toList) :
    Path.segments (UrlPath.segments names).text = "" :: names := by
  by_cases hne : names = []
  · subst hne
    rfl
  · rw [text_segments_eq hne, Path.segments_of_slash, Path.segments_intercalate hne h]

theorem text_segments_inj {names others : List String} (h : ∀ n ∈ names, '/' ∉ n.toList)
    (hothers : ∀ n ∈ others, '/' ∉ n.toList) :
    (UrlPath.segments names).text = (UrlPath.segments others).text ↔ names = others := by
  refine ⟨fun htext => ?_, fun heq => by rw [heq]⟩
  have hsegments := congrArg Path.segments htext
  rw [segments_text h, segments_text hothers] at hsegments
  exact (List.cons.inj hsegments).2

/-! Effects that differ -/

theorem toText_beside_iff {scheme authority : String} {names others own : List String} {tail : Tail}
    (h : ∀ n ∈ names, '/' ∉ n.toList) (hothers : ∀ n ∈ others, '/' ∉ n.toList) :
    toText ⟨scheme, some authority, .segments (names ++ own), tail.query?, tail.fragment?⟩ =
      toText ⟨scheme, some authority, .segments (others ++ own), tail.query?, tail.fragment?⟩ ↔
      names = others := by
  rw [← text_segments_inj h hothers, toText, toText]
  simp [text_segments_append, String.append_assoc, String.append_right_inj, String.append_left_inj]

/-- A page without a query, and one with one and a name in front of it. -/
theorem length_eq_of_toText_samePage {scheme authority : String} {names directories : List String}
    {file : String} {query? : Option String} {tail : Tail} (h : ∀ n ∈ names, '/' ∉ n.toList)
    (hdirectories : ∀ n ∈ directories, '/' ∉ n.toList) (hfile : '/' ∉ file.toList)
    (hquery : ∀ q ∈ query?, '/' ∉ q.toList)
    (htext : toText ⟨scheme, some authority, .segments names, tail.query?, tail.fragment?⟩ =
      toText ⟨scheme, some authority, .segments (directories ++ [file]), tail.query?.or query?,
        tail.fragment?⟩) : names.length = directories.length + 1 := by
  -- Without a query of its own the reference keeps that of the page, behind the last name.
  obtain ⟨rest, hrest, hnames⟩ : ∃ rest, '/' ∉ rest.toList ∧
      (UrlPath.segments names).text = (UrlPath.segments (directories ++ [file ++ rest])).text := by
    rw [toText, toText] at htext
    cases hown : tail.query? with
    | some q =>
      refine ⟨"", by simp, ?_⟩
      simpa [hown, String.append_assoc, String.append_right_inj, String.append_left_inj] using htext
    | none =>
      refine ⟨(query?.map ("?" ++ ·)).getD "", ?_, ?_⟩
      · cases query? with
        | none => simp
        | some q => simpa using hquery q rfl
      · rw [text_segments_append, text_segments_cons] at htext ⊢
        refine (String.append_left_inj ((tail.fragment?.map ("#" ++ ·)).getD "")).mp ?_
        simpa [hown, String.append_assoc, String.append_right_inj, String.append_left_inj,
          UrlPath.text] using htext
  rw [text_segments_inj h] at hnames
  · rw [hnames]
    simp
  · intro n hn
    rcases List.mem_append.mp hn with hn | hn
    · exact hdirectories n hn
    · rw [List.mem_singleton.mp hn]
      simp [hfile, hrest]

/-! The directory of a page -/

/-- The page of the root of a server. -/
def top (u : Url) : Url := { u with path := .segments [""], query? := none, fragment? := none }

/-- The directory of a page, written without its slash and without empty names, so that it is a page in
the next outer directory. -/
def outer (u : Url) : Url :=
  match u.path with
  | .opaquePath _ => u
  | .segments names =>
    let directories := names.dropLast.filter (· ≠ "")
    { u with
      path := .segments (if directories.isEmpty then [""] else directories)
      query? := none, fragment? := none }

theorem StandsOn.top_eq {u : Url} {scheme authority : String} {names : List String}
    (h : StandsOn u scheme authority names) :
    u.top = ⟨scheme, some authority, .segments [""], none, none⟩ := by
  rw [top, h.scheme_eq, h.authority_eq]

theorem StandsOn.outer_eq {u : Url} {scheme authority : String} {names : List String}
    (h : StandsOn u scheme authority names) :
    u.outer = ⟨scheme, some authority, .segments (if (names.dropLast.filter (· ≠ "")).isEmpty
      then [""] else names.dropLast.filter (· ≠ "")), none, none⟩ := by
  rw [outer, h.path_eq, ← h.scheme_eq, ← h.authority_eq]

/-- Of a list with fewer elements one more is left only when nothing is left of either. -/
private theorem rdrop_dropLast_iff {few many : List String} (hne : few ≠ [])
    (h : few.length ≤ many.length) (k : Nat) :
    few.dropLast.rdrop k = many.rdrop k ↔ many.rdrop k = [] := by
  have hpos := List.length_pos_iff.mpr hne
  have hlength (l : List String) : (l.rdrop k).length = l.length - k := by
    simp [List.rdrop, List.length_take]
  constructor
  · intro heq
    have hlengths := congrArg List.length heq
    rw [hlength, hlength, List.length_dropLast] at hlengths
    exact List.length_eq_zero_iff.mp (by rw [hlength]; omega)
  · intro hnone
    have hmany := congrArg List.length hnone
    rw [hlength, List.length_nil] at hmany
    rw [hnone]
    exact List.length_eq_zero_iff.mp (by rw [hlength, List.length_dropLast]; omega)

/-- A reference leads from a page to where it leads from the directory of the page exactly if that is
where it leads from the root. -/
theorem joined_outer_iff {u : Url} {scheme authority file : String} {directories : List String}
    (hscheme : hasHostScheme scheme) (h : StandsOn u scheme authority (directories ++ [file]))
    (hdirectories : ∀ n ∈ directories, '/' ∉ n.toList) (hfile : '/' ∉ file.toList)
    (hquery : ∀ q ∈ u.query?, '/' ∉ q.toList) (link : String) :
    (u.outer.join link).map toText = (u.join link).map toText ↔
      (u.join link).map toText = (u.top.join link).map toText := by
  by_cases hnone : directories.filter (· ≠ "") = []
  · have houter : u.outer = u.top := by
      rw [h.outer_eq, h.top_eq, List.dropLast_concat, hnone]
      rfl
    rw [houter]
    exact eq_comm
  · have houter : u.outer =
        ⟨scheme, some authority, .segments (directories.filter (· ≠ "")), none, none⟩ := by
      rw [h.outer_eq, List.dropLast_concat, if_neg (mt List.isEmpty_iff.mp hnone)]
    have hfilter {n : String} (hn : n ∈ directories.filter (· ≠ "")) : n ∈ directories :=
      (List.mem_filter.mp hn).1
    have hlength := List.length_filter_le (fun n : String => n ≠ "") directories
    have hclear := h.clear
    rw [List.dropLast_concat] at hclear
    obtain ⟨effect, heffect⟩ := exists_effect hscheme authority link
    rw [heffect u _ h, houter, h.top_eq,
      heffect _ (directories.filter (· ≠ "")) ⟨rfl, rfl, rfl, fun n hn =>
        hclear n (hfilter ((List.dropLast_sublist _).subset hn))⟩,
      heffect _ [""] ⟨rfl, rfl, rfl, by simp⟩]
    cases effect with
    | elsewhere result => exact iff_of_true rfl rfl
    | samePage tail =>
      rw [Effect.on, Effect.on, Effect.on, h.scheme_eq, h.authority_eq, h.path_eq]
      refine iff_of_false (fun heq => ?_) (fun heq => ?_)
      · have := length_eq_of_toText_samePage (fun n hn => hdirectories n (hfilter hn)) hdirectories
          hfile hquery (by simpa using Except.ok.inj heq)
        omega
      · have hroot := @length_eq_of_toText_samePage _ _ [""] _ _ _ _ (by simp) hdirectories hfile
          hquery (by simpa using (Except.ok.inj heq).symm)
        have hnil : directories = [] := by simpa using hroot
        exact hnone (by rw [hnil]; rfl)
    | beside up own tail =>
      have hbeside {names others : List String} (hnames : names ⊆ directories)
          (hothers : others ⊆ directories) :
          (Except.ok ⟨scheme, some authority, .segments (names ++ own), tail.query?,
              tail.fragment?⟩ : Except UrlError Url).map toText =
            (Except.ok ⟨scheme, some authority, .segments (others ++ own), tail.query?,
              tail.fragment?⟩ : Except UrlError Url).map toText ↔ names = others := by
        rw [Except.map, Except.map, Except.ok.injEq]
        exact toText_beside_iff (fun n hn => hdirectories n (hnames hn))
          fun n hn => hdirectories n (hothers hn)
      have hleft (l : List String) : l.rdrop up ⊆ l := List.take_subset _ l
      have hroot : [""].dropLast.rdrop up = ([] : List String) := by simp [List.rdrop]
      rw [Effect.on, Effect.on, Effect.on, h.scheme_eq, h.authority_eq, List.dropLast_concat,
        hbeside (fun n hn => hfilter ((List.dropLast_sublist _).subset (hleft _ hn))) (hleft _),
        hbeside (hleft _) (by rw [hroot]; exact List.nil_subset _), hroot]
      exact rdrop_dropLast_iff hnone hlength up

end MarkupGraft.Url
