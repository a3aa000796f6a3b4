import MarkupGraft.Proofs.Link.PageText
import MarkupGraft.Template.Format

/-!
Links in pages of a server. The path of a document is cut to its directory before a link is resolved
against it. The URL of a page loses the slash behind its last directory in this way, and the directory is
taken for a page.
-/

namespace MarkupGraft.Format

/-- A link is selected as the URL that it has when it is resolved against a page. -/
def resolved (link : String) (page : Url) : Except TemplateError (Option (List Item)) :=
  ((page.join link).map fun url => some [Item.text url.toText]).mapError fun cause =>
    .invalidLink link (.url cause)

theorem resolved_eq_iff {link : String} {page other : Url} : resolved link page = resolved link other ↔
    (page.join link).map Url.toText = (other.join link).map Url.toText := by
  rw [resolved, resolved]
  cases page.join link <;> cases other.join link <;> simp [Except.map, Except.mapError]

/-- A link in a page is resolved against the directory of the page, which is written like a page itself.
It leads from there to where it leads from the page exactly if it leaves all directories of the page, so
that it leads to the same place from the root of the server. -/
theorem linkRelative_page {p : Url.PageText} (h : p.IsPlain) (hpath : p.names ≠ []) {url : Url}
    (hurl : Url.parse p.text = .ok url) (items : List Item)
    (habsolute : Url.isAbsolute (Item.concat items) = false)
    (hrooted : Path.isRooted (Item.concat items) = false) (env : Environment) :
    linkRelative.apply env p.text items = resolved (Item.concat items) url.outer ∧
      (linkRelative.apply env p.text items = resolved (Item.concat items) url ↔
        resolved (Item.concat items) url = resolved (Item.concat items) url.top) := by
  have hresult : linkRelative.apply env p.text items = resolved (Item.concat items) url.outer := by
    simp only [apply, Link.relative, habsolute, hrooted, h.parse_dir hpath hurl, Bool.or_self,
      Bool.false_eq_true, if_false, resolved]
    cases url.outer.join (Item.concat items) <;> rfl
  obtain ⟨authority, directories, file, hstands, hslash, hquery⟩ := h.standsOn hpath hurl
  refine ⟨hresult, ?_⟩
  rw [hresult, resolved_eq_iff, resolved_eq_iff]
  exact Url.joined_outer_iff h.scheme hstands (fun n hn => hslash n (List.mem_append_left _ hn))
    (hslash file (by simp)) hquery _

/-- A page in a directory, with a link to a page beside it, which is sought outside the directory, and
with a link out of the directory. -/
theorem linkRelative_page_blog :
    let env : Environment := { load := fun path => .error (.notFound path) }
    let text := "https://example.org:8080/blog/x.html?y"
    let url : Url := ⟨"https", some "example.org:8080", .segments ["blog", "x.html"], some "y", none⟩
    Url.parse text = .ok url ∧
      linkRelative.apply env text [.text "a.html"] =
        .ok (some [.text "https://example.org:8080/a.html"]) ∧
      linkRelative.apply env text [.text "a.html"] ≠ resolved "a.html" url ∧
      linkRelative.apply env text [.text "../", .text "a.html"] = resolved "../a.html" url := by
  intro env text url
  let p : Url.PageText := ⟨"https", "//", "example.org:8080", ["blog", "x.html"], "?y"⟩
  have hcharacters : ∀ part ∈ p.server :: p.names, part.toList.all Url.isPlain := by decide
  have hplain : p.IsPlain :=
    ⟨by decide, ⟨by decide, by simp [p]⟩, by decide, by decide, by decide,
      fun part hpart => List.all_eq_true.mp (hcharacters part hpart),
      ⟨by simp [p], by simp [p, Url.isControlOrSpace]⟩⟩
  have hurl : Url.parse p.text = .ok url := by decide +kernel
  have hbeside := linkRelative_page hplain (by decide) hurl [.text "a.html"] (by decide) (by decide) env
  have hjoin : url.outer.join "a.html" =
      .ok ⟨"https", some "example.org:8080", .segments ["a.html"], none, none⟩ := by decide
  refine ⟨hurl, ?_, ?_, ?_⟩
  · have hresolved : resolved "a.html" url.outer =
        .ok (some [.text "https://example.org:8080/a.html"]) := by
      rw [resolved, hjoin]
      rfl
    exact hbeside.1.trans hresolved
  · exact fun heq => absurd (resolved_eq_iff.mp (hbeside.2.mp heq)) (by decide)
  · have hout := linkRelative_page hplain (by decide) hurl [.text "../", .text "a.html"] (by decide)
      (by decide) env
    exact hout.2.mpr (resolved_eq_iff.mpr (by decide))

end MarkupGraft.Format
