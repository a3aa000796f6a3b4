import MarkupGraft.Proofs.Store.Serialization

/-!
Serialization is idempotent: a document that is written, read and written again is written alike. Its
names and texts may come back differently, but what they are written as does not change. A void
element without an end tag must not come of one with an end tag, which takes a child that is not lost.
-/

namespace MarkupGraft
open Markup (isVoidElement)
open MarkupGraft.Tree (normalizeAll rereadAll writeAll)

theorem Name.base_reread {s : Scope} (hs : s.Sound) {n : Name} (h : n.Settled s .element) :
    (n.reread s .element).base = n.base := by
  rcases Name.reread_eq hs h (by simp) with he | ⟨-, -, -, he⟩ <;> rw [he]

namespace Tree

mutual

/-- Whether no void element of a tree holds empty text and nothing else. -/
def Solid : Tree → Prop
  | .element name _ children =>
    (isVoidElement name.base → children ≠ [] → ∃ t ∈ children, t ≠ .text "") ∧ SolidAll children
  | _ => True

def SolidAll : List Tree → Prop
  | [] => True
  | tree :: trees => Solid tree ∧ SolidAll trees

end

theorem writeAll_prependText (mode : Markup.Mode) (verbatim : Bool) (s : Scope) (value : String)
    (ts : List Tree) : writeAll mode verbatim s (prependText value ts) =
      write mode verbatim s (.text value) ++ writeAll mode verbatim s ts := by
  unfold prependText
  split
  · rw [writeAll, writeAll, ← String.append_assoc]
    congr 1
    cases verbatim
    · exact Markup.escape_append _ _
    · rfl
  · split
    · rename_i hv
      subst hv
      cases verbatim <;> exact String.empty_append.symm
    · rfl

/-- Only empty text is dropped altogether. -/
theorem normalizeAll_ne_nil {ts : List Tree} {t : Tree} (ht : t ∈ ts) (hne : t ≠ .text "") :
    normalizeAll ts ≠ [] := by
  induction ts with
  | nil => cases ht
  | cons u us ih =>
    rw [normalizeAll]
    cases u with
    | text value =>
      intro he
      have hnil : prependText value (normalizeAll us) = [] := he
      unfold prependText at hnil
      split at hnil
      · cases hnil
      · split at hnil
        · rename_i hv
          subst hv
          have hus : t ∈ us := (List.mem_cons.mp ht).resolve_left hne
          exact ih hus hnil
        · cases hnil
    | _ => exact List.cons_ne_nil _ _

theorem mem_rereadAll {s : Scope} {ts : List Tree} {t : Tree} (h : t ∈ ts) :
    t.reread s ∈ rereadAll s ts := by
  induction ts with
  | nil => cases h
  | cons u us ih =>
    rw [rereadAll, List.mem_cons]
    rcases List.mem_cons.mp h with rfl | h
    · exact .inl rfl
    · exact .inr (ih h)

private theorem reread_ne_text {s : Scope} {t : Tree} (h : t ≠ .text "") :
    t.reread s ≠ .text "" := by
  cases t with
  | element => exact fun he => by cases he
  | _ => exact h

/-- What is read of readable trees is written as the trees. -/
theorem writeAll_reread {mode : Markup.Mode} {ts : List Tree} {s : Scope} (hs : s.Sound)
    (hr : ReadableAll mode s ts) (hsolid : SolidAll ts) (verbatim : Bool) :
    writeAll mode verbatim s (normalizeAll (rereadAll s ts)) = writeAll mode verbatim s ts := by
  induction ts using forest_induction generalizing s verbatim with
  | nil => rfl
  | element name attributes children ts ihc iht =>
    obtain ⟨⟨hvoid, hinside⟩, hsts⟩ := hsolid
    have hsound := sound_declare hs hr.attributes.declared
    have hempty : ((normalizeAll (rereadAll (declare s attributes) children)).isEmpty &&
        isVoidElement name.base) = (children.isEmpty && isVoidElement name.base) := by
      by_cases hv : isVoidElement name.base ∧ children ≠ []
      · obtain ⟨t, ht, hne⟩ := hvoid hv.1 hv.2
        have hkept : normalizeAll (rereadAll (declare s attributes) children) ≠ [] :=
          normalizeAll_ne_nil (mem_rereadAll ht) (reread_ne_text hne)
        rw [List.isEmpty_eq_false_iff.mpr hkept, List.isEmpty_eq_false_iff.mpr hv.2]
      · rw [not_and_not_right] at hv
        by_cases hvoid : isVoidElement name.base
        · rw [hv hvoid]
          rfl
        · simp [hvoid]
    have hread : normalizeAll (rereadAll s (.element name attributes children :: ts)) =
        .element (name.reread (declare s attributes) .element) attributes
            (normalizeAll (rereadAll (declare s attributes) children)) ::
          normalizeAll (rereadAll s ts) := rfl
    have hverbatim : isVerbatim mode (name.reread (declare s attributes) .element) =
        isVerbatim mode name := by
      rw [isVerbatim, Name.base_reread hsound hr.name]
      rfl
    rw [hread, writeAll, writeAll, iht hs hr.tail hsts]
    apply congrArg (· ++ _)
    rw [write, write]
    simp only [Name.written_reread hsound hr.name, Name.base_reread hsound hr.name, hempty, hverbatim,
      ihc hsound hr.inside hinside]
  | text value ts ih =>
    have hnormalize : normalizeAll (rereadAll s (.text value :: ts)) =
        prependText value (normalizeAll (rereadAll s ts)) := rfl
    rw [hnormalize, writeAll_prependText, ih hs hr.tail hsolid.2]
    rfl
  | comment value ts ih | instruction value ts ih | doctype value ts ih =>
    apply congrArg (_ ++ ·)
    exact ih hs hr.tail hsolid.2 verbatim

end Tree

namespace Document
variable {d : Document}

/-- A document that has been read has its nodes from the markup, and nothing else. -/
theorem eq_ofNodes_of_parse {id : Nat} {mode : Markup.Mode} {input : Bytes}
    (h : parse id mode input = .ok d) : d = ofNodes id mode d.nodes := by
  unfold parse at h
  cases ht : Markup.tokenize mode input with
  | error e =>
    rw [ht] at h
    cases h
  | ok tokens =>
    rw [ht] at h
    cases h
    rw [nodes_ofNodes]

theorem kept_of_parse {id : Nat} {mode : Markup.Mode} {input : Bytes}
    (h : parse id mode input = .ok d) : d.mode = mode ∧ d.inherited = {} := by
  rw [eq_ofNodes_of_parse h]
  exact ⟨rfl, rfl⟩

/-- A document that is read is the one of the nodes that are read. -/
theorem parse_eq_ofNodes {id : Nat} {mode : Markup.Mode} {input : Bytes} {nodes : List Node}
    (h : (parse id mode input).toOption.map Document.nodes = some nodes) :
    parse id mode input = .ok (ofNodes id mode nodes) := by
  cases hp : parse id mode input with
  | error e =>
    rw [hp] at h
    cases h
  | ok d =>
    rw [hp] at h
    rw [eq_ofNodes_of_parse hp, Option.some.inj h]

/-- A document that inherits nothing is written as its trees. -/
theorem toBytes_eq (h : d.inherited = {}) :
    d.toBytes = Text.encode (writeAll d.mode false .base d.trees) := by
  rw [toBytes, markup, h]
  rfl

/-- The comments, instructions and document type declarations of a document that has been read are
legible, where no byte-order mark made the reader cut them from the wrong place. -/
theorem legible_of_parse {id : Nat} {mode : Markup.Mode} {input : Bytes}
    (h : parse id mode input = .ok d) (hm : ¬Markup.Reader.startsWithMark input) :
    ∀ n ∈ Tree.listingAll d.trees, Tree.LegibleLeaf n := by
  have w : d.WellFormed := (wellFormed_parse h).1
  intro n hn
  apply Tree.legibleLeaf_of_isVerbatim
  intro hv
  have hnodes : n ∈ d.nodes := by
    rw [w.nodes_eq]
    simp [hn]
  have hproduced : n.Produced := ⟨id, mode, input, d, hm, h, hnodes⟩
  exact hproduced.legible hv

/-- A document that has been read and is written is read again, and is then written alike. -/
theorem toBytes_stable {id : Nat} {mode : Markup.Mode} {input : Bytes}
    (h : parse id mode input = .ok d) (hinput : ¬Markup.Reader.startsWithMark input)
    (hr : Tree.ReadableAll mode .base d.trees) (hs : Tree.SolidAll d.trees)
    (hbytes : ¬Markup.Reader.startsWithMark d.toBytes) (id' : Nat) :
    ∃ d', parse id' mode d.toBytes = .ok d' ∧ d'.toBytes = d.toBytes := by
  obtain ⟨hmode, hinherited⟩ := kept_of_parse h
  have hwritten : d.toBytes = Text.encode (writeAll mode false .base d.trees) := by
    rw [toBytes_eq hinherited, hmode]
  obtain ⟨d', hd', htrees, -⟩ :=
    Tree.parse_writeAll hr (legible_of_parse h hinput) hwritten hbytes id'
  obtain ⟨hmode', hinherited'⟩ := kept_of_parse hd'
  refine ⟨d', hd', ?_⟩
  rw [toBytes_eq hinherited', hmode', htrees, Tree.writeAll_reread Scope.sound_base hr hs, hwritten]

/-- A document with a key twice, an ampersand that begins no reference, a void element, a stray end tag,
raw text, and an element that is never closed. -/
private def lenient : Bytes :=
  Text.encode "<p k=1 k=2>x & y<br>y</q>z<script>a<b</script>"

theorem toBytes_stable_lenient : ∃ d d', parse 0 .html lenient = .ok d ∧
    parse 1 .html d.toBytes = .ok d' ∧ d'.toBytes = d.toBytes ∧
      d.markup = "<p k=\"1\" k=\"2\">x &amp; y<br/>yz<script>a<b</script></p>" := by
  have hd : parse 0 .html lenient = .ok (ofNodes 0 .html
      [.document, .element (.plain "p"), .attribute (.plain "k") "1", .attribute (.plain "k") "2",
        .text "x & y", .element (.plain "br"), .finish, .text "y", .text "z",
        .element (.plain "script"), .text "a<b", .finish, .finish, .finish]) :=
    parse_eq_ofNodes (by decide +kernel)
  obtain ⟨d, hnodes, hd⟩ : ∃ d : Document, d.nodes = _ ∧ parse 0 .html lenient = .ok d :=
    ⟨_, nodes_ofNodes .., hd⟩
  have htrees : d.trees = [.element (.plain "p") [(.plain "k", "1"), (.plain "k", "2")]
      [.text "x & y", .element (.plain "br") [] [], .text "y", .text "z",
        .element (.plain "script") [] [.text "a<b"]]] := by
    rw [trees, hnodes]
    rfl
  have hmarkup : d.toBytes = Text.encode
      "<p k=\"1\" k=\"2\">x &amp; y<br/>yz<script>a<b</script></p>" := by
    obtain ⟨hmode, hinherited⟩ := kept_of_parse hd
    rw [toBytes_eq hinherited, hmode, htrees]
    decide +kernel
  have hplain {role : NameRole} {base : String} (h : Name.isColonFree base) :
      Name.Settled .base role (.plain base) := ⟨isNamePart_of_isColonFree h, .inl rfl⟩
  have hkeys : Tree.AttributesSettled .html .base [(.plain "k", "1"), (.plain "k", "2")] :=
    ⟨by simp [Name.declares?, Name.plain], by simpa using fun _ => hplain (by decide), by simp⟩
  have hnone : Tree.AttributesSettled .html .base [] := ⟨by simp, by simp, by simp⟩
  have hr : Tree.ReadableAll .html .base d.trees := by
    rw [htrees]
    refine ⟨⟨⟨hplain (by decide), hkeys, trivial, ?_, trivial, trivial, ?_, trivial⟩, trivial⟩, ?_⟩
    · exact ⟨hplain (by decide), hnone, trivial⟩
    · exact ⟨hplain (by decide), hnone, trivial, trivial⟩
    · exact fun _ => ⟨⟨⟨by decide +kernel, by decide +kernel⟩, trivial,
        ⟨⟨by decide +kernel, by decide +kernel⟩, trivial⟩, trivial, trivial,
        ⟨⟨by decide +kernel, by decide +kernel⟩, trivial, trivial⟩, trivial⟩, trivial⟩
  have hs : Tree.SolidAll d.trees := by
    rw [htrees]
    simp [Tree.SolidAll, Tree.Solid, isVoidElement, Name.plain]
  obtain ⟨d', hd', hsame⟩ := toBytes_stable hd (by decide) hr hs (by rw [hmarkup]; decide) 1
  refine ⟨d, d', hd, hd', hsame, ?_⟩
  exact Text.encode_injective hmarkup

-- The end tag is lost with the empty text that stood in front of it.
example : ((parse 0 .xml (Text.encode "<br><![CDATA[]]></br>")).toOption.map markup,
    (parse 0 .xml (Text.encode "<br></br>")).toOption.map markup) =
      (some "<br></br>", some "<br/>") := by decide +kernel

end Document
end MarkupGraft
