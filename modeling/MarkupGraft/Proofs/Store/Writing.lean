import MarkupGraft.Proofs.Markup.Tokens
import MarkupGraft.Proofs.Store.Binding
import MarkupGraft.Proofs.Store.Numbering
import MarkupGraft.Store.Reading

/-!
Trees written as markup and read back. What a tree is written as is the markup of a token sequence,
and reading that sequence gives the nodes of the tree with its text joined. In HTML this takes
elements whose tags tell what they are: void elements are empty, and raw-text elements hold text that
does not end them.
-/

namespace MarkupGraft
namespace Tree
open Markup (TokenForm isRawTextElement isVoidElement)

/-! Joined text -/

/-- Puts text in front of trees. -/
def prependText (value : String) : List Tree → List Tree
  | .text next :: trees => .text (value ++ next) :: trees
  | trees => if value = "" then trees else .text value :: trees

def prependTree : Tree → List Tree → List Tree
  | .text value, trees => prependText value trees
  | tree, trees => tree :: trees

mutual

/-- A tree with the text inside it joined. -/
def normalize : Tree → Tree
  | .element name attributes children => .element name attributes (normalizeAll children)
  | tree => tree

/-- Merges adjacent text and drops empty text, at all depths. -/
def normalizeAll : List Tree → List Tree
  | [] => []
  | tree :: trees => prependTree (normalize tree) (normalizeAll trees)

end

/-! What can be read back -/

def isText : Tree → Bool
  | .text _ => true
  | _ => false

/-- The text of a run of text. -/
def joinedText : List Tree → String
  | [] => ""
  | .text value :: trees => value ++ joinedText trees
  | _ :: trees => joinedText trees

/-- Whether an element is in HTML what its tag tells. -/
structure ShapedAs (tag : String) (name : Name) (children : List Tree) : Prop where
  void : isVoidElement tag → children = []
  raw : isRawTextElement name.base →
    tag = name.base ∧ (∀ t ∈ children, t.isText) ∧ Markup.IsRawText tag (joinedText children)

/-- Whether a node that is kept as it stands is read back from its markup. -/
def LegibleLeaf : Node → Prop
  | .comment value => TokenForm.Legible (.comment value)
  | .instruction value => TokenForm.Legible (.instruction value)
  | .doctype value => TokenForm.Legible (.doctype value)
  | _ => True

mutual

/-- Whether the names of a tree that is written where `s` is in scope are read back, but for those of
elements in no namespace, which take the default one. -/
def Settled (mode : Markup.Mode) (s : Scope) : Tree → Prop
  | .element name attributes children =>
    name.Settled (declare s attributes) .element ∧
      AttributesSettled mode (declare s attributes) attributes ∧
        SettledAll mode (declare s attributes) children
  | _ => True

def SettledAll (mode : Markup.Mode) (s : Scope) : List Tree → Prop
  | [] => True
  | tree :: trees => Settled mode s tree ∧ SettledAll mode s trees

end

mutual

/-- Whether all elements of a tree that is written where `s` is in scope are in HTML what their tags
tell. -/
def Shaped (s : Scope) : Tree → Prop
  | .element name attributes children =>
    ShapedAs (name.written (declare s attributes) .element) name children ∧
      ShapedAll (declare s attributes) children
  | _ => True

def ShapedAll (s : Scope) : List Tree → Prop
  | [] => True
  | tree :: trees => Shaped s tree ∧ ShapedAll s trees

end

/-- Whether trees are read back as they are written. Only HTML goes by what tags tell. -/
structure ReadableAll (mode : Markup.Mode) (s : Scope) (ts : List Tree) : Prop where
  settled : SettledAll mode s ts
  shaped : mode = .html → ShapedAll s ts

namespace ReadableAll
variable {mode : Markup.Mode} {s : Scope} {ts : List Tree}

theorem tail {t : Tree} (h : ReadableAll mode s (t :: ts)) : ReadableAll mode s ts :=
  ⟨h.settled.2, fun hm => (h.shaped hm).2⟩

section
variable {n : Name} {written : List (Name × String)} {children : List Tree}
  (h : ReadableAll mode s (.element n written children :: ts))
include h

theorem name : n.Settled (declare s written) .element := h.settled.1.1

theorem attributes : AttributesSettled mode (declare s written) written := h.settled.1.2.1

theorem shapedAs (hm : mode = .html) :
    ShapedAs (n.written (declare s written) .element) n children := (h.shaped hm).1.1

theorem inside : ReadableAll mode (declare s written) children :=
  ⟨h.settled.1.2.2, fun hm => (h.shaped hm).1.2⟩

end

end ReadableAll

mutual

/-- A tree with the names of its elements as they are read back. -/
def reread (s : Scope) : Tree → Tree
  | .element name attributes children =>
    .element (name.reread (declare s attributes) .element) attributes
      (rereadAll (declare s attributes) children)
  | tree => tree

def rereadAll (s : Scope) : List Tree → List Tree
  | [] => []
  | tree :: trees => reread s tree :: rereadAll s trees

end

/-! Tokens -/

/-- The tokens of what stands inside a raw-text element. -/
def rawForms (children : List Tree) : List TokenForm := [.text (joinedText children)]

mutual

/-- The tokens that a tree is written as where `s` is in scope. -/
def forms (mode : Markup.Mode) (s : Scope) : Tree → List TokenForm
  | .element name attributes children =>
    let inner := declare s attributes
    let tag := name.written inner .element
    let written := writtenAttributes inner attributes
    if children.isEmpty && isVoidElement name.base then [.emptyTag tag written]
    else if isVerbatim mode name then .startTag tag written :: (rawForms children ++ [.endTag tag 1])
    else .startTag tag written :: (formsAll mode inner children ++ [.endTag tag 1])
  | .text value => [.text value]
  | .comment value => [.comment value]
  | .instruction value => [.instruction value]
  | .doctype value => [.doctype value]

def formsAll (mode : Markup.Mode) (s : Scope) : List Tree → List TokenForm
  | [] => []
  | tree :: trees => forms mode s tree ++ formsAll mode s trees

end

theorem attributesMarkup_written (s : Scope) (attributes : List (Name × String)) :
    "".intercalate (attributes.map fun (name, value) => " " ++ writeAttribute s name value) =
      Markup.attributesMarkup (writtenAttributes s attributes) := by
  rw [Markup.attributesMarkup, writtenAttributes, List.map_map]
  refine congrArg _ (List.map_congr_left fun a _ => ?_)
  simp [writeAttribute, Markup.Attribute.markup, String.append_assoc]

/-! Raw text -/

theorem writeAll_text {mode : Markup.Mode} {s : Scope} {ts : List Tree} (h : ∀ t ∈ ts, t.isText) :
    writeAll mode true s ts = joinedText ts := by
  induction ts with
  | nil => rfl
  | cons t ts ih =>
    obtain ⟨ht, hts⟩ := List.forall_mem_cons.mp h
    cases t with
    | text value =>
      rw [writeAll, ih hts]
      rfl
    | _ => cases ht

theorem rereadAll_text {s : Scope} {ts : List Tree} (h : ∀ t ∈ ts, t.isText) :
    rereadAll s ts = ts := by
  induction ts with
  | nil => rfl
  | cons t ts ih =>
    obtain ⟨ht, hts⟩ := List.forall_mem_cons.mp h
    cases t with
    | text value =>
      rw [rereadAll, ih hts]
      rfl
    | _ => cases ht

theorem normalizeAll_text {ts : List Tree} (h : ∀ t ∈ ts, t.isText) :
    normalizeAll ts = if joinedText ts = "" then [] else [.text (joinedText ts)] := by
  induction ts with
  | nil => rfl
  | cons t ts ih =>
    obtain ⟨ht, hts⟩ := List.forall_mem_cons.mp h
    cases t with
    | text value =>
      have hnormalize : normalizeAll (.text value :: ts) = prependText value (normalizeAll ts) := rfl
      rw [hnormalize, ih hts, joinedText]
      by_cases hj : joinedText ts = "" <;> simp [hj, prependText]
    | _ => cases ht

/-! Tags -/

private theorem written_of_mem {s : Scope} {role : NameRole} {n : Name} {names : List String}
    (hnames : ∀ name ∈ names, ':' ∉ name.toList)
    (h : Markup.foldCase (n.written s role) ∈ names) : n.written s role = n.base := by
  unfold Name.written at h ⊢
  split
  · rename_i mark hp
    rw [hp] at h
    refine absurd ?_ (hnames _ h)
    simp only [Markup.foldCase, String.toList_map, List.mem_map]
    exact ⟨':', by simp, rfl⟩
  · rfl

/-- A void element is written without a prefix, as far as its tag tells. -/
theorem written_of_isVoidElement {s : Scope} {n : Name}
    (h : isVoidElement (n.written s .element)) : n.written s .element = n.base :=
  written_of_mem (by decide) (List.contains_iff_mem.mp h)

theorem written_of_isRawTextElement {s : Scope} {n : Name}
    (h : isRawTextElement (n.written s .element)) : n.written s .element = n.base :=
  written_of_mem (by decide) (List.contains_iff_mem.mp h)

section
variable {mode : Markup.Mode} {s : Scope} {name : Name} {attributes : List (Name × String)}
  {children : List Tree}

/-- What an element opens for the reader, where it has a start tag. -/
private theorem opensRaw?_startTag (attributes : List (Name × String)) {tag : String}
    (htag : name.written s .element = tag)
    (h : mode = .html → ShapedAs tag name children) :
    TokenForm.opensRaw? mode (.startTag tag (writtenAttributes s attributes)) =
      if isVerbatim mode name then some tag else none := by
  subst htag
  rw [TokenForm.opensRaw?, isVerbatim]
  by_cases hm : mode = .html
  · have hiff : isRawTextElement (name.written s .element) = isRawTextElement name.base := by
      rw [Bool.eq_iff_iff]
      constructor
      · intro hr
        rwa [← written_of_isRawTextElement hr]
      · intro hr
        rwa [((h hm).raw hr).1]
    simp [hm, hiff]
  · simp [hm]

private theorem not_isVoidElement_startTag (hm : mode = .html)
    (h : mode = .html → ShapedAs (name.written s .element) name children)
    (hv : ¬(children.isEmpty && isVoidElement name.base) = true) :
    ¬isVoidElement (name.written s .element) := by
  intro htag
  refine hv ?_
  rw [(h hm).void htag, ← written_of_isVoidElement htag, htag]
  rfl

theorem raw_of_isVerbatim (h : mode = .html → ShapedAs (name.written s .element) name children)
    (hv : isVerbatim mode name) : (∀ t ∈ children, t.isText) ∧
      Markup.IsRawText (name.written s .element) (joinedText children) := by
  simp only [isVerbatim, Bool.and_eq_true, decide_eq_true_eq] at hv
  exact ((h hv.1).raw hv.2).2

end

section
variable {mode : Markup.Mode}

/-- Trees are written as the markup of their tokens. -/
theorem markupAll_formsAll {s : Scope} {ts : List Tree} (h : ReadableAll mode s ts)
    (rest : List TokenForm) : TokenForm.markupAll mode none (formsAll mode s ts ++ rest) =
      writeAll mode false s ts ++ TokenForm.markupAll mode none rest := by
  induction ts using forest_induction generalizing s rest with
  | nil => simp [formsAll, writeAll]
  | element name attributes children ts ihc iht =>
    rw [formsAll, writeAll, List.append_assoc, String.append_assoc, ← iht h.tail, write, forms]
    simp only [attributesMarkup_written]
    split
    · simp [TokenForm.markupAll, TokenForm.markupIn_none, TokenForm.markup, String.append_assoc,
        TokenForm.opensRaw?]
    · have hopens := opensRaw?_startTag attributes rfl h.shapedAs
      split
      · rename_i hv
        have hraw := (raw_of_isVerbatim h.shapedAs hv).1
        rw [if_pos hv] at hopens
        rw [hv, writeAll_text hraw, rawForms, List.cons_append, TokenForm.markupAll, hopens]
        simp [TokenForm.markupAll, TokenForm.markupIn, TokenForm.markup, TokenForm.opensRaw?,
          String.append_assoc]
      · rename_i hv
        rw [if_neg hv] at hopens
        rw [Bool.not_eq_true] at hv
        rw [hv, List.cons_append, TokenForm.markupAll, hopens, List.append_assoc, ihc h.inside]
        simp [TokenForm.markupAll, TokenForm.markupIn_none, TokenForm.markup,
          TokenForm.opensRaw?, String.append_assoc]
  | text _ ts ih | comment _ ts ih | instruction _ ts ih | doctype _ ts ih =>
    rw [formsAll, writeAll, List.append_assoc, String.append_assoc, ← ih h.tail]
    rfl

/-- The tokens of trees are balanced wherever they stand. -/
theorem balanced_formsAll {s : Scope} {ts : List Tree} {names : List String}
    {rest : List TokenForm} :
    TokenForm.Balanced names (formsAll mode s ts ++ rest) ↔ TokenForm.Balanced names rest := by
  induction ts using forest_induction generalizing s names rest with
  | nil => rfl
  | element name attributes children ts ihc iht =>
    rw [formsAll, List.append_assoc, ← @iht s names rest, forms]
    split
    · rfl
    · split
      · simp [rawForms, TokenForm.Balanced]
      · rw [List.cons_append, TokenForm.Balanced, List.append_assoc, ihc, List.singleton_append,
          TokenForm.Balanced]
        simp
  | text _ ts ih | comment _ ts ih | instruction _ ts ih | doctype _ ts ih => exact ih

/-- Raw-text elements keep what they hold. -/
theorem rawTextKept_formsAll {s : Scope} {ts : List Tree} (h : ReadableAll mode s ts)
    {rest : List TokenForm} (hrest : TokenForm.RawTextKept mode rest) :
    TokenForm.RawTextKept mode (formsAll mode s ts ++ rest) := by
  have hend (tag : String) {others : List TokenForm} (ho : TokenForm.RawTextKept mode others) :
      TokenForm.RawTextKept mode (.endTag tag 1 :: others) := ⟨by simp [TokenForm.opensRaw?], ho⟩
  induction ts using forest_induction generalizing s rest with
  | nil => exact hrest
  | element name attributes children ts ihc iht =>
    have hothers := iht h.tail hrest
    rw [formsAll, List.append_assoc, forms]
    split
    · exact ⟨by simp [TokenForm.opensRaw?], hothers⟩
    · have hopens := opensRaw?_startTag attributes rfl h.shapedAs
      split
      · rename_i hv
        rw [if_pos hv] at hopens
        refine ⟨?_, by simp [TokenForm.opensRaw?], hend _ hothers⟩
        rw [hopens]
        rintro tag ⟨⟩
        exact (raw_of_isVerbatim h.shapedAs hv).2
      · rename_i hv
        rw [if_neg hv] at hopens
        rw [List.cons_append, List.append_assoc]
        exact ⟨by simp [hopens], ihc h.inside (hend _ hothers)⟩
  | text _ ts ih | comment _ ts ih | instruction _ ts ih | doctype _ ts ih =>
    exact ⟨by simp [TokenForm.opensRaw?], ih h.tail hrest⟩

private theorem legibleIn_text (value : String) : TokenForm.LegibleIn mode (.text value) := by
  cases mode <;> exact ⟨trivial, trivial⟩

private theorem legibleIn_endTag {tag : String} (h : Markup.IsWord tag) (closes : Nat) :
    TokenForm.LegibleIn mode (.endTag tag closes) := by
  cases mode <;> exact ⟨h, trivial⟩

/-- The tokens of readable trees are legible. -/
theorem legibleIn_formsAll {s : Scope} (hs : s.Sound) {ts : List Tree} (h : ReadableAll mode s ts)
    (hl : ∀ n ∈ listingAll ts, LegibleLeaf n) : ∀ f ∈ formsAll mode s ts, f.LegibleIn mode := by
  induction ts using forest_induction generalizing s with
  | nil => simp [formsAll]
  | element name attributes children ts ihc iht =>
    have hsound := sound_declare hs h.attributes.declared
    have htag : Markup.IsWord (name.written (declare s attributes) .element) :=
      Name.isWord_written hsound h.name
    have hwords := isWord_writtenAttributes hsound h.attributes
    have hnodup := nodup_writtenAttributes hsound h.attributes
    have hothers := iht hs h.tail fun n hn => hl n (by simp [listingAll, hn])
    intro f hf
    rw [formsAll, List.mem_append] at hf
    rcases hf with hf | hf
    · rw [forms] at hf
      split at hf
      · rw [List.mem_singleton] at hf
        subst hf
        refine ⟨⟨htag, hwords⟩, ?_⟩
        cases mode with
        | xml => exact hnodup rfl
        | html => trivial
      · rename_i hv
        have hstart : TokenForm.LegibleIn mode (.startTag
            (name.written (declare s attributes) .element)
            (writtenAttributes (declare s attributes) attributes)) := by
          refine ⟨⟨htag, hwords⟩, ?_⟩
          cases mode with
          | xml => exact hnodup rfl
          | html => exact not_isVoidElement_startTag rfl h.shapedAs hv
        split at hf
        · simp only [rawForms, List.mem_cons, List.mem_append, List.not_mem_nil, or_false] at hf
          rcases hf with rfl | rfl | rfl
          · exact hstart
          · exact legibleIn_text _
          · exact legibleIn_endTag htag 1
        · rw [List.mem_cons, List.mem_append, List.mem_singleton] at hf
          rcases hf with rfl | hf | rfl
          · exact hstart
          · exact ihc hsound h.inside (fun n hn => hl n (by simp [listingAll, listing, hn])) f hf
          · exact legibleIn_endTag htag 1
    · exact hothers f hf
  | text _ ts ih =>
    have hothers := ih hs h.tail fun n hn => hl n (by simp [listingAll, hn])
    exact List.forall_mem_cons.mpr ⟨legibleIn_text _, hothers⟩
  | comment _ ts ih | instruction _ ts ih | doctype _ ts ih =>
    have hothers := ih hs h.tail fun n hn => hl n (by simp [listingAll, hn])
    refine List.forall_mem_cons.mpr ⟨⟨hl _ List.mem_cons_self, ?_⟩, hothers⟩
    cases mode <;> trivial

end

end Tree

namespace Reading
open Markup (TokenForm Token)
open MarkupGraft.Tree (listing listingAll attributeNodes normalize normalizeAll formsAll)

/-- The nodes of a sequence of tokens, wherever the tokens were read from. -/
def nodesOf (opened : List Scope) (forms : List TokenForm) : List Node :=
  nodesFrom opened (forms.map fun form => ⟨form, ⟨0, 0⟩⟩)

theorem nodesFrom_eq (opened : List Scope) (tokens : List Token) :
    nodesFrom opened tokens = nodesOf opened (tokens.map (·.form)) := by
  induction tokens generalizing opened with
  | nil => rfl
  | cons token tokens ih =>
    have hsame : tokenNodes opened token = tokenNodes opened ⟨token.form, ⟨0, 0⟩⟩ := rfl
    rw [List.map_cons, nodesOf, List.map_cons, nodesFrom, nodesFrom, ← hsame]
    simp only [ih, nodesOf]

/-- Puts text in front of nodes. -/
def prependText (value : String) : List Node → List Node
  | .text next :: nodes => .text (value ++ next) :: nodes
  | nodes => if value = "" then nodes else .text value :: nodes

def startsText : List Node → Bool
  | .text _ :: _ => true
  | _ => false

private theorem prependText_of_not {value : String} {nodes : List Node} (h : ¬startsText nodes) :
    prependText value nodes = if value = "" then nodes else .text value :: nodes := by
  unfold prependText
  split
  · exact absurd rfl h
  · rfl

/-- Where a text is joined with what follows, so are the nodes read. -/
private theorem nodesOf_prependText {opened : List Scope} (value : String)
    {forms : List TokenForm}
    (h : ¬TokenForm.startsText forms → ¬startsText (nodesOf opened forms)) :
    nodesOf opened (TokenForm.prependText value forms) =
      prependText value (nodesOf opened forms) := by
  rcases TokenForm.prependText_eq value forms with ⟨next, rest, rfl, he⟩ | ⟨hs, he⟩
  · rw [he]
    rfl
  · rw [he, prependText_of_not (h hs)]
    split <;> rfl

private theorem listingAll_prependText (value : String) (trees : List Tree) {rest : List Node}
    (h : ¬startsText rest) : listingAll (Tree.prependText value trees) ++ rest =
      prependText value (listingAll trees ++ rest) := by
  cases trees with
  | nil =>
    rw [listingAll, List.nil_append, prependText_of_not h, Tree.prependText]
    · split <;> rfl
    · simp
  | cons t ts =>
    cases t with
    | text next => rfl
    | _ =>
      rw [prependText_of_not (by simp [listingAll, listing, startsText]), Tree.prependText]
      · split <;> rfl
      · simp

/-- Where elements are open as often as the tokens close them, nothing but text is read as text. -/
private theorem startsText_nodesOf {opened : List Scope} {names : List String}
    {forms : List TokenForm} (hb : TokenForm.Balanced names forms)
    (hn : names.length = opened.length) (h : ¬TokenForm.startsText forms) :
    ¬startsText (nodesOf opened forms) := by
  cases forms with
  | nil => simp [nodesOf, nodesFrom, startsText, List.replicate_succ]
  | cons form forms =>
    cases form with
    | text => exact absurd rfl h
    | endTag name closes =>
      obtain ⟨rfl, outer, rfl, -⟩ := hb
      cases opened with
      | nil => cases hn
      | cons s opened => simp [nodesOf, nodesFrom, tokenNodes, startsText]
    | _ => simp [nodesOf, nodesFrom, tokenNodes, elementNodes, startsText]

private theorem startsText_join {forms : List TokenForm} (h : ¬TokenForm.startsText forms) :
    ¬TokenForm.startsText (TokenForm.join forms) := by
  cases forms with
  | nil => exact h
  | cons form forms =>
    cases form with
    | text => exact absurd rfl h
    | _ => exact h

/-- A written element is read with its attributes and with what is read of its name. -/
private theorem elementNodes_written {mode : Markup.Mode} {s : Scope} (hs : s.Sound) (name : Name)
    {attributes : List (Name × String)} (ha : Tree.AttributesSettled mode s attributes) :
    elementNodes s (name.written s .element) (Tree.writtenAttributes s attributes) =
      .element (name.reread s .element) :: attributeNodes attributes := by
  rw [elementNodes, ← Name.reread]
  congr 1
  rw [attributeNodes]
  conv_rhs => rw [← Tree.resolve_writtenAttributes hs ha]
  rw [List.map_map]
  rfl

section
variable {mode : Markup.Mode} {s : Scope} (hs : s.Sound) {opened : List Scope}
  (ho : opened.headD .base = s) {name : Name} {attributes : List (Name × String)}
  (hattributes : Tree.AttributesSettled mode (Tree.declare s attributes) attributes)
include hs ho hattributes

private theorem declare_written : declare (opened.headD .base)
    (Tree.writtenAttributes (Tree.declare s attributes) attributes) = Tree.declare s attributes := by
  rw [ho]
  exact Tree.declare_writtenAttributes (Tree.sound_declare hs hattributes.declared) hattributes s

private theorem nodesOf_startTag (forms : List TokenForm) :
    nodesOf opened (.startTag (name.written (Tree.declare s attributes) .element)
      (Tree.writtenAttributes (Tree.declare s attributes) attributes) :: forms) =
        .element (name.reread (Tree.declare s attributes) .element) :: (attributeNodes attributes ++
          nodesOf (Tree.declare s attributes :: opened) forms) := by
  have hdeclare := declare_written hs ho hattributes
  have hnode := elementNodes_written (Tree.sound_declare hs hattributes.declared) name hattributes
  rw [nodesOf, List.map_cons, nodesFrom, tokenNodes]
  simp only [hdeclare, hnode]
  rfl

private theorem nodesOf_emptyTag (forms : List TokenForm) :
    nodesOf opened (.emptyTag (name.written (Tree.declare s attributes) .element)
      (Tree.writtenAttributes (Tree.declare s attributes) attributes) :: forms) =
        .element (name.reread (Tree.declare s attributes) .element) :: (attributeNodes attributes ++
          .finish :: nodesOf opened forms) := by
  have hdeclare := declare_written hs ho hattributes
  have hnode := elementNodes_written (Tree.sound_declare hs hattributes.declared) name hattributes
  rw [nodesOf, List.map_cons, nodesFrom, tokenNodes]
  simp only [hdeclare, hnode]
  rw [List.append_assoc]
  rfl

end

private theorem nodesOf_endTag (s : Scope) (opened : List Scope) (name : String)
    (forms : List TokenForm) :
    nodesOf (s :: opened) (.endTag name 1 :: forms) = .finish :: nodesOf opened forms := by
  rw [nodesOf, List.map_cons, nodesFrom, tokenNodes]
  simp only [List.length_cons, Nat.min_eq_left (Nat.le_add_left 1 opened.length),
    List.drop_succ_cons, List.drop_zero]
  rfl

section
variable {mode : Markup.Mode}

/-- What stands inside a raw-text element is read as one text. -/
private theorem nodesOf_rawForms {s : Scope} {opened : List Scope} {tag : String}
    {children : List Tree} (h : ∀ t ∈ children, t.isText) (rest : List TokenForm) :
    nodesOf (s :: opened) (TokenForm.join (Tree.rawForms children ++ .endTag tag 1 :: rest)) =
      listingAll (normalizeAll (Tree.rereadAll s children)) ++
        .finish :: nodesOf opened (TokenForm.join rest) := by
  have hjoin : TokenForm.join (Tree.rawForms children ++ .endTag tag 1 :: rest) =
      if Tree.joinedText children = "" then .endTag tag 1 :: TokenForm.join rest
      else .text (Tree.joinedText children) :: .endTag tag 1 :: TokenForm.join rest := rfl
  have hend := nodesOf_endTag s opened tag (TokenForm.join rest)
  rw [hjoin, Tree.rereadAll_text h, Tree.normalizeAll_text h]
  split
  · exact hend
  · exact congrArg (Node.text _ :: ·) hend

/-- The tokens of trees are read as the trees with their text joined. -/
private theorem nodesOf_formsAll {s : Scope} (hs : s.Sound) {opened : List Scope}
    (ho : opened.headD .base = s) {names : List String} (hlength : names.length = opened.length)
    {rest : List TokenForm} (hb : TokenForm.Balanced names rest)
    (ht : ¬TokenForm.startsText rest) {ts : List Tree} (h : Tree.ReadableAll mode s ts) :
    nodesOf opened (TokenForm.join (formsAll mode s ts ++ rest)) =
      listingAll (normalizeAll (Tree.rereadAll s ts)) ++ nodesOf opened (TokenForm.join rest) := by
  induction ts using Tree.forest_induction generalizing s opened names rest with
  | nil => rfl
  | element name attributes children ts ihc iht =>
    have hsound := Tree.sound_declare hs h.attributes.declared
    have hothers := iht hs ho hlength hb ht h.tail
    rw [formsAll, List.append_assoc, Tree.forms]
    have hread : listingAll (normalizeAll (Tree.rereadAll s (.element name attributes children :: ts))) =
        .element (name.reread (Tree.declare s attributes) .element) :: (attributeNodes attributes ++
          (listingAll (normalizeAll (Tree.rereadAll (Tree.declare s attributes) children)) ++
            .finish :: listingAll (normalizeAll (Tree.rereadAll s ts)))) := by
      simp [Tree.rereadAll, normalizeAll, Tree.reread, Tree.normalize, Tree.prependTree, listingAll,
        listing]
    rw [hread]
    split
    · rename_i hvoid
      rw [Bool.and_eq_true, List.isEmpty_iff] at hvoid
      obtain ⟨rfl, -⟩ := hvoid
      rw [List.singleton_append, TokenForm.join_cons (by simp [TokenForm.isText]),
        nodesOf_emptyTag hs ho h.attributes, hothers]
      simp [Tree.rereadAll, normalizeAll, listingAll]
    · split
      · rename_i hverbatim
        have hraw := (Tree.raw_of_isVerbatim h.shapedAs hverbatim).1
        rw [List.cons_append, List.append_assoc, List.singleton_append,
          TokenForm.join_cons (by simp [TokenForm.isText]), nodesOf_startTag hs ho h.attributes,
          nodesOf_rawForms hraw, hothers]
        simp
      · have hinside := @ihc _ hsound (Tree.declare s attributes :: opened) rfl _
          (congrArg (· + 1) hlength)
          (.endTag (name.written (Tree.declare s attributes) .element) 1 ::
            (formsAll mode s ts ++ rest))
          ⟨rfl, names, rfl, Tree.balanced_formsAll.mpr hb⟩
          (by simp [TokenForm.startsText, TokenForm.isText]) h.inside
        rw [List.cons_append, List.append_assoc, List.singleton_append,
          TokenForm.join_cons (by simp [TokenForm.isText]), nodesOf_startTag hs ho h.attributes,
          hinside, TokenForm.join_cons (by simp [TokenForm.isText]), nodesOf_endTag, hothers]
        simp
  | text value ts ih =>
    have hjoin : TokenForm.join (formsAll mode s (.text value :: ts) ++ rest) =
        TokenForm.prependText value (TokenForm.join (formsAll mode s ts ++ rest)) := rfl
    have hbalanced : TokenForm.Balanced names (formsAll mode s ts ++ rest) :=
      Tree.balanced_formsAll.mpr hb
    have hnodes : ¬startsText (nodesOf opened (TokenForm.join rest)) :=
      startsText_nodesOf (TokenForm.balanced_join hb) hlength (startsText_join ht)
    rw [hjoin, nodesOf_prependText value
      (startsText_nodesOf (TokenForm.balanced_join hbalanced) hlength),
      ih hs ho hlength hb ht h.tail, ← listingAll_prependText value _ hnodes]
    rfl
  | comment _ ts ih | instruction _ ts ih | doctype _ ts ih =>
    exact congrArg (_ :: ·) (ih hs ho hlength hb ht h.tail)

end

end Reading

theorem Scope.sound_base : Scope.base.Sound := by
  intro mark space h
  rw [Scope.get?_base] at h
  split at h
  · rename_i hm
    cases h
    subst hm
    exact ⟨.inr (isNamePart_of_isColonFree (by decide)), by decide, by decide⟩
  · split at h
    · rename_i hm
      cases h
      subst hm
      exact ⟨.inl rfl, by decide, by decide⟩
    · cases h

namespace Tree
open Markup (TokenForm)

/-- Readable trees are read back from their markup with their text joined, and with their names as
they are read. -/
theorem parse_writeAll {mode : Markup.Mode} {ts : List Tree} (hr : ReadableAll mode .base ts)
    (hl : ∀ n ∈ listingAll ts, LegibleLeaf n) {bytes : Bytes}
    (hbytes : bytes = Text.encode (writeAll mode false .base ts))
    (hmark : ¬Markup.Reader.startsWithMark bytes) (id : Nat) :
    ∃ d, Document.parse id mode bytes = .ok d ∧
      d.trees = normalizeAll (rereadAll .base ts) ∧ d.mode = mode := by
  have hmarkup : writeAll mode false .base ts =
      TokenForm.markupAll mode none (formsAll mode .base ts) := by
    have := markupAll_formsAll hr []
    rwa [List.append_nil, TokenForm.markupAll, String.append_empty, eq_comm] at this
  rw [hmarkup] at hbytes
  subst hbytes
  have hend : TokenForm.Balanced [] [] := rfl
  have hbalanced : TokenForm.Balanced [] (formsAll mode .base ts) := by
    rw [← List.append_nil (formsAll _ _ ts)]
    exact balanced_formsAll.mpr hend
  have hraw : TokenForm.RawTextKept mode (formsAll mode .base ts) := by
    rw [← List.append_nil (formsAll mode .base ts)]
    exact rawTextKept_formsAll hr trivial
  obtain ⟨tokens, htokens, hforms⟩ := Markup.tokenize_markupAll
    (legibleIn_formsAll Scope.sound_base hr hl) hraw hbalanced hmark
  have hnodes : Reading.nodesOf [] (TokenForm.join (formsAll mode .base ts ++ [])) =
      listingAll (normalizeAll (rereadAll .base ts)) ++ Reading.nodesOf [] (TokenForm.join []) :=
    Reading.nodesOf_formsAll Scope.sound_base rfl rfl hend (by simp [TokenForm.startsText]) hr
  rw [List.append_nil, ← hforms, ← Reading.nodesFrom_eq] at hnodes
  refine ⟨_, by rw [Document.parse, htokens]; rfl, ?_, rfl⟩
  rw [Document.trees, Document.nodes_ofNodes, hnodes]
  exact forest_document _

/-- The names of bound trees are settled, and are read back. -/
theorem settledAll_of_bound {mode : Markup.Mode} {s : Scope} (hs : s.Sound) {ts : List Tree}
    (hb : BoundAll s ts) : SettledAll mode s ts ∧ rereadAll s ts = ts := by
  induction ts using forest_induction generalizing s with
  | nil => exact ⟨trivial, rfl⟩
  | element name attributes children ts ihc iht =>
    obtain ⟨⟨hname, hattributes, hchildren⟩, hts⟩ := hb
    have hsound := sound_declare hs hattributes.declared
    obtain ⟨hinside, hsame⟩ := ihc hsound hchildren
    obtain ⟨hothers, hsames⟩ := iht hs hts
    refine ⟨⟨⟨hname.settled, hattributes.settled mode, hinside⟩, hothers⟩, ?_⟩
    rw [rereadAll, reread, Name.reread_of_bound hsound hname, hsame, hsames]
  | text _ ts ih | comment _ ts ih | instruction _ ts ih | doctype _ ts ih =>
    obtain ⟨hothers, hsames⟩ := ih hs hb.2
    exact ⟨⟨trivial, hothers⟩, congrArg (_ :: ·) hsames⟩

/-- Bound trees are read back from their markup with their text joined. -/
theorem parse_write {ts : List Tree} (hb : BoundAll .base ts)
    (hl : ∀ n ∈ listingAll ts, LegibleLeaf n) {bytes : Bytes}
    (hbytes : bytes = Text.encode (writeAll .xml false .base ts))
    (hmark : ¬Markup.Reader.startsWithMark bytes) (id : Nat) :
    ∃ d, Document.parse id .xml bytes = .ok d ∧ d.trees = normalizeAll ts := by
  obtain ⟨hsettled, hsame⟩ := settledAll_of_bound Scope.sound_base hb
  have hr : ReadableAll .xml .base ts := ⟨hsettled, nofun⟩
  obtain ⟨d, hd, htrees, -⟩ := parse_writeAll hr hl hbytes hmark id
  exact ⟨d, hd, by rw [htrees, hsame]⟩

end Tree
end MarkupGraft
