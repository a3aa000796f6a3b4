import MarkupGraft.Proofs.Markup.Produced
import MarkupGraft.Proofs.Store.Cutting
import MarkupGraft.Proofs.Store.Detached
import MarkupGraft.Proofs.Store.Reading
import MarkupGraft.Proofs.Store.Surroundings

/-!
Serialization is faithful: the markup of a document is read back as the document, its text joined.
-/

namespace MarkupGraft
open Markup (TokenForm Token)
open MarkupGraft.Tree (listingAll normalize normalizeAll)

/-! Values that are read -/

namespace Node

/-- Comments, instructions and document type declarations, whose values are kept as they stand. -/
def isVerbatim : Node → Bool
  | .comment _ | .instruction _ | .doctype _ => true
  | _ => false

/-- Whether reading some input gives the node. The input does not begin with a byte-order mark, behind
which values are taken from the wrong place. -/
def Produced (n : Node) : Prop :=
  ∃ id mode input d, ¬Markup.Reader.startsWithMark input ∧
    Document.parse id mode input = .ok d ∧ n ∈ d.nodes

end Node

private theorem not_mem_elementNodes {n : Node} (hn : n.isVerbatim) (s : Scope) (name : String)
    (attributes : List Markup.Attribute) : n ∉ Reading.elementNodes s name attributes := by
  intro hm
  rw [Reading.elementNodes, List.mem_cons, List.mem_map] at hm
  rcases hm with rfl | ⟨a, -, rfl⟩ <;> cases hn

/-- Only a leaf adds a node whose value is kept, and that value is its own. -/
private theorem leaf_of_tokenNodes {n : Node} (hn : n.isVerbatim) {opened : List Scope}
    {token : Token} (h : n ∈ (Reading.tokenNodes opened token).1) :
    token.form.isLeaf ∧ (token.form.Legible → Tree.LegibleLeaf n) := by
  unfold Reading.tokenNodes at h
  cases hf : token.form with
  | startTag =>
    rw [hf] at h
    exact absurd h (not_mem_elementNodes hn _ _ _)
  | emptyTag =>
    rw [hf, List.mem_append, List.mem_singleton] at h
    rcases h with h | rfl
    · exact absurd h (not_mem_elementNodes hn _ _ _)
    · cases hn
  | endTag =>
    rw [hf, List.mem_replicate] at h
    rw [h.2] at hn
    cases hn
  | text =>
    rw [hf, List.mem_singleton] at h
    rw [h] at hn
    cases hn
  | comment | instruction | doctype =>
    rw [hf, List.mem_singleton] at h
    rw [h]
    exact ⟨rfl, id⟩

private theorem exists_token {n : Node} (hn : n.isVerbatim) {opened : List Scope}
    {tokens : List Token} (h : n ∈ Reading.nodesFrom opened tokens) :
    ∃ token ∈ tokens, token.form.isLeaf ∧ (token.form.Legible → Tree.LegibleLeaf n) := by
  induction tokens generalizing opened with
  | nil =>
    rw [Reading.nodesFrom, List.mem_replicate] at h
    rw [h.2] at hn
    cases hn
  | cons token tokens ih =>
    rw [Reading.nodesFrom, List.mem_append] at h
    rcases h with h | h
    · exact ⟨token, List.mem_cons_self, leaf_of_tokenNodes hn h⟩
    · obtain ⟨other, ho, hother⟩ := ih h
      exact ⟨other, List.mem_cons_of_mem _ ho, hother⟩

/-- What is read is legible. -/
theorem Node.Produced.legible {n : Node} (h : n.Produced) (hn : n.isVerbatim) :
    Tree.LegibleLeaf n := by
  obtain ⟨id, mode, input, d, hm, hd, hmem⟩ := h
  unfold Document.parse at hd
  cases ht : Markup.tokenize mode input with
  | error =>
    rw [ht] at hd
    cases hd
  | ok tokens =>
    rw [ht] at hd
    cases hd
    rw [Document.nodes_ofNodes, List.mem_cons] at hmem
    rcases hmem with rfl | hmem
    · cases hn
    · obtain ⟨token, htoken, hleaf, hlegible⟩ := exists_token hn hmem
      exact hlegible (Markup.legible_of_tokenize hm ht token htoken hleaf)

/-! Joined text and declarations -/

namespace Tree
open List (Forall₂)

theorem legibleLeaf_of_isVerbatim {n : Node} (h : n.isVerbatim → LegibleLeaf n) :
    LegibleLeaf n := by
  cases n with
  | comment | instruction | doctype => exact h rfl
  | _ => trivial

/-- Declarations add attributes alone. -/
theorem legibleLeaf_placed {scope target : Scope} {ts : List Tree}
    (h : ∀ n ∈ listingAll ts, LegibleLeaf n) :
    ∀ n ∈ listingAll (ts.map (Tree.placed scope target)), LegibleLeaf n := by
  intro n hn
  rcases mem_listingAll_placed hn with hn | ⟨mark, space, rfl, -⟩
  · exact h n hn
  · trivial

private theorem declaredAs_refl (t : Tree) : t.DeclaredAs t :=
  ⟨[], by simp, by cases t <;> rfl⟩

private theorem forall₂_prependText (value : String) {ts us : List Tree}
    (h : Forall₂ DeclaredAs ts us) :
    Forall₂ DeclaredAs (prependText value ts) (prependText value us) := by
  have hother (ts us : List Tree) (h : Forall₂ DeclaredAs ts us) :
      Forall₂ DeclaredAs (if value = "" then ts else .text value :: ts)
        (if value = "" then us else .text value :: us) := by
    split
    · exact h
    · exact .cons (declaredAs_refl _) h
  cases h with
  | nil => exact hother [] [] .nil
  | @cons t u ts us ht hts =>
    obtain ⟨declarations, hd, rfl⟩ := ht
    cases t with
    | text next => exact .cons (declaredAs_refl _) hts
    | _ => exact hother _ _ (.cons ⟨declarations, hd, rfl⟩ hts)

/-- Joining text does not touch the declarations of outermost elements. -/
theorem forall₂_normalizeAll {ts us : List Tree} (h : Forall₂ DeclaredAs ts us) :
    Forall₂ DeclaredAs (normalizeAll ts) (normalizeAll us) := by
  induction h with
  | nil => exact .nil
  | @cons t u ts us ht hts ih =>
    obtain ⟨declarations, hd, rfl⟩ := ht
    cases t with
    | text value => exact forall₂_prependText value ih
    | _ => exact .cons ⟨declarations, hd, rfl⟩ ih

end Tree

namespace Node

/-- What is legible is read from its own markup. -/
private theorem produced_of_write {t : Tree} {n : Node} {inner : Bytes} (hb : t.Bound .base)
    (hl : Tree.LegibleLeaf n) (hn : t.listing = [n]) (ht : normalizeAll [t] = [t])
    (hw : Text.encode (Tree.write .xml false .base t) = 0x3C :: inner) : n.Produced := by
  have hlisting : listingAll [t] = [n] := by rw [listingAll, hn]; rfl
  have hleaves : ∀ m ∈ listingAll [t], Tree.LegibleLeaf m := by
    rw [hlisting]
    simpa using hl
  have hall : Tree.BoundAll .base [t] := ⟨hb, trivial⟩
  have hm : ¬Markup.Reader.startsWithMark (Text.encode (Tree.writeAll .xml false .base [t])) := by
    rw [Tree.writeAll, Text.encode_append, hw]
    simp [Markup.Reader.startsWithMark]
  obtain ⟨d, hd, htrees⟩ := Tree.parse_write hall hleaves rfl hm 0
  have w : d.WellFormed := (Document.wellFormed_parse hd).1
  refine ⟨0, .xml, _, d, hm, hd, ?_⟩
  rw [w.nodes_eq, htrees, ht, hlisting]
  simp

/-- The values that are read are those whose markup is read back. -/
theorem produced_iff {n : Node} (hn : n.isVerbatim) : n.Produced ↔ Tree.LegibleLeaf n := by
  refine ⟨fun h => h.legible hn, fun hl => ?_⟩
  cases n with
  | comment value =>
    exact @produced_of_write (.comment value) _ _ trivial hl rfl rfl (TokenForm.encode_comment value)
  | instruction value =>
    exact @produced_of_write (.instruction value) _ _ trivial hl rfl rfl
      (TokenForm.encode_instruction value)
  | doctype value =>
    exact @produced_of_write (.doctype value) _ _ trivial hl rfl rfl (TokenForm.encode_doctype value)
  | _ => cases hn

end Node

namespace Document
variable {d : Document}

/-- What a document must keep in order to be read back from its markup. -/
structure Writable (d : Document) : Prop where
  bound : Tree.BoundAll (d.scopeAt 0) d.trees
  inherited : d.inherited.Sound
  produced : ∀ n ∈ d.nodes, n.isVerbatim → n.Produced
  unmarked : ¬Markup.Reader.startsWithMark d.toBytes

/-- The markup of a document is read back as the document, with its text joined and with
declarations on the outermost elements of a detached copy. -/
theorem parse_toBytes (w : d.WellFormed) (hm : d.mode = .xml) (h : d.Writable) (id : Nat) :
    ∃ d', parse id .xml d.toBytes = .ok d' ∧
      List.Forall₂ Tree.DeclaredAs (normalizeAll d.trees) d'.trees ∧
      (d.inherited.isEmpty → d'.trees = normalizeAll d.trees) := by
  have hbound := h.bound
  rw [w.scopeAt_root] at hbound
  have hleaves : ∀ n ∈ listingAll d.trees, Tree.LegibleLeaf n := by
    intro n hn
    refine Tree.legibleLeaf_of_isVerbatim fun hv => (h.produced n ?_ hv).legible hv
    rw [w.nodes_eq]
    simp [hn]
  by_cases he : d.inherited.isEmpty
  · have hscope : Scope.base.override d.inherited = .base := by
      rw [Scope.override, List.isEmpty_iff.mp he]
      rfl
    have hbytes : d.toBytes = Text.encode (Tree.writeAll .xml false .base d.trees) := by
      rw [toBytes, markup, if_pos he, hm]
    rw [hscope] at hbound
    obtain ⟨d', hd', htrees⟩ := Tree.parse_write hbound hleaves hbytes h.unmarked id
    refine ⟨d', hd', ?_, fun _ => htrees⟩
    rw [htrees]
    exact List.forall₂_same.mpr fun t _ => Tree.declaredAs_refl t
  · have hbytes : d.toBytes = Text.encode (Tree.writeAll .xml false .base
        (d.trees.map (Tree.placed d.inherited .base))) := by
      rw [toBytes, markup, if_neg he, hm, w.complete_contents.placedUnder_eq,
        Tree.forest_listingAll, w.trees_contents]
      rfl
    obtain ⟨d', hd', htrees⟩ := Tree.parse_write (Tree.boundAll_placed h.inherited hbound)
      (Tree.legibleLeaf_placed hleaves) hbytes h.unmarked id
    refine ⟨d', hd', ?_, fun hempty => absurd hempty he⟩
    rw [htrees]
    refine Tree.forall₂_normalizeAll ?_
    rw [List.forall₂_map_right_iff]
    exact List.forall₂_same.mpr fun t _ => declaredAs_placed _ _ t

-- A value read behind a byte-order mark need not be one that can be written.
example : (parse 0 .xml (0xEF :: 0xBB :: 0xBF :: Text.encode "<!-->abcdef-->")).toOption.map nodes =
      some [.document, .comment "!-->abc", .finish] ∧
    (parse 0 .xml (Text.encode "<!--!-->abc-->")).toOption.map nodes =
      some [.document, .comment "!", .text "abc-->", .finish] := by decide +kernel

/-- A detached copy whose element has its prefix from the place it was cut out of. -/
def detachedCopy : Document :=
  ofFragment 0 ⟨listingAll [.element ⟨"urn:a", "b"⟩ [] [.text "x", .text "y", .comment "z"]],
    ({} : Scope).insert "p" "urn:a"⟩

theorem parse_toBytes_detachedCopy : ∃ d', parse 1 .xml detachedCopy.toBytes = .ok d' ∧
    List.Forall₂ Tree.DeclaredAs
      [.element ⟨"urn:a", "b"⟩ [] [.text "xy", .comment "z"]] d'.trees := by
  have w : detachedCopy.WellFormed := wellFormed_ofFragment 0 ⟨_, rfl⟩
  have hp : Declarable "p" "urn:a" :=
    ⟨.inr (isNamePart_of_isColonFree (by decide)), by decide, by decide⟩
  have htrees : detachedCopy.trees =
      [.element ⟨"urn:a", "b"⟩ [] [.text "x", .text "y", .comment "z"]] := rfl
  have hw : detachedCopy.Writable := by
    constructor
    · rw [w.scopeAt_root, htrees]
      have hname : Name.Bound (Scope.base.override detachedCopy.inherited) .element ⟨"urn:a", "b"⟩ :=
        ⟨isNamePart_of_isColonFree (by decide), "p", rfl⟩
      have hattributes : Tree.AttributesBound (Scope.base.override detachedCopy.inherited) [] :=
        ⟨by simp, by simp, by simp⟩
      exact ⟨⟨hname, hattributes, trivial, trivial, trivial, trivial⟩, trivial⟩
    · intro mark space h
      have hget : detachedCopy.inherited.get? mark = if mark = "p" then some "urn:a" else none :=
        Scope.get?_insert {} "p" "urn:a" mark
      rw [hget] at h
      split at h
      · rename_i hm
        cases h
        exact hm ▸ hp
      · cases h
    · intro n hn hv
      refine (Node.produced_iff hv).mpr ?_
      have hnodes : detachedCopy.nodes = [.document, .element ⟨"urn:a", "b"⟩, .text "x", .text "y",
        .comment "z", .finish, .finish] := rfl
      rw [hnodes] at hn
      obtain rfl : n = .comment "z" := by
        cases n <;> simp_all [Node.isVerbatim]
      rfl
    · decide
  obtain ⟨d', hd', h, -⟩ := parse_toBytes w rfl hw 1
  exact ⟨d', hd', h⟩

end Document
end MarkupGraft
