import MarkupGraft.Proofs.Store.Numbering
import MarkupGraft.Store.Reading

/-!
Documents read from markup are well formed: whatever the tokens are, each closes what it says is
closed, and the end closes the rest.
-/

namespace MarkupGraft
namespace Reading
open MarkupGraft.Tree (listingAll attributeNodes)

/-- What is left of open elements, innermost first: the trees that stand before each end marker. -/
private def closings (groups : List (List Tree)) : List Node :=
  groups.flatMap fun ts => listingAll ts ++ [.finish]

private theorem closings_nil (n : Nat) (groups : List (List Tree)) :
    List.replicate n .finish ++ closings groups = closings (List.replicate n [] ++ groups) := by
  induction n with
  | zero => rfl
  | succ n ih =>
    rw [List.replicate_succ, List.cons_append, ih]
    rfl

private theorem closings_cons (t : Tree) (ts : List Tree) (groups : List (List Tree)) :
    t.listing ++ closings (ts :: groups) = closings ((t :: ts) :: groups) := by
  simp [closings, listingAll]

private def attributePairs (s : Scope) (attributes : List Markup.Attribute) :
    List (Name × String) :=
  attributes.map fun a => (Name.resolve s .attribute a.key, a.value)

private theorem elementNodes_eq (s : Scope) (name : String) (attributes : List Markup.Attribute) :
    elementNodes s name attributes = .element (Name.resolve s .element name) ::
      attributeNodes (attributePairs s attributes) := by
  simp [elementNodes, attributeNodes, attributePairs, Function.comp_def]

/-- The nodes of any tokens list trees and close all that is open. -/
private theorem exists_closings (opened : List Scope) (tokens : List Markup.Token) :
    ∃ groups, groups.length = opened.length + 1 ∧ nodesFrom opened tokens = closings groups := by
  induction tokens generalizing opened with
  | nil =>
    refine ⟨List.replicate (opened.length + 1) [], by simp, ?_⟩
    have := closings_nil (opened.length + 1) []
    simpa [closings, nodesFrom] using this
  | cons token tokens ih =>
    rw [nodesFrom, tokenNodes]
    have leaf (t : Tree) : ∃ groups, groups.length = opened.length + 1 ∧
        t.listing ++ nodesFrom opened tokens = closings groups := by
      obtain ⟨groups, hlength, hgroups⟩ := ih opened
      cases groups with
      | nil => simp at hlength
      | cons ts groups => exact ⟨(t :: ts) :: groups, by simpa using hlength, by
          rw [hgroups, closings_cons]⟩
    cases token.form with
    | startTag name attributes =>
      let inner := declare (opened.headD .base) attributes
      obtain ⟨groups, hlength, hgroups⟩ := ih (inner :: opened)
      match groups, hlength with
      | children :: ts :: groups, hlength =>
        refine ⟨(.element (Name.resolve inner .element name) (attributePairs inner attributes)
          children :: ts) :: groups, by simpa using hlength, ?_⟩
        rw [← closings_cons, Tree.listing]
        simp only [hgroups, elementNodes_eq, inner]
        simp [closings]
    | emptyTag name attributes =>
      have := leaf (.element (Name.resolve (declare (opened.headD .base) attributes) .element name)
        (attributePairs (declare (opened.headD .base) attributes) attributes) [])
      simpa [Tree.listing, listingAll, elementNodes_eq] using this
    | endTag name closes =>
      obtain ⟨groups, hlength, hgroups⟩ := ih (opened.drop closes)
      refine ⟨List.replicate (min closes opened.length) [] ++ groups, ?_, ?_⟩
      · rw [List.length_append, List.length_replicate, hlength, List.length_drop]
        omega
      · simp only [hgroups, closings_nil]
    | text value => exact leaf (.text value)
    | comment value => exact leaf (.comment value)
    | instruction value => exact leaf (.instruction value)
    | doctype value => exact leaf (.doctype value)

/-- A token sequence is read as trees. -/
theorem exists_trees (tokens : List Markup.Token) :
    ∃ ts, nodesFrom [] tokens = listingAll ts ++ [.finish] := by
  obtain ⟨groups, hlength, hgroups⟩ := exists_closings [] tokens
  match groups, hlength with
  | [ts], _ => exact ⟨ts, by simpa [closings] using hgroups⟩

end Reading

theorem Document.wellFormed_parse {id : Nat} {mode : Markup.Mode} {input : Bytes} {d : Document}
    (h : Document.parse id mode input = .ok d) : d.WellFormed ∧ d.id = id := by
  unfold Document.parse at h
  cases ht : Markup.tokenize mode input with
  | error e =>
    rw [ht] at h
    cases h
  | ok tokens =>
    rw [ht] at h
    cases h
    obtain ⟨ts, hts⟩ := Reading.exists_trees tokens
    have := wellFormed_ofNodes id mode ts
    rw [← hts] at this
    exact ⟨this, rfl⟩

end MarkupGraft
