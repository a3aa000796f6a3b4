import MarkupGraft.Proofs.Store.Reserialization
import MarkupGraft.Proofs.Store.Slot

/-!
Text cannot change structure. Documents that differ in the text set on one node are written as markup
that is read as trees of one shape, which hold the text where the node stands.
-/

namespace MarkupGraft
open Branch (Stands idents)
open MarkupGraft.Tree (Hole Slot)

namespace Document
variable {d : Document}

/-- What the text of a node inside the document is set by. -/
private def setting (next : Nat) (text : String) : Rewriting where
  inBranch b := [(b.withChildren [.leaf next .text text]).withValue text]
  inAttribute a := [{ a with value := text }]

/-- Setting the text of a node that a standing branch has rewrites that branch. -/
private theorem WellFormed.exists_site (w : d.WellFormed) {b : Branch} {before after : List Entry}
    (hs : Stands b d.tree.children before after) {target : Nat} (hm : target ∈ idents b.entries) :
    ∃ site : Tree.Site, d.trees = site.fill [b.erase] ∧ ∀ text ≠ "",
      Branch.eraseAll (d.tree.setText target d.nextIdent text).children =
        site.fill (Branch.eraseAll (Branch.rewriteAll (setting d.nextIdent text) target [b])) := by
  obtain ⟨plug, hplug, -, -, hrewrite⟩ := w.exists_plug_of_stands hs
  refine ⟨plug.site, ?_, fun text ht => ?_⟩
  · rw [trees, w.forest_nodes, hplug, plug.erase]
    rfl
  · rw [← plug.erase, ← hrewrite _ _ hm, RootedTree.setText,
      if_neg (RootedTree.ident_ne_of_stands hs w.nodup_tree hm)]
    simp only [ht, if_false]
    rfl

/-- Setting the text of a node fills a slot that opens where the node stands. -/
theorem WellFormed.exists_slot (w : d.WellFormed) {target p : Nat} (h : d.tree.Found target p)
    (hf : d.node p ≠ .finish)
    (hd : ∀ key value, d.node p = .attribute key value → key.declares? = none) :
    ∃ slot : Slot, slot.Opens d.trees ∧
      (∀ text, slot.hole.node text =
        if (d.node p).isContainer then .text text else (d.node p).withValue text) ∧
      ∀ text ≠ "",
        Branch.eraseAll (d.tree.setText target d.nextIdent text).children = slot.fill text := by
  cases h with
  | root h =>
    refine ⟨⟨.here [] [], .leaf .text "" ""⟩, ?_, ?_, ?_⟩
    · simpa [Tree.Site.fill] using Slot.Opens.content (.here [] []) d.trees
    · intro text
      simp [w.node_of_root, Node.isContainer, Hole.node, LeafKind.node]
    · intro text ht
      simp [RootedTree.setText, h, ht, Branch.eraseAll, Branch.erase, Slot.fill, Tree.Site.fill,
        Hole.tree]
  | @element name attributes children finish before after h =>
    have hm : target ∈ idents (Branch.element target name attributes children finish).entries :=
      Branch.ident_mem_entries _
    obtain ⟨site, htrees, hfill⟩ := w.exists_site h hm
    let pairs := attributes.map fun a => (a.name, a.value)
    let inner : Tree.Site := .inside [] name pairs (.here [] []) []
    have hinner (ts : List Tree) : (site.within inner).fill ts =
        site.fill [.element name pairs ts] := by
      rw [Tree.Site.fill_within]
      simp [inner, Tree.Site.fill]
    refine ⟨⟨site.within inner, .leaf .text "" ""⟩, ?_, ?_, ?_⟩
    · have := Slot.Opens.content (site.within inner) (Branch.eraseAll children)
      rw [hinner] at this
      rw [htrees]
      exact this
    · intro text
      simp [w.node_of_element h, Node.isContainer, Hole.node, LeafKind.node]
    · intro text ht
      rw [hfill text ht, Slot.fill, hinner]
      simp [Branch.rewriteAll, Branch.ident, setting, Branch.withChildren, Branch.withValue,
        Branch.eraseAll, Branch.erase, pairs, Hole.tree]
  | @«attribute» ident name key value l r children finish before after h =>
    have hkey := hd key value (w.node_of_attribute h)
    have hm : target ∈ idents
        (Branch.element ident name (l ++ ⟨target, key, value⟩ :: r) children finish).entries := by
      simp [Branch.entries, OwnedAttribute.entry]
    have hn := w.nodup
    rw [w.entries_of_stands h, List.map_append, List.map_append] at hn
    obtain ⟨-, hrest, -⟩ := List.nodup_append.mp hn
    have hrewrite (rewriting : Rewriting) :=
      Branch.rewriteAll_attribute (r := rewriting) (List.nodup_append.mp hrest).1
    obtain ⟨site, htrees, hfill⟩ := w.exists_site h hm
    let pairs (as : List OwnedAttribute) := as.map fun a => (a.name, a.value)
    refine ⟨⟨site, .attribute name (pairs l) key hkey (pairs r) (Branch.eraseAll children)⟩, ?_, ?_, ?_⟩
    · have := Slot.Opens.attribute site name (pairs l) hkey value (pairs r) (Branch.eraseAll children)
      rw [htrees]
      simpa [Branch.erase, pairs] using this
    · intro text
      simp [w.node_of_attribute h, Node.isContainer, Hole.node, Node.withValue]
    · intro text ht
      rw [hfill text ht, hrewrite]
      simp [setting, Branch.eraseAll, Branch.erase, Slot.fill, Hole.tree, pairs]
  | @leaf kind value before after h =>
    have hm : target ∈ idents (Branch.leaf target kind value).entries := Branch.ident_mem_entries _
    obtain ⟨site, htrees, hfill⟩ := w.exists_site h hm
    refine ⟨⟨site, .leaf kind "" ""⟩, ?_, ?_, ?_⟩
    · rw [htrees]
      exact .leaf site kind value
    · intro text
      cases kind <;> simp [w.node_of_leaf h, LeafKind.node, Node.isContainer, Hole.node, Node.withValue]
    · intro text ht
      rw [hfill text ht]
      simp [Branch.rewriteAll, Branch.ident, setting, Branch.withChildren, Branch.withValue,
        Branch.eraseAll, Branch.erase, Slot.fill, Hole.tree]
  | finish h => exact absurd (w.node_of_finish h) hf

/-- The nodes that are read after a text has been set on a node. -/
def nodesAfter (mode : Markup.Mode) (input : Bytes) (ident : Nat) (text : String) :
    Option (List Node) := do
  let d ← (parse 0 mode input).toOption
  let d₁ ← (d.setText ⟨0, ident⟩ text).toOption
  let d₂ ← (parse 1 mode d₁.toBytes).toOption
  return d₂.nodes

end Document
end MarkupGraft
