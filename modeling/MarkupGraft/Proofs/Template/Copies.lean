import MarkupGraft.Proofs.Store.Concatenation
import MarkupGraft.Proofs.Template.Substitution

/-!
Copies of a target. A detached copy is a document of a single tree, that of the target; filling it
leaves a single tree, with the content of an item in the place of its own.
-/

namespace MarkupGraft
open Branch (Stands)
open MarkupGraft.Tree (listingAll)

/-- A tree with other content: other children for an element, and another text for a leaf. -/
def Tree.withContent (children : List Tree) (text : String) : Tree → Tree
  | .element name attributes _ => .element name attributes children
  | .text _ => .text text
  | .comment _ => .comment text
  | .instruction _ => .instruction text
  | .doctype _ => .doctype text

/-- The trees of what an item holds: of all inside a container, and of the item itself otherwise. -/
def Item.content : Item → List Tree
  | .node document position =>
    if (document.node position).isContainer then
      (document.children position).flatMap document.treesAt
    else document.treesAt position
  | .text value => [.text value]

theorem Tree.DeclaredAs.refl (t : Tree) : t.DeclaredAs t :=
  ⟨[], fun _ ha => (nomatch ha), by cases t <;> rfl⟩

/-! Cutting out -/

theorem Fragment.trees_join {fs : List Fragment} (h : ∀ f ∈ fs, f.Complete) :
    (join fs).trees = fs.flatMap trees := by
  have hfold (kept : Fragment) (hkept : kept.Complete) :
      (fs.foldl (· ++ ·) kept).trees = kept.trees ++ fs.flatMap trees := by
    induction fs generalizing kept with
    | nil => simp
    | cons f fs ih =>
      obtain ⟨hf, hfs⟩ := List.forall_mem_cons.mp h
      rw [List.foldl_cons, ih hfs _ (hkept.append hf), hkept.trees_append hf, List.flatMap_cons,
        List.append_assoc]
  exact hfold {} complete_empty

namespace Document
variable {d : Document} {target : Handle}

theorem trees_of_mapM {α ε : Type} {cut : α → Except ε Fragment} {trees : α → List Tree}
    {l : List α} {fs : List Fragment} (h : ∀ a ∈ l, ∀ f, cut a = .ok f → f.trees = trees a)
    (hfs : l.mapM cut = .ok fs) : fs.flatMap Fragment.trees = l.flatMap trees := by
  induction l generalizing fs with
  | nil =>
    cases hfs
    rfl
  | cons a l ih =>
    rw [List.mapM_cons] at hfs
    obtain ⟨f, hf, hfs⟩ := Markup.bind_eq_ok_iff.mp hfs
    obtain ⟨others, hothers, hfs⟩ := Markup.bind_eq_ok_iff.mp hfs
    cases hfs
    obtain ⟨ha, hl⟩ := List.forall_mem_cons.mp h
    rw [List.flatMap_cons, List.flatMap_cons, ha f hf, ih hl hothers]

namespace WellFormed
variable (w : d.WellFormed)
include w

theorem trees_of_extract {q : Nat} (hq : d.locate? target = some q) {f : Fragment}
    (h : d.extract target = .ok f) : f.trees = d.treesAt q := by
  rw [extract_eq hq] at h
  rw [treesAt]
  cases hnode : d.node q with
  | document =>
    obtain rfl := (w.document_iff (w.lt_length_of_locate? hq)).mp hnode
    rw [hnode] at h
    cases h
    rw [Fragment.trees, w.slice_content, Tree.forest_listingAll, trees, w.forest_nodes]
  | finish =>
    rw [hnode] at h
    cases h
  | _ =>
    rw [hnode] at h
    cases h
    rfl

theorem trees_of_detachChildren {p : Nat} (hp : p < d.length) {f : Fragment}
    (h : d.detachChildren p = .ok f) : f.trees = (d.children p).flatMap d.treesAt := by
  obtain ⟨fs, hfs, rfl⟩ := Markup.map_eq_ok_iff.mp h
  have hcomplete := (Avoids.mapM fun c hc => w.avoids_extract
    (w.contains_handleAt (w.lt_length_of_mem_children hp hc))).of_eq_ok hfs
  rw [Fragment.trees_join hcomplete]
  exact trees_of_mapM (fun c hc f hf => w.trees_of_extract
    (w.located (w.lt_length_of_mem_children hp hc)) hf) hfs

/-- The handles of the trees of a document. -/
theorem handles_top : (d.children 0).map d.handleAt = d.tree.children.map fun b => ⟨d.id, b.ident⟩ :=
  handles_children rfl rfl w.entries_of_root

end WellFormed

end Document

theorem Item.Sound.trees_of_filling {item : Item} (h : item.Sound) {f : Fragment}
    (hf : item.filling = .ok f) : f.trees = item.content := by
  cases item with
  | node document position =>
    rw [Item.filling] at hf
    rw [Item.content]
    split at hf
    · rename_i hcontainer
      rw [if_pos hcontainer]
      exact h.1.trees_of_detachChildren h.2.1 hf
    · rename_i hcontainer
      rw [if_neg hcontainer]
      exact h.1.trees_of_extract (h.1.located h.2.1) hf
  | text value =>
    cases hf
    rfl

namespace Document
variable {d : Document} {target : Handle}

/-- A document of a single tree, and the handle of the tree. -/
structure Holds (d : Document) (node : Handle) (t : Tree) : Prop where
  wellFormed : d.WellFormed
  tree : ∃ b : Branch, d.tree.children = [b] ∧ node = ⟨d.id, b.ident⟩ ∧ b.erase = t

/-- A detached copy of a branch holds its tree. -/
theorem WellFormed.holds_of_detach (w : d.WellFormed) {b : Branch} {before after : List Entry}
    (hs : Stands b d.tree.children before after)
    (hp : d.locate? target = some (before.length + 1)) {id : Nat} {copy : Document} {node : Handle}
    (h : d.detach target id = .ok (copy, node)) :
    copy.Holds node b.erase := by
  obtain ⟨head, rest, hb, -, hdocument⟩ := b.entries_head
  have hhead := w.node_of_stands hs hb
  obtain ⟨_, hq, h⟩ := Markup.bind_eq_ok_iff.mp h
  cases (locate_eq_ok hp).symm.trans hq
  obtain ⟨made, hmade, h⟩ := Markup.bind_eq_ok_iff.mp h
  obtain ⟨wmade, hid⟩ := w.copySubtree hmade
  rw [Document.copySubtree, (w.extract_of_stands hs hp).1] at hmade
  have htree : made.tree = RootedTree.ofTrees [b.erase] := by
    cases hmade
    exact (congrArg RootedTree.ofEntries (entries_ofNodes_listingAll id .xml [b.erase])).trans
      (RootedTree.ofEntries_entries _)
  have htop := wmade.handles_top
  rw [htree] at htop
  obtain ⟨child, hchild, hhandle⟩ := List.map_eq_singleton_iff.mp htop
  rw [hhead, hchild] at h
  have hmade' : (made, made.handleAt child) = (copy, node) := by
    cases head with
    | document => exact absurd rfl hdocument
    | _ =>
      cases h
      rfl
  cases hmade'
  refine ⟨wmade, Branch.number 1 b.erase, congrArg RootedTree.children htree, ?_, ?_⟩
  · rw [hhandle]
  · exact List.singleton_inj.mp (Branch.eraseAll_numberAll 1 [b.erase])

variable {node : Handle} {t : Tree}

namespace Holds

theorem trees_eq (h : d.Holds node t) : d.trees = [t] := by
  obtain ⟨b, hchildren, -, rfl⟩ := h.tree
  rw [trees, h.wellFormed.forest_nodes, hchildren]
  rfl

theorem located (h : d.Holds node t) : d.locate? node = some 1 := by
  obtain ⟨b, hchildren, rfl, -⟩ := h.tree
  have hs : Stands b d.tree.children [] [] := hchildren ▸ .here [] []
  exact h.wellFormed.locate?_of_stands hs

/-- An edit of the tree that a document holds. -/
private theorem edited (h : d.Holds node t) {e : Edit Fragment} {d' : Document}
    (he : e.target = node) (hf : ∀ f ∈ e.content?, f.Complete) (hd' : d.edit e = .ok d') :
    d'.WellFormed ∧ d'.id = d.id ∧ d'.tree = d.tree.edit d.nextIdent
      (e.map (Fragment.treesUnder · (d.scopeAt (e.host d 1)))) := by
  obtain ⟨p, hp, hsupports, rfl⟩ := d.edit_eq_ok_iff.mp hd'
  obtain rfl := Option.some.inj ((he ▸ hp).symm.trans h.located)
  obtain ⟨w', htree⟩ := h.wellFormed.edited hf hp hsupports
  exact ⟨w', (d.edited_kept e 1).1, htree⟩

/-- Filling changes the content alone. -/
theorem filled (h : d.Holds node t) {item : Item} (hitem : item.Sound) {d' : Document}
    (hd' : d.fill node item = .ok d') :
    ∃ content, List.Forall₂ Tree.DeclaredAs item.content content ∧
      d'.Holds node (t.withContent content item.toText) := by
  have w := h.wellFormed
  obtain ⟨_, hp, hd'⟩ := Markup.bind_eq_ok_iff.mp hd'
  cases (locate_eq_ok h.located).symm.trans hp
  obtain ⟨b, hchildren, hnode, rfl⟩ := h.tree
  have hs : Stands b d.tree.children [] [] := hchildren ▸ .here [] []
  have hroot := RootedTree.ident_ne_of_stands hs w.nodup_tree b.ident_mem_entries
  cases b with
  | element ident name attributes children finish =>
    have hcontainer : d.node 1 = .element name := w.node_of_element hs
    rw [hcontainer] at hd'
    obtain ⟨f, hf, hd'⟩ := Markup.bind_eq_ok_iff.mp hd'
    have hcomplete := hitem.avoids_filling.of_eq_ok hf
    have hedit : d.edit (.replaceChildren node f) = .ok d' := hd'
    obtain ⟨w', hid, htree⟩ := h.edited rfl (by simpa [Edit.content?] using hcomplete) hedit
    have hnew : d'.tree.children = [.element ident name attributes
        (Branch.numberAll d.nextIdent (f.treesUnder (d.scopeAt 1))) finish] := by
      rw [htree, Edit.map, RootedTree.edit, hnode, RootedTree.replaceChildren, if_neg hroot,
        RootedTree.rewrite, hchildren, Branch.rewriteAll, if_pos rfl]
      rfl
    refine ⟨f.treesUnder (d.scopeAt 1), ?_, w', _, hnew, ?_, ?_⟩
    · rw [← hitem.trees_of_filling hf]
      exact f.declaredAs_treesUnder _
    · rw [hnode, hid]
      rfl
    · rw [Branch.erase, Branch.eraseAll_numberAll]
      rfl
  | leaf ident kind value =>
    have hnode₁ : d.node 1 = kind.node value := w.node_of_leaf hs
    have hleaf : ¬(d.node 1).isContainer := by
      rw [hnode₁]
      cases kind <;> simp [LeafKind.node, Node.isContainer]
    rw [if_neg hleaf] at hd'
    have hedit : d.edit (.setText node item.toText) = .ok d' := hd'
    obtain ⟨w', hid, htree⟩ := h.edited rfl (by simp [Edit.content?]) hedit
    have hnew : d'.tree.children = [.leaf ident kind item.toText] := by
      rw [htree, Edit.map, RootedTree.edit, hnode, RootedTree.setText, if_neg hroot,
        RootedTree.rewrite, hchildren, Branch.rewriteAll, if_pos rfl]
      rfl
    refine ⟨item.content, List.forall₂_same.mpr fun t _ => .refl t, w', _, hnew, ?_, ?_⟩
    · rw [hnode, hid]
      rfl
    · cases kind <;> rfl

end Holds
end Document
end MarkupGraft
