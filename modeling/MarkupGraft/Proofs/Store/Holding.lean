import MarkupGraft.Proofs.Store.Children
import MarkupGraft.Proofs.Store.Grafting
import MarkupGraft.Store.View

/-!
What a node holds: a container the trees of its children, and a leaf its text. Both are told by the
sequence of nodes alone, so a document that has the same nodes under other handles holds the same.
-/

namespace MarkupGraft
open Branch (Stands entriesAll eraseAll)

/-- Whether an element holds just the given trees, and a leaf the given text. -/
def Branch.HoldsContent (trees : List Tree) (text : String) : Branch → Prop
  | .element _ _ _ children _ => eraseAll children = trees
  | .leaf _ _ value => value = text

namespace Document
variable {d d' : Document}

/-- Whether a node has a child, where a document type declaration counts for none. -/
def IsFilled (d : Document) (p : Nat) : Prop := ∃ c ∈ d.children p, ¬ (d.node c).isDoctype

/-- Whether a container holds just the given trees, and a leaf the given text. -/
def HoldsContent (d : Document) (p : Nat) (trees : List Tree) (text : String) : Prop :=
  if (d.node p).isContainer then (d.children p).flatMap d.treesAt = trees
  else (d.node p).value = text

section
variable (h : d'.nodes = d.nodes)
include h

theorem node_congr (p : Nat) : d'.node p = d.node p := by rw [node, node, h]

theorem place_congr (p : Nat) : d'.place p = d.place p := by
  rw [place, place, outline, outline, h]

theorem length_congr : d'.length = d.length := by
  rw [← length_nodes, ← length_nodes, h]

theorem treesAt_congr (p : Nat) : d'.treesAt p = d.treesAt p := by
  rw [treesAt, treesAt, node_congr h, trees, trees, extent, extent, slice, slice, last, last,
    place_congr h, h]

theorem isFilled_congr (p : Nat) : d'.IsFilled p ↔ d.IsFilled p := by
  simp only [IsFilled, children, place_congr h, node_congr h]

theorem holdsContent_congr (p : Nat) (trees : List Tree) (text : String) :
    d'.HoldsContent p trees text ↔ d.HoldsContent p trees text := by
  have htrees : d'.treesAt = d.treesAt := funext fun p => treesAt_congr h p
  rw [HoldsContent, HoldsContent, node_congr h, children, children, place_congr h, htrees]

end

/-! Containers -/

/-- A container of a document with what it lists: the entries in front, its own with those of its
attributes, its content and the entries behind. -/
structure Lists (d : Document) (p : Nat) (before rest : List Entry) (head finish : Entry)
    (attributes : List OwnedAttribute) (children : List Branch) : Prop where
  position : before.length = p
  isContainer : head.node.isContainer
  isFinish : finish.node = .finish
  entries : d.entries = before ++ head ::
    (attributes.map OwnedAttribute.entry ++ (entriesAll children ++ finish :: rest))

theorem WellFormed.lists_of_element (w : d.WellFormed) {ident finish : Nat} {name : Name}
    {attributes : List OwnedAttribute} {children : List Branch} {before after : List Entry}
    (hs : Stands (.element ident name attributes children finish) d.tree.children before after) :
    d.Lists (before.length + 1) (⟨.document, d.tree.ident⟩ :: before)
      (after ++ [⟨.finish, d.tree.finish⟩]) ⟨.element name, ident⟩ ⟨.finish, finish⟩ attributes
      children :=
  ⟨rfl, rfl, rfl, w.entries_of_element hs⟩

theorem WellFormed.lists_of_root (w : d.WellFormed) : d.Lists 0 [] [] ⟨.document, d.tree.ident⟩
    ⟨.finish, d.tree.finish⟩ [] d.tree.children :=
  ⟨rfl, rfl, rfl, w.entries_of_root⟩

theorem WellFormed.exists_lists (w : d.WellFormed) {p : Nat} (hp : p < d.length)
    (hc : (d.node p).isContainer) : ∃ before rest head finish attributes children,
      d.Lists p before rest head finish attributes children := by
  by_cases hroot : d.node p = .document
  · obtain rfl := (w.document_iff hp).mp hroot
    exact ⟨_, _, _, _, _, _, w.lists_of_root⟩
  · have hchild : (d.node p).isChild := by
      cases hn : d.node p <;> simp_all [Node.isContainer, Node.isChild]
    obtain ⟨b, before, after, hs, -, rfl⟩ := w.exists_stands (w.found (w.located hp)) hchild hroot
    cases b with
    | element => exact ⟨_, _, _, _, _, _, w.lists_of_element hs⟩
    | leaf ident kind value =>
      rw [w.node_of_leaf hs] at hc
      cases kind <;> simp [LeafKind.node, Node.isContainer] at hc

/-- A branch that is listed somewhere is what stands there. -/
theorem WellFormed.treesAt_of_entries (w : d.WellFormed) {before after : List Entry} {b : Branch}
    (h : d.entries = before ++ (b.entries ++ after)) : d.treesAt before.length = [b.erase] := by
  obtain ⟨head, rest, hb, hchild, hdocument⟩ := b.entries_head
  have hnode : d.node before.length = head := by
    have hhead : d.entries = before ++ ⟨head, b.ident⟩ :: (rest ++ after) := by
      rw [h, hb]
      rfl
    exact node_of_entries hhead
  have hlast : d.last before.length + 1 = before.length + b.entries.length := by
    cases b with
    | element ident name attributes children finish =>
      have hentries : d.entries = before ++ ⟨.element name, ident⟩ ::
          (attributes.map OwnedAttribute.entry ++
            (entriesAll children ++ ⟨.finish, finish⟩ :: after)) := by
        rw [h, Branch.entries]
        simp
      rw [(content_range rfl rfl hentries).2, Branch.entries]
      simp
      omega
    | leaf ident kind value =>
      rw [Branch.entries] at hb
      cases hb
      have hlt : before.length < d.length := by
        rw [length, h, Branch.entries]
        simp
      rw [(w.alone hlt (by rw [hnode]; cases kind <;> simp [LeafKind.node, Node.isContainer])).1,
        Branch.entries]
      rfl
  have hextent : d.extent before.length = Tree.listingAll [b.erase] := by
    rw [extent, hlast, slice_eq h, Branch.nodes_entries, Tree.listingAll, Tree.listingAll,
      List.append_nil]
  rw [treesAt, hnode, hextent]
  cases head with
  | document => exact absurd rfl hdocument
  | «attribute» | finish => cases hchild
  | _ => exact Tree.forest_listingAll _

private theorem flatMap_treesAt_starts (w : d.WellFormed) {before after : List Entry}
    {bs : List Branch} (h : d.entries = before ++ (entriesAll bs ++ after)) :
    (Outline.starts before.length (eraseAll bs)).flatMap d.treesAt = eraseAll bs := by
  induction bs generalizing before with
  | nil => rfl
  | cons b bs ih =>
    rw [entriesAll, List.append_assoc] at h
    have hlength : before.length + b.erase.listing.length = (before ++ b.entries).length := by
      rw [List.length_append, ← b.nodes_entries, List.length_map]
    have hrest := @ih (before ++ b.entries) (by rw [h, List.append_assoc])
    rw [eraseAll, Outline.starts, List.flatMap_cons, w.treesAt_of_entries h, hlength, hrest]
    rfl

namespace Lists
variable {p : Nat} {before rest : List Entry} {head finish : Entry}
  {attributes : List OwnedAttribute} {children : List Branch}
  (h : d.Lists p before rest head finish attributes children)
include h

theorem range : d.contentStart p = p + 1 + attributes.length ∧
    d.last p = p + 1 + attributes.length + (entriesAll children).length := by
  obtain ⟨rfl, hc, hf, hentries⟩ := h
  exact content_range hc hf hentries

/-- What a container lists are the trees of its children. -/
theorem flatMap_treesAt (w : d.WellFormed) :
    (d.children p).flatMap d.treesAt = eraseAll children := by
  obtain ⟨rfl, hc, hf, hentries⟩ := h
  have hnodes : d.nodes = before.map (·.node) ++ head.node ::
      (Tree.attributeNodes (attributes.map fun a => (a.name, a.value)) ++
        (Tree.listingAll (eraseAll children) ++ .finish :: rest.map (·.node))) := by
    simp [nodes, hentries, hf, Branch.nodes_entriesAll, Tree.attributeNodes, OwnedAttribute.entry,
      Function.comp_def]
  have hplace := Outline.placeAt_children_of_listing hc hnodes
  rw [List.length_map, List.length_map] at hplace
  have hchildren : d.children before.length =
      Outline.starts (before.length + 1 + attributes.length) (eraseAll children) := hplace
  have hsplit : d.entries = (before ++ head :: attributes.map OwnedAttribute.entry) ++
      (entriesAll children ++ finish :: rest) := by
    rw [hentries]
    simp
  have hstarts := flatMap_treesAt_starts w hsplit
  rw [List.length_append, List.length_cons, List.length_map, ← Nat.add_assoc,
    Nat.add_right_comm] at hstarts
  rw [hchildren, hstarts]

end Lists

/-- A branch holds what the node at its head does. -/
theorem WellFormed.holdsContent_of_stands (w : d.WellFormed) {b : Branch} {before after : List Entry}
    (hs : Stands b d.tree.children before after) {trees : List Tree} {text : String} :
    d.HoldsContent (before.length + 1) trees text ↔ b.HoldsContent trees text := by
  cases b with
  | element ident name attributes children finish =>
    rw [HoldsContent, w.node_of_element hs, (w.lists_of_element hs).flatMap_treesAt w]
    rfl
  | leaf ident kind value =>
    rw [HoldsContent, w.node_of_leaf hs]
    cases kind <;> rfl

theorem WellFormed.holdsContent_of_root (w : d.WellFormed) {trees : List Tree} {text : String} :
    d.HoldsContent 0 trees text ↔ eraseAll d.tree.children = trees := by
  rw [HoldsContent, w.node_of_root, w.lists_of_root.flatMap_treesAt w]
  rfl

/-! Nodes without children -/

/-- What stands in a container that is not filled are document type declarations. -/
theorem WellFormed.exists_doctype (w : d.WellFormed) {p : Nat} (hp : p < d.length)
    (hempty : ¬ d.IsFilled p) : ∀ t ∈ (d.children p).flatMap d.treesAt, ∃ v, t = .doctype v := by
  intro t ht
  obtain ⟨c, hc, ht⟩ := List.mem_flatMap.mp ht
  have hdoctype : (d.node c).isDoctype := by
    by_contra hn
    exact hempty ⟨c, hc, hn⟩
  have hlt : c < d.length := by
    by_cases hcontainer : (d.node p).isContainer
    · rw [w.children_eq hp hcontainer, List.mem_filter, List.mem_range] at hc
      exact hc.1
    · rw [(w.alone hp hcontainer).2] at hc
      cases hc
  cases hn : d.node c with
  | doctype v =>
    have hextent : d.extent c = [.doctype v] := by
      have hdrop : d.nodes.drop c = .doctype v :: d.nodes.drop (c + 1) := by
        rw [← hn, Document.node, List.getD_eq_getElem _ _ (by simpa using hlt)]
        exact List.drop_eq_getElem_cons (by simpa using hlt)
      rw [extent, (w.alone hlt (by simp [hn, Node.isContainer])).1, slice, List.drop_take, hdrop]
      simp
    rw [treesAt, hn, hextent] at ht
    exact ⟨v, by simpa [Tree.forest, Tree.insides, Tree.prepend, Tree.modifyInnermost, Tree.innermost,
      Tree.Inside.addChild] using ht⟩
  | _ => simp [hn, Node.isDoctype] at hdoctype

end Document

namespace Tree
variable {ts us : List Tree}

/-- Document type declarations come in as they are. -/
theorem eq_of_declaredAs_doctype (h : List.Forall₂ DeclaredAs ts us)
    (hdoctype : (∀ t ∈ ts, ∃ v, t = .doctype v) ∨ ∀ u ∈ us, ∃ v, u = .doctype v) : us = ts := by
  induction h with
  | nil => rfl
  | @cons t u ts us htu _ ih =>
    obtain ⟨declarations, -, rfl⟩ := htu
    rw [List.forall_mem_cons, List.forall_mem_cons] at hdoctype
    have hhead : ∃ v, t = .doctype v := by
      refine hdoctype.elim (·.1) fun ⟨⟨v, hv⟩, _⟩ => ⟨v, ?_⟩
      cases t <;> cases hv
      rfl
    obtain ⟨v, rfl⟩ := hhead
    rw [ih (hdoctype.imp (·.2) (·.2))]
    rfl

end Tree

namespace Document
variable {d d' : Document}

/-- What has come into a node that is not filled has come in as it is. -/
theorem WellFormed.holdsContent_iff_of_declaredAs (w : d.WellFormed) {p : Nat} (hp : p < d.length)
    (hempty : ¬ d.IsFilled p) {trees content : List Tree} {text : String}
    (hcontent : List.Forall₂ Tree.DeclaredAs trees content) :
    d.HoldsContent p content text ↔ d.HoldsContent p trees text := by
  have hdoctype := w.exists_doctype hp hempty
  rw [HoldsContent, HoldsContent]
  split
  · constructor
    · rintro rfl
      exact Tree.eq_of_declaredAs_doctype hcontent (.inr hdoctype)
    · rintro rfl
      exact (Tree.eq_of_declaredAs_doctype hcontent (.inl hdoctype)).symm
  · rfl

/-- Nothing changes when a leaf takes the text that it has. -/
theorem setValue_value (d : Document) (p : Nat) : d.setValue p (d.node p).value = d := by
  have hentries : d.entries.modify p (fun e => { e with node := e.node.withValue (d.node p).value }) =
      d.entries := by
    refine List.ext_getElem? fun q => ?_
    rw [List.getElem?_modify]
    cases he : d.entries[q]? with
    | none => rfl
    | some e =>
      by_cases hpq : p = q
      · subst hpq
        have hnode : d.node p = e.node := by simp [node, nodes, List.getD_eq_getElem?_getD, he]
        have hvalue : e.node.withValue e.node.value = e.node := by cases e.node <;> rfl
        simp [hnode, hvalue]
      · simp [hpq]
  rw [setValue, hentries]

/-- A document with the same nodes, of which those that are not renewed have kept their handles. -/
structure Unchanged (d d' : Document) (renewed : Nat → Prop) : Prop where
  wellFormed : d'.WellFormed
  id_eq : d'.id = d.id
  nodes_eq : d'.nodes = d.nodes
  handleAt_eq {q : Nat} (hq : ¬ renewed q) : d'.handleAt q = d.handleAt q

/-- The same nodes have come into the place of others. -/
theorem Unchanged.of_entries {renewed : Nat → Prop} {before old new after : List Entry}
    (w' : d'.WellFormed) (hid : d'.id = d.id) (h : d.entries = before ++ (old ++ after))
    (h' : d'.entries = before ++ (new ++ after)) (hnodes : new.map (·.node) = old.map (·.node))
    (hrenewed : ∀ q, before.length ≤ q → q < before.length + old.length → renewed q) :
    d.Unchanged d' renewed where
  wellFormed := w'
  id_eq := hid
  nodes_eq := by simp [nodes, h, h', hnodes]
  handleAt_eq {q} hq := by
    have hlength : new.length = old.length := by simpa using congrArg List.length hnodes
    rw [handleAt, handleAt, hid, h, h']
    congr 2
    simp only [List.getD_eq_getElem?_getD]
    by_cases hlt : q < before.length
    · rw [List.getElem?_append_left hlt, List.getElem?_append_left hlt]
    · have hge := mt (hrenewed q (Nat.le_of_not_lt hlt)) hq
      rw [List.getElem?_append_right (by omega), List.getElem?_append_right (by omega),
        List.getElem?_append_right (by omega), List.getElem?_append_right (by omega), hlength]

end Document
end MarkupGraft
