import MarkupGraft.Proofs.Store.Composition

/-!
The text inside a container. It is collected by one scan of the positions up to the end marker, which
is the recursion over the children: text adds its value, an element the text inside it, and what else
can stand there nothing. Attributes are passed over.
-/

namespace MarkupGraft

namespace Node

/-- What a node adds to the text that is scanned. -/
def text? : Node → Option String
  | .text value => some value
  | _ => none

/-- The text of a run of nodes. -/
def joinText (nodes : List Node) : String := String.join (nodes.filterMap text?)

/-- An attribute without its value, and any other node as it is. -/
def bare : Node → Node
  | .attribute name _ => .attribute name ""
  | node => node

theorem stringValue_eq_joinText {node : Node} (h : node.isContainer) (inside : List Node) :
    node.stringValue inside = joinText inside := by
  rw [stringValue, if_pos h, Tree.intercalate_empty]
  rfl

theorem joinText_append (nodes more : List Node) :
    joinText (nodes ++ more) = joinText nodes ++ joinText more := by
  rw [joinText, List.filterMap_append, String.join_append]
  rfl

theorem joinText_map_bare (nodes : List Node) : joinText (nodes.map bare) = joinText nodes := by
  have htext : text? ∘ bare = text? := by
    funext node
    cases node <;> rfl
  rw [joinText, List.filterMap_map, htext]
  rfl

@[simp] theorem isContainer_bare (node : Node) : node.bare.isContainer = node.isContainer := by
  cases node <;> rfl

end Node

namespace Tree
open Node (joinText)

mutual

/-- The text of a tree by recursion over it. -/
def innerText : Tree → String
  | .element _ _ children => innerTextAll children
  | .text value => value
  | .comment _ | .instruction _ | .doctype _ => ""

def innerTextAll : List Tree → String
  | [] => ""
  | tree :: trees => innerText tree ++ innerTextAll trees

end

theorem innerTextAll_append (ts us : List Tree) :
    innerTextAll (ts ++ us) = innerTextAll ts ++ innerTextAll us := by
  induction ts with
  | nil => exact String.empty_append.symm
  | cons t ts ih => rw [List.cons_append, innerTextAll, innerTextAll, ih, String.append_assoc]

theorem innerTextAll_flatMap {α : Type} (trees : α → List Tree) (l : List α) :
    innerTextAll (l.flatMap trees) = String.join (l.map fun x => innerTextAll (trees x)) := by
  induction l with
  | nil => rfl
  | cons x l ih => rw [List.flatMap_cons, innerTextAll_append, ih, List.map_cons, String.join_cons]

theorem joinText_attributeNodes (attributes : List (Name × String)) :
    joinText (attributeNodes attributes) = "" := by
  induction attributes with
  | nil => rfl
  | cons a attributes ih => exact ih

mutual

/-- The scan of a tree's nodes is the recursion over the tree. -/
theorem joinText_listing : ∀ t : Tree, joinText t.listing = t.innerText
  | .element name attributes children => by
    have hhead : joinText [.element name] = "" := rfl
    have hfinish : joinText [.finish] = "" := rfl
    rw [listing, ← List.singleton_append, Node.joinText_append, Node.joinText_append,
      Node.joinText_append, hhead, hfinish, joinText_attributeNodes, joinText_listingAll children,
      innerText, String.empty_append, String.empty_append, String.append_empty]
  | .text value => by
    rw [listing, innerText]
    exact String.empty_append
  | .comment _ | .instruction _ | .doctype _ => rfl

theorem joinText_listingAll : ∀ ts : List Tree, joinText (listingAll ts) = innerTextAll ts
  | [] => rfl
  | t :: ts => by
    rw [listingAll, Node.joinText_append, joinText_listing t, joinText_listingAll ts, innerTextAll]

end

end Tree

namespace Outline
open Node (bare)

theorem parentsFrom_map_bare (opened : List Nat) (position : Nat) (nodes : List Node) :
    parentsFrom opened position (nodes.map bare) = parentsFrom opened position nodes := by
  induction nodes generalizing opened position with
  | nil => rfl
  | cons node nodes ih => cases node <;> simp [parentsFrom, bare, ih]

theorem contentsFrom_map_bare (position : Nat) (nodes : List Node) :
    contentsFrom position (nodes.map bare) = contentsFrom position nodes := by
  induction nodes generalizing position with
  | nil => rfl
  | cons node nodes ih => cases node <;> simp [contentsFrom, bare, ih]

/-- The outline does not depend on the values of attributes. -/
theorem ofNodes_map_bare (nodes : List Node) : ofNodes (nodes.map bare) = ofNodes nodes := by
  rw [ofNodes, parentsFrom_map_bare, contentsFrom_map_bare, ofNodes]

end Outline

namespace Document
variable {d d' : Document} {p c : Nat}

/-- What a child adds to the text of its parent. -/
def childText (d : Document) (c : Nat) : String :=
  match d.node c with
  | .text value => value
  | .element _ => d.stringValue c
  | _ => ""

theorem view_stringValue (d : Document) (p : Nat) : d.view.stringValue p = d.stringValue p := by
  have hinside : (d.nodes.toArray.extract (p + 1) (d.last p)).toList =
      d.slice (p + 1) (d.last p) := by
    rw [slice, List.drop_take]
    simp
  have hnode : d.nodes.toArray.getD p default = d.node p := by
    simp [node, Array.getD_eq_getD_getElem?, List.getD_eq_getElem?_getD]
  have hplace : d.outline.toArray.getD p ⟨none, p, []⟩ = d.place p := by
    simp [place, Array.getD_eq_getD_getElem?, List.getD_eq_getElem?_getD]
  simp only [view, hnode, hplace, stringValue, ← hinside]
  rfl

section
variable (h : d'.nodes.map Node.bare = d.nodes.map Node.bare)
include h

private theorem bare_node_congr (p : Nat) : (d'.node p).bare = (d.node p).bare := by
  have hbare (d : Document) : (d.node p).bare = (d.nodes.map Node.bare).getD p default :=
    (List.getD_map d.nodes default Node.bare).symm
  rw [hbare, hbare, h]

private theorem last_congr_of_bare (p : Nat) : d'.last p = d.last p := by
  rw [last, last, place, place, outline, outline, ← Outline.ofNodes_map_bare, h,
    Outline.ofNodes_map_bare]

/-- Documents that differ in the values of attributes only hold the same text. -/
theorem stringValue_congr (hc : (d.node p).isContainer) : d'.stringValue p = d.stringValue p := by
  have hcontainer : (d'.node p).isContainer := by
    rw [← Node.isContainer_bare, bare_node_congr h, Node.isContainer_bare]
    exact hc
  have hslice (d : Document) (start stop : Nat) : (d.slice start stop).map Node.bare =
      ((d.nodes.map Node.bare).take stop).drop start := by
    rw [slice, List.map_drop, List.map_take]
  rw [stringValue, stringValue, Node.stringValue_eq_joinText hcontainer,
    Node.stringValue_eq_joinText hc, last_congr_of_bare h, ← Node.joinText_map_bare, hslice, h,
    ← hslice, Node.joinText_map_bare]

end

namespace WellFormed
variable (w : d.WellFormed)
include w

/-- The text inside a container is that of the trees of its children. -/
theorem stringValue_eq_innerTextAll (hp : p < d.length) (hc : (d.node p).isContainer) :
    d.stringValue p = Tree.innerTextAll ((d.children p).flatMap d.treesAt) := by
  obtain ⟨before, rest, head, finish, attributes, children, h⟩ := w.exists_lists hp hc
  have hentries : d.entries = (before ++ [head]) ++
      ((attributes.map OwnedAttribute.entry ++ Branch.entriesAll children) ++ finish :: rest) := by
    rw [h.entries]
    simp
  have hslice := slice_eq hentries
  rw [List.length_append, List.length_append, h.position, List.length_singleton, List.length_map,
    ← Nat.add_assoc, ← h.range.2] at hslice
  have hattributes : (attributes.map OwnedAttribute.entry).map (·.node) =
      Tree.attributeNodes (attributes.map fun a => (a.name, a.value)) := by
    simp [Tree.attributeNodes, OwnedAttribute.entry, Function.comp_def]
  rw [stringValue, Node.stringValue_eq_joinText hc, hslice, List.map_append, Node.joinText_append,
    hattributes, Tree.joinText_attributeNodes, String.empty_append, Branch.nodes_entriesAll,
    Tree.joinText_listingAll, h.flatMap_treesAt w]

/-- A child adds the text of its tree. -/
theorem innerTextAll_treesAt (hp : p < d.length) (hc : (d.node p).isContainer)
    (h : c ∈ d.children p) : Tree.innerTextAll (d.treesAt c) = d.childText c := by
  obtain ⟨t, ht, -⟩ := w.exists_standsAs_of_child hp hc h
  have hlt := ((w.mem_children_iff hp hc).mp h).1
  have hhead := ht.head
  cases t with
  | element name attributes children =>
    have hnode : d.node c = .element name := (Option.some.inj hhead).symm
    have hcontainer : (d.node c).isContainer := by
      rw [hnode]
      rfl
    obtain ⟨_, inside, hdisplays⟩ := w.exists_displays hlt hnode
    have htrees := hdisplays.standsAs.treesAt
    rw [ht.treesAt] at htrees
    obtain ⟨-, -, rfl⟩ := Tree.element.inj (List.cons.inj htrees).1
    rw [childText, hnode, w.stringValue_eq_innerTextAll hlt hcontainer, hdisplays.children,
      ht.treesAt]
    exact String.append_empty
  | text value =>
    have hnode : d.node c = .text value := (Option.some.inj hhead).symm
    rw [childText, hnode, ht.treesAt]
    exact String.append_empty
  | comment value | instruction value | doctype value =>
    rw [childText, ← Option.some.inj hhead, ht.treesAt]
    rfl

/-- The text inside a container is what its children add to it, in their order: the scan that finds it
is the recursion. Queries find the same text. The values of attributes add nothing to it. -/
theorem stringValue_recursive (hp : p < d.length) (hc : (d.node p).isContainer) :
    d.stringValue p = String.join ((d.children p).map d.childText) ∧
      d.view.stringValue p = d.stringValue p ∧
      ∀ d' : Document, d'.nodes.map Node.bare = d.nodes.map Node.bare →
        d'.stringValue p = d.stringValue p := by
  refine ⟨?_, view_stringValue d p, fun d' h => stringValue_congr h hc⟩
  rw [w.stringValue_eq_innerTextAll hp hc, Tree.innerTextAll_flatMap]
  exact congrArg _ (List.map_congr_left fun c h => w.innerTextAll_treesAt hp hc h)

end WellFormed

/-- An element with an attribute, and with text beside and inside another element. -/
def mixedPage (value : String) : Document :=
  ofNodes 0 .xml [.document, .element ⟨"", "r"⟩, .attribute ⟨"", "k"⟩ value, .text "x",
    .element ⟨"", "b"⟩, .text "y", .comment "c", .finish, .instruction "p", .text "z", .finish, .finish]

theorem stringValue_recursive_mixedPage :
    (mixedPage "v").WellFormed ∧ 1 < (mixedPage "v").length ∧
      ((mixedPage "v").node 1).isContainer ∧
      (mixedPage "v").stringValue 1 = String.join ["x", (mixedPage "v").stringValue 4, "", "z"] ∧
      (mixedPage "v").view.stringValue 1 = "xyz" ∧ (mixedPage "w").stringValue 1 = "xyz" := by
  have w : (mixedPage "v").WellFormed := wellFormed_ofNodes 0 .xml
    [.element ⟨"", "r"⟩ [(⟨"", "k"⟩, "v")] [.text "x",
      .element ⟨"", "b"⟩ [] [.text "y", .comment "c"], .instruction "p", .text "z"]]
  have hp : 1 < (mixedPage "v").length := by decide
  have hc : ((mixedPage "v").node 1).isContainer := by decide
  obtain ⟨hchildren, hview, hattribute⟩ := w.stringValue_recursive hp hc
  have htext : (mixedPage "v").stringValue 1 = "xyz" := by decide +kernel
  refine ⟨w, hp, hc, hchildren.trans ?_, hview.trans htext, (hattribute _ rfl).trans htext⟩
  have hlist : (mixedPage "v").children 1 = [3, 4, 8, 9] := by decide +kernel
  rw [hlist]
  rfl

end Document
end MarkupGraft
