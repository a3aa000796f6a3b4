import MarkupGraft.Proofs.Query.Walk
import MarkupGraft.Proofs.Store.Holding
import MarkupGraft.Proofs.Store.Rescoping
import MarkupGraft.Proofs.Store.Serialization

/-!
The markup of nodes makes up the markup of what they stand in: that of its attributes and children
the markup of an element, and that of the nodes at the top the markup of a document. Two things are
written otherwise where they stand than on their own: the text of an HTML element whose content is no
markup, and the elements at the top of a detached copy, which declare what they use of the bindings
that the copy inherits.
-/

namespace MarkupGraft
open MarkupGraft.Tree (write writeAll writeAttributes)
open Branch (Stands)

namespace Tree

theorem writeAll_append (mode : Markup.Mode) (verbatim : Bool) (s : Scope) (ts us : List Tree) :
    writeAll mode verbatim s (ts ++ us) =
      writeAll mode verbatim s ts ++ writeAll mode verbatim s us := by
  induction ts with
  | nil => exact String.empty_append.symm
  | cons t ts ih => rw [List.cons_append, writeAll, writeAll, ih, String.append_assoc]

theorem writeAll_flatMap {α : Type} (mode : Markup.Mode) (verbatim : Bool) (s : Scope)
    (trees : α → List Tree) (l : List α) : writeAll mode verbatim s (l.flatMap trees) =
      String.join (l.map fun x => writeAll mode verbatim s (trees x)) := by
  induction l with
  | nil => rfl
  | cons x l ih => rw [List.flatMap_cons, writeAll_append, ih, List.map_cons, String.join_cons]

theorem writeAll_singleton (mode : Markup.Mode) (verbatim : Bool) (s : Scope) (t : Tree) :
    writeAll mode verbatim s [t] = write mode verbatim s t := by
  rw [writeAll, writeAll, String.append_empty]

end Tree

namespace Document
variable {d : Document} {p c : Nat}

/-- What stands at a position: the tree that its nodes list. -/
structure StandsAs (d : Document) (p : Nat) (t : Tree) : Prop where
  treesAt : d.treesAt p = [t]
  head : t.listing.head? = some (d.node p)
  markupAt {parent : Nat} (h : d.parent? p = some parent) :
    d.markupAt p = write d.mode false (d.scopeAt parent) t

/-- The nodes at the positions of an element's attributes are the given attributes. -/
def HasAttributes (d : Document) (p : Nat) (attributes : List (Name × String)) : Prop :=
  List.Forall₂ (fun a b => d.node a = .attribute b.1 b.2) (d.attributes p) attributes

theorem HasAttributes.declare_eq {attributes : List (Name × String)}
    (h : d.HasAttributes p attributes) (s : Scope) : d.declare s p = Tree.declare s attributes := by
  rw [HasAttributes] at h
  rw [declare]
  generalize d.attributes p = positions at h
  induction h generalizing s with
  | nil => rfl
  | cons hnode _ ih =>
    rw [List.foldl_cons, hnode]
    exact ih _

theorem map_node_range' {before more after : List Entry}
    (h : d.entries = before ++ (more ++ after)) :
    (List.range' before.length more.length).map d.node = more.map (·.node) := by
  induction more generalizing before with
  | nil => rfl
  | cons e more ih =>
    have hrest := @ih (before ++ [e]) (by simp [h])
    rw [List.length_append, List.length_singleton] at hrest
    rw [List.length_cons, List.range'_succ, List.map_cons, List.map_cons, hrest, node_of_entries h]

/-- The attributes that an element lists are at the positions of its attributes. -/
theorem Lists.hasAttributes {before rest : List Entry} {head finish : Entry}
    {attributes : List OwnedAttribute} {children : List Branch}
    (h : d.Lists p before rest head finish attributes children) (he : (d.node p).isElement) :
    d.HasAttributes p (attributes.map fun a => (a.name, a.value)) := by
  have hpositions : d.attributes p = List.range' (p + 1) attributes.length := by
    rw [Document.attributes, if_pos he, h.range.1, List.range_eq_range', List.drop_range']
    simp
  have hentries : d.entries = (before ++ [head]) ++ (attributes.map OwnedAttribute.entry ++
      (Branch.entriesAll children ++ finish :: rest)) := by
    rw [h.entries]
    simp
  have hnodes := map_node_range' hentries
  rw [List.length_append, h.position, List.length_singleton, List.length_map, ← hpositions,
    List.map_map, ← List.forall₂_eq_eq_eq, List.forall₂_map_left_iff, List.forall₂_map_right_iff]
    at hnodes
  exact List.forall₂_map_right_iff.mpr hnodes

namespace WellFormed
variable (w : d.WellFormed)
include w

theorem standsAs_of_stands {b : Branch} {before after : List Entry}
    (hs : Stands b d.tree.children before after) : d.StandsAs (before.length + 1) b.erase := by
  obtain ⟨head, rest, hb, hchild, -⟩ := b.entries_head
  have hnode := w.node_of_stands hs hb
  refine ⟨(w.extract_of_stands hs (w.located (w.lt_of_stands hs))).2, ?_, fun hparent => ?_⟩
  · rw [← b.nodes_entries, hb, hnode]
    rfl
  · rw [Document.markupAt, hparent, hnode, w.extent_of_stands hs, Tree.forest_listingAll,
      Tree.writeAll_singleton]
    cases head with
    | «attribute» => cases hchild
    | _ => rfl

theorem exists_standsAs_of_child (hp : p < d.length) (hc : (d.node p).isContainer)
    (h : c ∈ d.children p) : ∃ t, d.StandsAs c t ∧
      d.markupAt c = write d.mode false (d.scopeAt p) t := by
  obtain ⟨hlt, hparent, hchild⟩ := (w.mem_children_iff hp hc).mp h
  have hdocument : d.node c ≠ .document := by
    have hpc := ((w.parent_iff hlt).mp hparent).1.1
    rw [ne_eq, w.document_iff hlt]
    omega
  obtain ⟨b, before, after, hs, -, rfl⟩ := w.exists_stands (w.found (w.located hlt)) hchild hdocument
  exact ⟨b.erase, w.standsAs_of_stands hs, (w.standsAs_of_stands hs).markupAt hparent⟩

/-- The attributes of an element have it for their parent. -/
theorem parent_of_mem_attributes (hp : p < d.length) {a : Nat} (h : a ∈ d.attributes p) :
    d.parent? a = some p := by
  have helement : (d.node p).isElement := by
    by_contra hn
    rw [Document.attributes, if_neg hn] at h
    cases h
  have hcontainer : (d.node p).isContainer := by
    cases hn : d.node p <;> simp [hn, Node.isElement, Node.isContainer] at helement ⊢
  rw [Document.attributes, if_pos helement, List.range_eq_range', List.drop_range'] at h
  obtain ⟨hpa, hac⟩ : p + 1 ≤ a ∧ a < d.contentStart p := by
    rw [List.mem_range'_1] at h
    omega
  have hlast := (w.paired hp hcontainer).2.1
  have hcontent := w.contentStart_le_last hp hcontainer
  have hattribute : (d.node a).isAttribute :=
    (isAttribute_iff_lt_contentStart (by omega) (by omega)).mpr hac
  obtain ⟨e, hparent, he, hea, hrun⟩ := w.attribute_run (by omega) hattribute
  -- Between the two elements there would be an attribute that is one of them.
  have hnot {n : Node} (hn : n.isElement) : ¬n.isAttribute := by
    cases n <;> simp [Node.isElement, Node.isAttribute] at hn ⊢
  rcases Nat.lt_trichotomy e p with hlt | rfl | hlt
  · exact absurd (hrun p hlt (by omega)) (hnot helement)
  · exact hparent
  · exact absurd ((isAttribute_iff_lt_contentStart hlt (by omega)).mpr (by omega)) (hnot he)

end WellFormed

/-- The attributes and the content of an element. -/
structure Displays (d : Document) (p : Nat) (name : Name) (attributes : List (Name × String))
    (children : List Tree) : Prop where
  standsAs : d.StandsAs p (.element name attributes children)
  hasAttributes : d.HasAttributes p attributes
  children : (d.children p).flatMap d.treesAt = children

theorem WellFormed.exists_displays (w : d.WellFormed) (hp : p < d.length) {name : Name}
    (hn : d.node p = .element name) :
    ∃ attributes children, d.Displays p name attributes children := by
  obtain ⟨b, before, after, hs, -, rfl⟩ := w.exists_stands (w.found (w.located hp))
    (by rw [hn]; rfl) (by rw [hn]; simp)
  cases b with
  | element ident tag attributes children finish =>
    have hlists := w.lists_of_element hs
    obtain rfl : tag = name := by simpa [w.node_of_element hs] using hn
    exact ⟨_, _, w.standsAs_of_stands hs, hlists.hasAttributes (by rw [hn]; rfl),
      hlists.flatMap_treesAt w⟩
  | leaf ident kind value =>
    rw [w.node_of_leaf hs] at hn
    cases kind <;> cases hn

/-! Elements -/

/-- The markup of a child inside an element of the given name. -/
def markupInside (d : Document) (name : Name) (c : Nat) : String :=
  match d.node c with
  | .text value => if Tree.isVerbatim d.mode name then value else d.markupAt c
  | _ => d.markupAt c

namespace WellFormed
variable (w : d.WellFormed)
include w

theorem scopeAt_element (hp : p < d.length) {parent : Nat} (hparent : d.parent? p = some parent)
    {name : Name} {attributes : List (Name × String)} {children : List Tree}
    (h : d.Displays p name attributes children) (hn : d.node p = .element name) :
    d.scopeAt p = Tree.declare (d.scopeAt parent) attributes := by
  rw [scopeAt_of_parent hparent ((w.parent_iff hp).mp hparent).1.1, hn, h.hasAttributes.declare_eq]
  rfl

/-- The attributes of an element are written as they are on their own. -/
theorem join_attributes (hp : p < d.length) {attributes : List (Name × String)}
    (h : d.HasAttributes p attributes) :
    String.join ((d.attributes p).map fun a => " " ++ d.markupAt a) =
      writeAttributes (d.scopeAt p) attributes := by
  have hparent : ∀ a ∈ d.attributes p, d.parent? a = some p := fun _ => w.parent_of_mem_attributes hp
  rw [HasAttributes] at h
  generalize d.attributes p = positions at h hparent
  refine congrArg String.join ?_
  induction h with
  | nil => rfl
  | cons hnode _ ih =>
    obtain ⟨ha, hrest⟩ := List.forall_mem_cons.mp hparent
    rw [List.map_cons, List.map_cons, ih hrest, Document.markupAt, ha, hnode]
    rfl

theorem join_children (hp : p < d.length) (hc : (d.node p).isContainer) (name : Name) :
    String.join ((d.children p).map (d.markupInside name)) =
      writeAll d.mode (Tree.isVerbatim d.mode name) (d.scopeAt p)
        ((d.children p).flatMap d.treesAt) := by
  rw [Tree.writeAll_flatMap]
  refine congrArg _ (List.map_congr_left fun c h => ?_)
  obtain ⟨t, ht, hmarkup⟩ := w.exists_standsAs_of_child hp hc h
  have hhead := ht.head
  rw [ht.treesAt, Tree.writeAll_singleton, markupInside, hmarkup]
  cases t with
  | text value =>
    have hnode : d.node c = .text value := (Option.some.inj hhead).symm
    rw [hnode]
    cases hv : Tree.isVerbatim d.mode name <;> rfl
  | element | comment | instruction | doctype =>
    rw [← Option.some.inj hhead]
    rfl

/-- An element that has an end tag is written as its tags with the markup of its attributes and of
its children between them. -/
theorem markupAt_element (hp : p < d.length) {name : Name} (hn : d.node p = .element name)
    (h : d.children p ≠ [] ∨ ¬Markup.isVoidElement name.base) :
    d.markupAt p = "<" ++ name.written (d.scopeAt p) .element ++
      String.join ((d.attributes p).map fun a => " " ++ d.markupAt a) ++ ">" ++
        String.join ((d.children p).map (d.markupInside name)) ++
          "</" ++ name.written (d.scopeAt p) .element ++ ">" := by
  have hcontainer : (d.node p).isContainer := by
    rw [hn]
    rfl
  have hpos : 0 < p := by
    rcases Nat.eq_zero_or_pos p with rfl | hpos
    · rw [w.node_of_root] at hn
      cases hn
    · exact hpos
  obtain ⟨parent, hparent⟩ := w.exists_parent hp hpos
  obtain ⟨attributes, children, hdisplays⟩ := w.exists_displays hp hn
  have hscope := w.scopeAt_element hp hparent hdisplays hn
  have hended : (children.isEmpty && Markup.isVoidElement name.base) = false := by
    rcases h with h | h
    · obtain ⟨c, hc⟩ := List.exists_mem_of_ne_nil _ h
      obtain ⟨t, ht, -⟩ := w.exists_standsAs_of_child hp hcontainer hc
      have ht : t ∈ children := by
        rw [← hdisplays.children, List.mem_flatMap]
        exact ⟨c, hc, by simp [ht.treesAt]⟩
      rw [List.isEmpty_eq_false_iff.mpr (List.ne_nil_of_mem ht), Bool.false_and]
    · simp [h]
  rw [hdisplays.standsAs.markupAt hparent, Tree.write_element, ← hscope, Tree.writeContent, hended,
    w.join_attributes hp hdisplays.hasAttributes, w.join_children hp hcontainer, hdisplays.children]
  simp only [String.append_assoc]
  rfl

end WellFormed

/-! Documents -/

/-- The beginning of the start tag of an element. Other nodes have none. -/
def opening (d : Document) (p : Nat) : String :=
  match d.node p with
  | .element name => "<" ++ name.written (d.scopeAt p) .element
  | _ => ""

/-- The declarations that an element at the top takes from the bindings that its document inherits. -/
def taken (d : Document) (p : Nat) : List (Name × String) :=
  (d.treesAt p).flatMap (Tree.declared d.inherited .base)

/-- The markup of what an element at the top takes, where it stands on its own. -/
def takenMarkup (d : Document) (p : Nat) : String :=
  writeAttributes (d.declare (Tree.declare .base (d.taken p)) p) (d.taken p)

namespace WellFormed
variable (w : d.WellFormed)
include w

theorem flatMap_treesAt_root : (d.children 0).flatMap d.treesAt = d.trees := by
  rw [w.lists_of_root.flatMap_treesAt w, trees, w.forest_nodes]

/-- A document that inherits nothing is written as its document node, and as the nodes at its top. -/
theorem markup_of_isEmpty (h : d.inherited.isEmpty) : d.markupAt 0 = d.markup ∧
    d.markup = String.join ((d.children 0).map d.markupAt) := by
  have hextent : d.extent 0 = d.nodes := by
    rw [extent, slice, w.last_root, ← length_nodes, List.take_length, List.drop_zero]
  have hscope : d.scopeAt 0 = .base := by
    rw [w.scopeAt_root, Scope.override, List.isEmpty_iff.mp h]
    rfl
  rw [markup, if_pos h]
  constructor
  · rw [Document.markupAt, w.parent_zero, w.node_of_root, hextent]
    rfl
  · rw [← w.flatMap_treesAt_root, Tree.writeAll_flatMap]
    refine congrArg _ (List.map_congr_left fun c hc => ?_)
    obtain ⟨t, ht, hmarkup⟩ := w.exists_standsAs_of_child w.length_pos w.isContainer_zero hc
    rw [hmarkup, hscope, ht.treesAt, Tree.writeAll_singleton]

/-- A node at the top is written with what it takes behind the beginning of its start tag. -/
theorem exists_markup_top
    (hxml : ∀ space, d.inherited.get? "xml" = some space → space = xmlNamespace)
    (hc : c ∈ d.children 0) : ∃ rest, d.markupAt c = d.opening c ++ rest ∧
      writeAll d.mode false .base ((d.treesAt c).map (Tree.placed d.inherited .base)) =
        d.opening c ++ d.takenMarkup c ++ rest := by
  obtain ⟨hlt, hparent, -⟩ := (w.mem_children_iff w.length_pos w.isContainer_zero).mp hc
  by_cases helement : (d.node c).isElement
  · obtain ⟨name, hn⟩ : ∃ name, d.node c = .element name := by
      cases hn : d.node c <;> simp_all [Node.isElement]
    obtain ⟨attributes, children, hdisplays⟩ := w.exists_displays hlt hn
    have hscope := w.scopeAt_element hlt hparent hdisplays hn
    rw [w.scopeAt_root] at hscope
    obtain ⟨rest, hformer, hown⟩ :=
      Tree.exists_write_placed hxml d.mode name attributes children
    refine ⟨rest, ?_, ?_⟩
    · rw [hdisplays.standsAs.markupAt hparent, w.scopeAt_root, hformer, opening, hn, hscope]
    · rw [hdisplays.standsAs.treesAt, List.map_singleton, Tree.writeAll_singleton, hown, opening, hn,
        takenMarkup, taken, hdisplays.standsAs.treesAt, List.flatMap_singleton,
        hdisplays.hasAttributes.declare_eq, ← Tree.declare_append, hscope]
  · obtain ⟨t, ht, hmarkup⟩ := w.exists_standsAs_of_child w.length_pos w.isContainer_zero hc
    have hhead := ht.head
    cases t with
    | element name =>
      rw [← Option.some.inj hhead] at helement
      exact absurd rfl helement
    | _ =>
      have hopening : d.opening c = "" := by
        rw [opening, ← Option.some.inj hhead]
      have htaken : d.takenMarkup c = "" := by
        rw [takenMarkup, taken, ht.treesAt]
        rfl
      refine ⟨d.markupAt c, by rw [hopening, String.empty_append], ?_⟩
      rw [hopening, htaken, hmarkup, ht.treesAt, List.map_singleton, Tree.writeAll_singleton,
        String.empty_append, String.empty_append]
      rfl

/-- A detached copy is written as the nodes at its top, each with what it takes. -/
theorem exists_markup
    (hxml : ∀ space, d.inherited.get? "xml" = some space → space = xmlNamespace) :
    ∃ rest : Nat → String, (∀ c ∈ d.children 0, d.markupAt c = d.opening c ++ rest c) ∧
      d.markup =
        String.join ((d.children 0).map fun c => d.opening c ++ d.takenMarkup c ++ rest c) := by
  choose! rest hrest using fun c (hc : c ∈ d.children 0) => w.exists_markup_top hxml hc
  refine ⟨rest, fun c hc => (hrest c hc).1, ?_⟩
  rw [w.markup_eq, Fragment.treesUnder, w.trees_contents, ← w.flatMap_treesAt_root,
    List.map_flatMap, Tree.writeAll_flatMap]
  exact congrArg _ (List.map_congr_left fun c hc => (hrest c hc).2)

/-- The markup of nodes makes up the markup of documents and of elements: a document that inherits
nothing is written as its document node, and as the nodes at its top. A detached copy is written as
the nodes at its top too, with declarations of the bindings that they take from what it inherits in
their start tags, unless it inherits another binding of the reserved prefix. An element that has an end
tag is written as its attributes and its children between its tags. -/
theorem markup_composes :
    (d.inherited.isEmpty → d.toBytes = Text.encode (d.markupAt 0) ∧
      d.toBytes = Text.encode (String.join ((d.children 0).map d.markupAt))) ∧
    ((∀ space, d.inherited.get? "xml" = some space → space = xmlNamespace) →
      ∃ rest : Nat → String, (∀ c ∈ d.children 0, d.markupAt c = d.opening c ++ rest c) ∧
        d.toBytes = Text.encode (String.join
          ((d.children 0).map fun c => d.opening c ++ d.takenMarkup c ++ rest c))) ∧
    ∀ p < d.length, ∀ name, d.node p = .element name →
      d.children p ≠ [] ∨ ¬Markup.isVoidElement name.base →
        d.markupAt p = "<" ++ name.written (d.scopeAt p) .element ++
          String.join ((d.attributes p).map fun a => " " ++ d.markupAt a) ++ ">" ++
            String.join ((d.children p).map (d.markupInside name)) ++
              "</" ++ name.written (d.scopeAt p) .element ++ ">" := by
  refine ⟨fun h => ?_, fun hxml => ?_, fun p hp name hn h => w.markupAt_element hp hn h⟩
  · obtain ⟨hroot, htop⟩ := w.markup_of_isEmpty h
    exact ⟨congrArg Text.encode hroot.symm, congrArg Text.encode htop⟩
  · obtain ⟨rest, hrest, hmarkup⟩ := w.exists_markup hxml
    exact ⟨rest, hrest, congrArg Text.encode hmarkup⟩

end WellFormed

/-- A script in HTML. -/
def scriptPage : Document :=
  ofNodes 0 .html [.document, .element ⟨"", "script"⟩, .text "a<b", .finish, .finish]

/-- The page is written as its element, the copy as its element with a declaration. -/
theorem markup_composes_scriptPage_detachedCopy :
    (scriptPage.toBytes =
        Text.encode (String.join ((scriptPage.children 0).map scriptPage.markupAt)) ∧
      scriptPage.markupAt 1 = "<script>a<b</script>") ∧
    ∃ rest, detachedCopy.markupAt 1 = "<p:b" ++ rest ∧
      detachedCopy.toBytes = Text.encode ("<p:b xmlns:p=\"urn:a\"" ++ rest) := by
  have hpage : scriptPage.WellFormed :=
    wellFormed_ofNodes 0 .html [.element ⟨"", "script"⟩ [] [.text "a<b"]]
  have hcopy : detachedCopy.WellFormed := wellFormed_ofFragment 0 ⟨_, rfl⟩
  constructor
  · obtain ⟨htop, -, helement⟩ := hpage.markup_composes
    refine ⟨(htop rfl).2, ?_⟩
    rw [helement 1 (by decide) ⟨"", "script"⟩ rfl (.inl (by decide))]
    decide +kernel
  · have hxml : detachedCopy.inherited.get? "xml" = none := by decide
    have hchildren : detachedCopy.children 0 = [1] := by decide +kernel
    have hopening : detachedCopy.opening 1 = "<p:b" := by decide +kernel
    have htaken : detachedCopy.takenMarkup 1 = " xmlns:p=\"urn:a\"" := by decide +kernel
    obtain ⟨rest, htop, hbytes⟩ := hcopy.markup_composes.2.1 (by simp [hxml])
    refine ⟨rest 1, hopening ▸ htop 1 (by simp [hchildren]), ?_⟩
    rw [hbytes, hchildren, List.map_singleton, hopening, htaken, String.join_cons, String.join_nil,
      String.append_empty]
    rfl

/-- Neither a detached copy nor an element whose content is no markup is written as its children on
their own; and what a copy takes does not make up for another binding of the reserved prefix. -/
theorem markup_not_composed :
    detachedCopy.markup ≠ String.join ((detachedCopy.children 0).map detachedCopy.markupAt) ∧
    scriptPage.markupAt 1 ≠
      "<script>" ++ String.join ((scriptPage.children 1).map scriptPage.markupAt) ++ "</script>" ∧
    let d := ofFragment 0 ⟨[.element ⟨"", "b"⟩, .attribute ⟨"xmlns", "z"⟩ xmlNamespace,
      .element ⟨xmlNamespace, "c"⟩, .finish, .finish], ({} : Scope).insert "xml" "urn:a"⟩
    ∀ rest, d.markupAt 1 = d.opening 1 ++ rest →
      d.markup ≠ d.opening 1 ++ d.takenMarkup 1 ++ rest := by
  refine ⟨by decide +kernel, by decide +kernel, ?_⟩
  intro d rest hrest hmarkup
  have htaken : d.takenMarkup 1 = "" := by decide +kernel
  have hne : d.markup ≠ d.markupAt 1 := by decide +kernel
  rw [htaken, String.append_empty, ← hrest] at hmarkup
  exact hne hmarkup

end Document
end MarkupGraft
