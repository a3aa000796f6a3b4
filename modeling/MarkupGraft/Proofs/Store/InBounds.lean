import MarkupGraft.Proofs.Store.Checked
import MarkupGraft.Proofs.Store.Composition

/-!
Walks through a well-formed document stay inside its sequence: with every lookup checked, each edit,
each cut and all writing goes on as without the checks, whatever fragments come in.
-/

namespace MarkupGraft

theorem mapM_eq_some {α β : Type} {f : α → Option β} {g : α → β} {l : List α}
    (h : ∀ a ∈ l, f a = some (g a)) : l.mapM f = some (l.map g) := by
  induction l with
  | nil => rfl
  | cons a l ih =>
    rw [List.mapM_cons, h a List.mem_cons_self, ih fun a ha => h a (List.mem_cons_of_mem _ ha)]
    rfl

namespace Document
variable (d : Document)

/-! Serialization -/

/-- Writes the node at a position, by positions. What stands inside it is looked for behind it. -/
def write? (s : Scope) (position : Nat) : Option String := do
  let place ← d.place? position
  match ← d.node? position with
  | .document =>
    let children ← place.children.mapM fun c =>
      if _h : position < c ∧ c < d.length then write? s c else none
    pure (String.join children)
  | .element name =>
    let inner ← d.declare? s position
    let attributes ← (← d.attributes? position).mapM fun a =>
      if _h : position < a ∧ a < d.length then write? inner a else none
    let tag := name.written inner .element
    let head := "<" ++ tag ++ String.join (attributes.map (" " ++ ·))
    if place.children.isEmpty && Markup.isVoidElement name.base then pure (head ++ "/>")
    else
      let children ← place.children.mapM fun c =>
        if _h : position < c ∧ c < d.length then do
          match ← d.node? c, Tree.isVerbatim d.mode name with
          | .text value, true => pure value
          | _, _ => write? inner c
        else none
      pure (head ++ ">" ++ String.join children ++ "</" ++ tag ++ ">")
  | .finish =>
    -- What it ends is its parent.
    let start ← place.parent?
    let inner ← d.declare? s start
    let name := (← d.node? start).name?.getD default
    pure ("</" ++ name.written inner .element ++ ">")
  | .attribute name value => pure (Tree.writeAttribute s name value)
  | .text value => pure (Markup.escape value)
  | .comment value => pure ("<!--" ++ value ++ "-->")
  | .instruction value => pure ("<?" ++ value ++ "?>")
  | .doctype value => pure ("<!DOCTYPE" ++ value ++ ">")
termination_by d.length - position

def markupAt? (position : Nat) : Option String := do
  match (← d.place? position).parent? with
  | some parent => d.write? (← d.scopeAt? parent) position
  | none => d.write? .base position

def markup? : Option String :=
  if d.inherited.isEmpty then d.write? .base 0
  else do
    let nodes ← (← d.contents?).placedUnder? .base
    (← (ofNodes d.id d.mode (.document :: nodes ++ [.finish])).reindex?).write? .base 0

def toBytes? : Option Bytes := d.markup?.map Text.encode

/-! What the writer meets -/

section
open MarkupGraft.Tree (writeAll writeAttribute writeAttributes writeContent)
variable {d} {position : Nat} {name : Name} {s : Scope}

theorem write?_attribute {a : Nat} {value : String} (ha : a < d.length)
    (hn : d.node a = .attribute name value) :
    d.write? s a = some (writeAttribute s name value) := by
  rw [write?, place?_eq ha, node?_eq ha, hn]
  rfl

namespace WellFormed
variable (w : d.WellFormed)
include w

theorem lt_of_mem_children (hp : position < d.length) (hc : (d.node position).isContainer) {c : Nat}
    (h : c ∈ d.children position) : position < c ∧ c < d.length := by
  obtain ⟨hlt, hparent, -⟩ := (w.mem_children_iff hp hc).mp h
  exact ⟨(w.parent_spec hlt hparent).1, hlt⟩

/-- The attributes of an element are found and written one by one. -/
theorem mapM_attributes (hp : position < d.length) {attributes : List (Name × String)}
    (h : d.HasAttributes position attributes) :
    ((d.attributes position).mapM fun a =>
      if position < a ∧ a < d.length then d.write? s a else none) =
        some (attributes.map fun a => writeAttribute s a.1 a.2) := by
  have hmem : ∀ a ∈ d.attributes position, position < a ∧ a < d.length :=
    fun _ => w.lt_of_mem_attributes hp
  rw [HasAttributes] at h
  generalize d.attributes position = positions at h hmem
  induction h with
  | nil => rfl
  | cons hnode _ ih =>
    obtain ⟨ha, hrest⟩ := List.forall_mem_cons.mp hmem
    rw [List.mapM_cons, if_pos ha, write?_attribute ha.2 hnode, ih hrest]
    rfl

/-- The children of an element are found and written one by one. -/
theorem mapM_children (hp : position < d.length) (hc : (d.node position).isContainer)
    (name : Name)
    (ih : ∀ c ∈ d.children position, d.write? s c = some (writeAll d.mode false s (d.treesAt c))) :
    ((d.children position).mapM fun c =>
      if position < c ∧ c < d.length then do
        match ← d.node? c, Tree.isVerbatim d.mode name with
        | .text value, true => pure value
        | _, _ => d.write? s c
      else none) = some ((d.children position).map fun c =>
        writeAll d.mode (Tree.isVerbatim d.mode name) s (d.treesAt c)) := by
  refine mapM_eq_some fun c hm => ?_
  have hlt := w.lt_of_mem_children hp hc hm
  obtain ⟨t, ht, -⟩ := w.exists_standsAs_of_child hp hc hm
  have ih := ih c hm
  rw [ht.treesAt, Tree.writeAll_singleton] at ih
  rw [if_pos hlt, node?_eq hlt.2, ht.treesAt, Tree.writeAll_singleton, ih]
  have hhead := ht.head
  cases t with
  | text value =>
    rw [← Option.some.inj hhead]
    cases Tree.isVerbatim d.mode name <;> rfl
  | element | comment | instruction | doctype =>
    rw [← Option.some.inj hhead]
    rfl

/-- An element without children displays none. -/
theorem isEmpty_flatMap_treesAt (hp : position < d.length) (hc : (d.node position).isContainer) :
    ((d.children position).flatMap d.treesAt).isEmpty = (d.children position).isEmpty := by
  cases hchildren : d.children position with
  | nil => rfl
  | cons c rest =>
    obtain ⟨t, ht, -⟩ := w.exists_standsAs_of_child hp hc (hchildren ▸ List.mem_cons_self)
    rw [List.flatMap_cons, ht.treesAt]
    rfl

theorem write?_element (hp : position < d.length) (hn : d.node position = .element name)
    (ih : ∀ c ∈ d.children position, ∀ s,
      d.write? s c = some (writeAll d.mode false s (d.treesAt c))) :
    d.write? s position = some (writeAll d.mode false s (d.treesAt position)) := by
  have hc : (d.node position).isContainer := by
    rw [hn]
    rfl
  obtain ⟨attributes, children, hdisplays⟩ := w.exists_displays hp hn
  have hempty : (d.place position).children.isEmpty = children.isEmpty := by
    rw [children_place, ← hdisplays.children, w.isEmpty_flatMap_treesAt hp hc]
  have hcontent : String.join ((d.children position).map fun c =>
      writeAll d.mode (Tree.isVerbatim d.mode name) (Tree.declare s attributes) (d.treesAt c)) =
        writeAll d.mode (Tree.isVerbatim d.mode name) (Tree.declare s attributes) children := by
    rw [← Tree.writeAll_flatMap, hdisplays.children]
  have hattributes : String.join ((attributes.map fun a =>
      writeAttribute (Tree.declare s attributes) a.1 a.2).map (" " ++ ·)) =
        writeAttributes (Tree.declare s attributes) attributes := by
    rw [List.map_map]
    rfl
  have hmapM := w.mapM_children hp hc name fun c hc => ih c hc (Tree.declare s attributes)
  rw [hdisplays.standsAs.treesAt, Tree.writeAll_singleton, Tree.write_element, write?, place?_eq hp,
    node?_eq hp, hn]
  simp only [Option.bind_eq_bind, Option.bind_some, w.declare?_eq hp, w.attributes?_eq hp,
    hdisplays.hasAttributes.declare_eq, dite_eq_ite] at hmapM ⊢
  rw [w.mapM_attributes hp hdisplays.hasAttributes, Option.bind_some, hattributes, hempty,
    writeContent]
  split
  · rfl
  · rw [children_place, hmapM, Option.bind_some, hcontent]
    simp only [String.append_assoc]
    rfl

theorem write?_document (ih : ∀ c ∈ d.children 0, d.write? s c =
      some (writeAll d.mode false s (d.treesAt c))) :
    d.write? s 0 = some (writeAll d.mode false s d.trees) := by
  have hmapM : ((d.children 0).mapM fun c =>
      if 0 < c ∧ c < d.length then d.write? s c else none) =
        some ((d.children 0).map fun c => writeAll d.mode false s (d.treesAt c)) := by
    refine mapM_eq_some fun c hm => ?_
    rw [if_pos (w.lt_of_mem_children w.length_pos w.isContainer_zero hm), ih c hm]
  rw [write?, place?_eq w.length_pos, node?_eq w.length_pos, w.node_of_root]
  simp only [Option.bind_eq_bind, Option.bind_some, dite_eq_ite, children_place, hmapM]
  rw [← w.flatMap_treesAt_root, Tree.writeAll_flatMap]
  rfl

/-- What is written by positions is the markup of the trees that stand there. -/
theorem write?_eq (hp : position < d.length) (hchild : (d.node position).isChild) (s : Scope) :
    d.write? s position = some (writeAll d.mode false s (d.treesAt position)) := by
  -- On how much stands behind the node, since its children do.
  induction hk : d.length - position using Nat.strongRecOn generalizing position s with
  | ind k ih =>
    have hinside (hc : (d.node position).isContainer) : ∀ c ∈ d.children position, ∀ s,
        d.write? s c = some (writeAll d.mode false s (d.treesAt c)) := by
      intro c hm s
      obtain ⟨hlt, -, hchild⟩ := (w.mem_children_iff hp hc).mp hm
      have := (w.lt_of_mem_children hp hc hm).1
      exact ih (d.length - c) (by omega) hlt hchild s rfl
    by_cases hzero : position = 0
    · subst hzero
      have htrees : d.treesAt 0 = d.trees := by
        rw [treesAt, w.node_of_root]
      rw [htrees]
      exact w.write?_document fun c hm => hinside w.isContainer_zero c hm s
    obtain ⟨parent, hparent⟩ := w.exists_parent hp (Nat.pos_of_ne_zero hzero)
    obtain ⟨hlt, hc, -⟩ := w.parent_spec hp hparent
    obtain ⟨t, ht, -⟩ := w.exists_standsAs_of_child (by omega) hc
      ((w.mem_children_iff (by omega) hc).mpr ⟨hp, hparent, hchild⟩)
    have hhead := ht.head
    cases t with
    | element name attributes children =>
      have hnode : d.node position = .element name := (Option.some.inj hhead).symm
      exact w.write?_element hp hnode (hinside (by rw [hnode]; rfl))
    | _ =>
      rw [write?, place?_eq hp, node?_eq hp, ← Option.some.inj hhead, ht.treesAt,
        Tree.writeAll_singleton]
      rfl

theorem forest_extent (hchild : (d.node position).isChild) (hp : position < d.length) :
    Tree.forest (d.extent position) = d.treesAt position := by
  cases hn : d.node position with
  | document =>
    obtain rfl := (w.document_iff hp).mp hn
    rw [treesAt, hn, trees, extent, slice, w.last_root, ← length_nodes, List.take_length,
      List.drop_zero]
  | «attribute» | finish =>
    rw [hn] at hchild
    cases hchild
  | _ => rw [treesAt, hn]

theorem markupAt?_eq_write? (hp : position < d.length) : d.markupAt? position =
    d.write? (((d.parent? position).map d.scopeAt).getD .base) position := by
  rw [markupAt?, place?_eq hp]
  simp only [Option.bind_eq_bind, Option.bind_some, parent?_place]
  cases hparent : d.parent? position with
  | none => rfl
  | some parent =>
    have hlt : parent < d.length := Nat.lt_trans (w.parent_spec hp hparent).1 hp
    simp only [w.scopeAt?_eq hlt]
    rfl

/-- Each node is found and written. An end marker is no node on its own; its tag is written. -/
theorem exists_markupAt? (hp : position < d.length) : ∃ text, d.markupAt? position = some text ∧
    (d.node position ≠ .finish → text = d.markupAt position) := by
  rw [w.markupAt?_eq_write? hp]
  have hwrite (hchild : (d.node position).isChild) (s : Scope) : d.write? s position =
      some (writeAll d.mode false s (Tree.forest (d.extent position))) := by
    rw [w.write?_eq hp hchild, w.forest_extent hchild hp]
  cases hn : d.node position with
  | «attribute» name value =>
    refine ⟨_, write?_attribute hp hn, fun _ => ?_⟩
    rw [markupAt, hn]
  | finish =>
    obtain ⟨start, hlt, hc, hlast⟩ := w.started hp hn
    have hstart : start < d.length := Nat.lt_trans hlt hp
    have hparent : d.parent? position = some start := hlast ▸ (w.paired hstart hc).2.2.2
    rw [write?, place?_eq hp, node?_eq hp, hn]
    simp only [Option.bind_eq_bind, Option.bind_some, parent?_place, hparent, w.declare?_eq hstart,
      node?_eq hstart]
    exact ⟨_, rfl, fun h => absurd rfl h⟩
  | _ =>
    refine ⟨_, hwrite (by rw [hn]; rfl) _, fun _ => ?_⟩
    rw [markupAt, hn]

theorem write?_root (s : Scope) : d.write? s 0 = some (writeAll d.mode false s d.trees) := by
  have hroot := w.node_of_root
  rw [w.write?_eq w.length_pos (by rw [hroot]; rfl), treesAt, hroot]

theorem markup?_eq : d.markup? = some d.markup := by
  rw [markup?]
  split
  · rename_i hempty
    rw [w.write?_root, markup, if_pos hempty]
  · let standalone := ofNodes d.id d.mode
      (.document :: (Tree.listingAll (d.contents.treesUnder .base) ++ [.finish]))
    have hs : standalone.WellFormed := wellFormed_ofNodes d.id d.mode _
    have htrees : standalone.trees = d.contents.treesUnder .base := by
      rw [trees, nodes_ofNodes, Tree.forest_document]
    have hplaced : d.contents.placedUnder? .base =
        some (Tree.listingAll (d.contents.treesUnder .base)) := by
      rw [w.complete_contents.placedUnder?_eq, w.complete_contents.placedUnder_eq]
      rfl
    rw [w.contents?_eq]
    simp only [Option.bind_eq_bind, Option.bind_some, hplaced]
    change standalone.reindex?.bind (·.write? .base 0) = _
    rw [hs.reindex?_eq, Option.bind_some, hs.write?_root, htrees, w.markup_eq]
    rfl

end WellFormed

end

end Document

/-- The fragments that there are ways to make, from any well-formed documents. -/
inductive Fragment.Obtained : Fragment → Prop where
  | empty : Obtained {}
  | ofText (text : String) : Obtained (.ofText text)
  | append {f g : Fragment} (hf : Obtained f) (hg : Obtained g) : Obtained (f ++ g)
  | join {fragments : List Fragment} (h : ∀ f ∈ fragments, Obtained f) : Obtained (join fragments)
  | contents {d : Document} (w : d.WellFormed) : Obtained d.contents
  | extract {d : Document} (w : d.WellFormed) {target : Handle} {f : Fragment}
    (h : d.extract target = .ok f) : Obtained f

namespace Fragment

theorem Obtained.complete {f : Fragment} (h : f.Obtained) : f.Complete := by
  induction h with
  | empty => exact complete_empty
  | ofText text => exact complete_ofText text
  | append _ _ hf hg => exact hf.append hg
  | join _ ih => exact complete_join ih
  | contents w => exact w.complete_contents
  | extract w h => exact w.complete_extract h

end Fragment

/-- The range of positions that an edit replaces. Where a leaf takes another text it is none. -/
def Edit.range? {α : Type} (d : Document) (position : Nat) : Edit α → Option (Nat × Nat)
  | .replaceChildren _ _ => some (d.contentStart position, d.last position)
  | .setText _ _ =>
    if (d.node position).isContainer then some (d.contentStart position, d.last position) else none
  | .insertBefore _ _ => some (position, position)
  | .insertAfter _ _ => some (d.last position + 1, d.last position + 1)
  | .remove _ => some (position, d.last position + 1)

namespace Document

/-- What the walks through a document meet stands in its sequence, so that nothing changes when each
lookup is checked. -/
structure InBounds (d : Document) : Prop where
  /-- The scan for attributes stops inside the container. -/
  scan {p : Nat} (hp : p < d.length) (hc : (d.node p).isContainer) :
    d.contentStart? p = some (d.contentStart p) ∧ p < d.contentStart p ∧ d.contentStart p ≤ d.last p
  /-- A walk along parents ends at the document node. -/
  climb {p : Nat} (hp : p < d.length) :
    ∃ passed, d.climb? p = some passed ∧ passed.getLast? = some 0
  /-- The count of open elements finds the end marker of the element it begins with. -/
  count {f : Fragment} (hf : f.Obtained) {start : Nat} {name : Name}
    (h : f.nodes[start]? = some (.element name)) :
    ∃ stop, Placement.finishFrom? 0 start (f.nodes.drop start) = some stop ∧
      f.nodes[stop]? = some .finish ∧ stop = (Outline.placeAt f.nodes start).last
  placed {f : Fragment} (hf : f.Obtained) (target : Scope) :
    f.placedUnder? target = some (f.placedUnder target)
  /-- An edit replaces a range of the sequence. -/
  range {e : Edit Fragment} {p : Nat} (hp : d.locate? e.target = some p)
    (hs : e.supports (d.node p)) {start stop : Nat} (h : e.range? d p = some (start, stop)) :
    start ≤ stop ∧ stop ≤ d.length ∧ ∃ f parent, d.edited e p = d.splice start stop f parent
  edit {e : Edit Fragment} (hf : ∀ f ∈ e.content?, f.Obtained) : d.edit? e = some (d.edit e)
  extract (target : Handle) : d.extract? target = some (d.extract target)
  copySubtree (id : Nat) (target : Handle) :
    d.copySubtree? id target = some (d.copySubtree id target)
  contents : d.contents? = some d.contents ∧ d.intoContents? = some d.contents
  markupAt {p : Nat} (hp : p < d.length) : ∃ text, d.markupAt? p = some text ∧
    (d.node p ≠ .finish → text = d.markupAt p)
  toBytes : d.toBytes? = some d.toBytes

namespace WellFormed
variable {d : Document} (w : d.WellFormed)
include w

theorem range_of_edit {e : Edit Fragment} {p : Nat} (hp : p < d.length)
    (hs : e.supports (d.node p)) {start stop : Nat} (h : e.range? d p = some (start, stop)) :
    start ≤ stop ∧ stop ≤ d.length ∧ ∃ f parent, d.edited e p = d.splice start stop f parent := by
  have hlast := w.last_lt hp
  have hle := w.le_last hp
  have hcontent := w.contentStart_le_last hp
  cases e with
  | replaceChildren target f =>
    cases h
    exact ⟨hcontent hs, Nat.le_of_lt hlast, f, p, rfl⟩
  | setText target text =>
    rw [Edit.range?] at h
    split at h
    · rename_i hc
      cases h
      exact ⟨hcontent hc, Nat.le_of_lt hlast, _, _, if_pos hc⟩
    · cases h
  | insertBefore target f =>
    cases h
    exact ⟨Nat.le_refl _, Nat.le_of_lt hp, f, _, rfl⟩
  | insertAfter target f =>
    cases h
    exact ⟨Nat.le_refl _, hlast, f, _, rfl⟩
  | remove target =>
    cases h
    exact ⟨Nat.le_succ_of_le hle, hlast, _, _, rfl⟩

/-- Walks through a well-formed document stay inside its sequence, with any fragments that there are
ways to make. -/
theorem inBounds : d.InBounds where
  scan hp hc :=
    have ⟨hlt, hle, _⟩ := w.contentStart_spec hp hc
    ⟨w.contentStart?_eq hp hc, hlt, hle⟩
  climb hp := ⟨_, (w.climb?_eq hp).1, (w.climb?_eq hp).2.1⟩
  count hf start name h := ⟨_,
    Placement.finishFrom?_start hf.complete.closes h hf.complete.document_not_mem,
    (Placement.last_of_element hf.complete.closes h).2, rfl⟩
  placed hf target := hf.complete.placedUnder?_eq target
  range hp := w.range_of_edit (w.lt_length_of_locate? hp)
  edit hf := w.edit?_eq fun f hm => (hf f hm).complete
  extract := w.extract?_eq
  copySubtree := w.copySubtree?_eq
  contents := ⟨w.contents?_eq, w.intoContents?_eq⟩
  markupAt := w.exists_markupAt?
  toBytes := by
    rw [toBytes?, w.markup?_eq]
    rfl

end WellFormed

/-- A detached copy is placed behind its own element, and written. -/
theorem inBounds_detachedCopy : detachedCopy.WellFormed ∧ detachedCopy.InBounds ∧
    detachedCopy.climb? 2 = some [2, 1, 0] ∧
    Placement.finishFrom? 0 0 detachedCopy.contents.nodes = some 4 ∧
    detachedCopy.edit? (.insertAfter ⟨0, 1⟩ detachedCopy.contents) =
      some (detachedCopy.edit (.insertAfter ⟨0, 1⟩ detachedCopy.contents)) ∧
    detachedCopy.toBytes? = some (Text.encode "<p:b xmlns:p=\"urn:a\">xy<!--z--></p:b>") := by
  have w : detachedCopy.WellFormed := wellFormed_ofFragment 0 ⟨_, rfl⟩
  have h := w.inBounds
  refine ⟨w, h, by decide +kernel, by decide +kernel, h.edit fun f hf => ?_, ?_⟩
  · obtain rfl : detachedCopy.contents = f := Option.some.inj hf
    exact .contents w
  · rw [h.toBytes]
    decide +kernel

end Document
end MarkupGraft
