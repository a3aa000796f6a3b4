import MarkupGraft.Proofs.Store.Site

/-!
Trees with one value left open. A text that is given to a node fills such a slot, and what is read of
the filled trees is a filled slot again: it depends on the text in one value alone.
-/

namespace MarkupGraft.Tree
open Markup (Mode)

/-- A tree with the value of a leaf or of an attribute left open. In a leaf, more text can stand in
front of what is open and behind it. -/
inductive Hole where
  | leaf (kind : LeafKind) (front back : String)
  | «attribute» (name : Name) (left : List (Name × String)) (key : Name)
      (undeclaring : key.declares? = none) (right : List (Name × String)) (children : List Tree)

namespace Hole

/-- The tree with a text in the hole. -/
def tree (text : String) : Hole → Tree
  | .leaf kind front back => kind.tree (front ++ text ++ back)
  | .attribute name left key _ right children => .element name (left ++ (key, text) :: right) children

/-- The node that holds the text. -/
def node (text : String) : Hole → Node
  | .leaf kind front back => kind.node (front ++ text ++ back)
  | .attribute _ _ key _ _ _ => .attribute key text

/-- The hole in what is read of the tree, where `s` is in scope. -/
def read (s : Scope) : Hole → Hole
  | .leaf kind front back => .leaf kind front back
  | .attribute name left key h right children =>
    let inner := declare s (left ++ right)
    .attribute (name.reread inner .element) left key h right
      (normalizeAll (rereadAll inner children))

end Hole

/-- Trees with one value left open. -/
structure Slot where
  site : Site
  hole : Hole

namespace Slot

/-- The trees with a text in the slot. -/
def fill (text : String) (slot : Slot) : List Tree := slot.site.fill [slot.hole.tree text]

/-! Reading -/

/-- Puts a tree in front, joining text with text. -/
def prepend (tree : Tree) : Slot → Slot
  | ⟨.here [] after, .leaf .text front back⟩ =>
    match tree with
    | .text value => ⟨.here [] after, .leaf .text (value ++ front) back⟩
    | _ => ⟨.here [tree] after, .leaf .text front back⟩
  | ⟨.here before after, hole⟩ => ⟨.here (prependTree tree before) after, hole⟩
  | ⟨.inside before name attributes site after, hole⟩ =>
    ⟨.inside (prependTree tree before) name attributes site after, hole⟩

/-- Unless text meets text, what stands in front is joined by itself. -/
private theorem prependTree_append {t u : Tree} {before : List Tree}
    (h : before = [] → ¬u.isText) (after : List Tree) :
    prependTree t (before ++ u :: after) = prependTree t before ++ u :: after := by
  cases t with
  | text value =>
    cases before with
    | nil =>
      have hu : ¬u.isText := h rfl
      cases u with
      | text => exact absurd rfl hu
      | _ =>
        simp only [prependTree, prependText, List.nil_append]
        split <;> rfl
    | cons b before =>
      cases b with
      | text => rfl
      | _ =>
        simp only [prependTree, prependText, List.cons_append]
        split <;> rfl
  | _ => rfl

theorem fill_prepend (t : Tree) (slot : Slot) (text : String) :
    (slot.prepend t).fill text = prependTree t (slot.fill text) := by
  obtain ⟨site, hole⟩ := slot
  cases site with
  | here before after =>
    cases before with
    | nil =>
      cases hole with
      | leaf kind front back =>
        cases kind with
        | text =>
          cases t with
          | text first => simp [prepend, fill, Site.fill, Hole.tree, LeafKind.tree, prependTree,
              prependText, String.append_assoc]
          | _ => rfl
        | comment | instruction | doctype =>
          exact (prependTree_append (u := Hole.tree text (.leaf _ front back))
            (fun _ => by simp [Hole.tree, LeafKind.tree, isText]) after).symm
      | «attribute» name left key h right children =>
        exact (prependTree_append (u := Hole.tree text (.attribute name left key h right children))
          (fun _ => by simp [Hole.tree, isText]) after).symm
    | cons b before => exact (prependTree_append (fun hnil => by cases hnil) after).symm
  | inside => exact (prependTree_append (fun _ => by simp [isText]) _).symm

/-- Puts trees in front, their text joined. -/
def behind (trees : List Tree) (slot : Slot) : Slot :=
  trees.foldr (fun tree slot => slot.prepend tree.normalize) slot

theorem fill_behind {ts us : List Tree} {slot : Slot} {text : String}
    (h : slot.fill text = normalizeAll us) :
    (slot.behind ts).fill text = normalizeAll (ts ++ us) := by
  induction ts with
  | nil => exact h
  | cons t ts ih =>
    have hbehind : slot.behind (t :: ts) = (slot.behind ts).prepend t.normalize := rfl
    rw [hbehind, fill_prepend, ih]
    rfl

/-- A hole in front of trees whose text is joined. -/
def joined (hole : Hole) (after : List Tree) : Slot :=
  match hole, after with
  | .leaf .text front back, .text next :: after => ⟨.here [] after, .leaf .text front (back ++ next)⟩
  | hole, after => ⟨.here [] after, hole⟩

theorem fill_joined (hole : Hole) (after : List Tree) {text : String} (h : text ≠ "") :
    (joined hole after).fill text = prependTree (hole.tree text) after := by
  cases hole with
  | leaf kind front back =>
    cases kind with
    | text =>
      cases after with
      | nil => simp [joined, fill, Site.fill, Hole.tree, LeafKind.tree, prependTree, prependText, h]
      | cons t after =>
        cases t with
        | text next => simp [joined, fill, Site.fill, Hole.tree, LeafKind.tree, prependTree,
            prependText, String.append_assoc]
        | _ => simp [joined, fill, Site.fill, Hole.tree, LeafKind.tree, prependTree, prependText, h]
    | _ => rfl
  | «attribute» => rfl

/-- The slot in what is read of the trees, where `s` is in scope. -/
def readAt (s : Scope) (hole : Hole) : Site → Slot
  | .here before after =>
    (joined (hole.read s) (normalizeAll (rereadAll s after))).behind (rereadAll s before)
  | .inside before name attributes site after =>
    let inner := declare s attributes
    let slot := readAt inner hole site
    Slot.behind (rereadAll s before) ⟨.inside [] (name.reread inner .element) attributes slot.site
      (normalizeAll (rereadAll s after)), slot.hole⟩

def read (s : Scope) (slot : Slot) : Slot := readAt s slot.hole slot.site

end Slot

theorem declare_of_none (s : Scope) {left right : List (Name × String)} {key : Name}
    (h : key.declares? = none) (value : String) :
    declare s (left ++ (key, value) :: right) = declare s (left ++ right) := by
  simp only [declare, List.foldl_append, List.foldl_cons, h]

theorem rereadAll_append (s : Scope) (ts us : List Tree) :
    rereadAll s (ts ++ us) = rereadAll s ts ++ rereadAll s us := by
  induction ts with
  | nil => rfl
  | cons t ts ih => exact congrArg (_ :: ·) ih

/-- Of a filled tree, the hole is read filled with the same text. -/
theorem Hole.tree_read (hole : Hole) (s : Scope) (text : String) :
    (hole.read s).tree text = normalize (reread s (hole.tree text)) := by
  cases hole with
  | leaf kind front back => cases kind <;> rfl
  | «attribute» name left key hkey right children =>
    rw [Hole.tree, reread, declare_of_none s hkey]
    rfl

private theorem Slot.fill_readAt (hole : Hole) (site : Site) (s : Scope) {text : String}
    (h : text ≠ "") : (Slot.readAt s hole site).fill text =
      normalizeAll (rereadAll s (site.fill [hole.tree text])) := by
  induction site generalizing s with
  | here before after =>
    rw [Slot.readAt, Site.fill, List.singleton_append, rereadAll_append]
    apply Slot.fill_behind
    rw [Slot.fill_joined _ _ h, Hole.tree_read]
    rfl
  | inside before name attributes site after ih =>
    rw [Slot.readAt, Site.fill, rereadAll_append]
    apply Slot.fill_behind
    rw [rereadAll, normalizeAll, reread, normalize, ← ih]
    rfl

/-- Of filled trees, the slot is read filled with the same text. -/
theorem Slot.fill_read (slot : Slot) (s : Scope) {text : String} (h : text ≠ "") :
    (slot.read s).fill text = normalizeAll (rereadAll s (slot.fill text)) :=
  Slot.fill_readAt slot.hole slot.site s h

/-! What stands around a slot -/

theorem AttributesSettled.of_value {mode : Mode} {s : Scope} {left right : List (Name × String)}
    {key : Name} (hkey : key.declares? = none) {value : String}
    (h : AttributesSettled mode s (left ++ (key, value) :: right)) (other : String) :
    AttributesSettled mode s (left ++ (key, other) :: right) := by
  constructor
  · intro a ha mark hmark
    rw [List.mem_append, List.mem_cons] at ha
    rcases ha with ha | rfl | ha
    · exact h.declared a (by simp [ha]) mark hmark
    · rw [hkey] at hmark
      cases hmark
    · exact h.declared a (by simp [ha]) mark hmark
  · intro a ha hnone
    rw [List.mem_append, List.mem_cons] at ha
    rcases ha with ha | rfl | ha
    · exact h.settled a (by simp [ha]) hnone
    · exact h.settled (key, value) (by simp) hkey
    · exact h.settled a (by simp [ha]) hnone
  · intro hm
    have hnodup := h.nodup hm
    rw [List.map_append, List.map_cons] at hnodup ⊢
    exact hnodup

theorem shapedAll_append {s : Scope} {ts us : List Tree} :
    ShapedAll s (ts ++ us) ↔ ShapedAll s ts ∧ ShapedAll s us := by
  induction ts with
  | nil => simp [ShapedAll]
  | cons t ts ih => rw [List.cons_append, ShapedAll, ShapedAll, ih, and_assoc]

namespace Site

/-- Whether trees can come to the place in HTML, where `s` is in scope around it all: void elements
hold none, and raw-text elements only text that does not end them. -/
def Admits (s : Scope) (trees : List Tree) : Site → Prop
  | .here _ _ => True
  | .inside _ name attributes site _ =>
    let inner := declare s attributes
    ShapedAs (name.written inner .element) name (site.fill trees) ∧ site.Admits inner trees

theorem shapedAll_of_fill {site : Site} {s : Scope} {ts : List Tree}
    (h : ShapedAll s (site.fill ts)) : ShapedAll (site.scope s) ts := by
  induction site generalizing s with
  | here before after =>
    rw [fill, shapedAll_append, shapedAll_append] at h
    exact h.2.1
  | inside before name attributes site after ih =>
    rw [fill, shapedAll_append] at h
    exact ih h.2.1.2

/-- The shapes stay where the place admits the trees. -/
theorem shapedAll_fill {site : Site} {s : Scope} {ts us : List Tree}
    (h : ShapedAll s (site.fill ts)) (hu : ShapedAll (site.scope s) us) (ha : site.Admits s us) :
    ShapedAll s (site.fill us) := by
  induction site generalizing s with
  | here before after =>
    rw [fill, shapedAll_append, shapedAll_append] at h ⊢
    exact ⟨h.1, hu, h.2.2⟩
  | inside before name attributes site after ih =>
    rw [fill, shapedAll_append] at h ⊢
    obtain ⟨hbefore, ⟨-, hchildren⟩, hafter⟩ := h
    exact ⟨hbefore, ⟨ha.1, ih hchildren hu ha.2⟩, hafter⟩

end Site

/-- Whether a text can be read where the slot is, with `s` in scope around it all. Escaped text always
can; what is written as it stands must not end what it stands in. -/
structure Slot.Admits (mode : Mode) (s : Scope) (text : String) (slot : Slot) : Prop where
  legible : LegibleLeaf (slot.hole.node text)
  shaped : mode = .html → slot.site.Admits s [slot.hole.tree text]

/-- A slot opens in trees where a leaf or an attribute loses its value, or where a text comes into the
place of other trees. -/
inductive Slot.Opens : List Tree → Slot → Prop where
  | content (site : Site) (trees : List Tree) :
    Opens (site.fill trees) ⟨site, .leaf .text "" ""⟩
  | leaf (site : Site) (kind : LeafKind) (value : String) :
    Opens (site.fill [kind.tree value]) ⟨site, .leaf kind "" ""⟩
  | «attribute» (site : Site) (name : Name) (left : List (Name × String)) {key : Name}
      (h : key.declares? = none) (value : String) (right : List (Name × String))
      (children : List Tree) :
    Opens (site.fill [.element name (left ++ (key, value) :: right) children])
      ⟨site, .attribute name left key h right children⟩

namespace Slot.Opens
variable {ts : List Tree} {slot : Slot} (h : slot.Opens ts) {s : Scope}
include h

/-- The names stay, whatever the text is. -/
private theorem settledAll_fill {mode : Mode} (hs : SettledAll mode s ts) (text : String) :
    SettledAll mode s (slot.fill text) := by
  have hsettled := hereditary_settledAll mode
  cases h with
  | content site trees => exact hsettled.fill hs ⟨trivial, trivial⟩
  | leaf site kind value => exact hsettled.fill hs ⟨by cases kind <;> trivial, trivial⟩
  | «attribute» site name left hkey value right children =>
    obtain ⟨⟨hname, hattributes, hchildren⟩, -⟩ := hsettled.of_fill hs
    rw [declare_of_none _ hkey] at hname hattributes hchildren
    apply hsettled.fill hs
    rw [Hole.tree, SettledAll, Settled, declare_of_none _ hkey]
    exact ⟨⟨hname, hattributes.of_value hkey text, hchildren⟩, trivial⟩

/-- The shapes stay where the place admits the text. -/
private theorem shapedAll_fill (hs : ShapedAll s ts) {text : String}
    (ha : slot.site.Admits s [slot.hole.tree text]) : ShapedAll s (slot.fill text) := by
  cases h with
  | content site trees => exact site.shapedAll_fill hs ⟨trivial, trivial⟩ ha
  | leaf site kind value => exact site.shapedAll_fill hs ⟨by cases kind <;> trivial, trivial⟩ ha
  | «attribute» site name left hkey value right children =>
    apply site.shapedAll_fill hs ?_ ha
    have hold := site.shapedAll_of_fill hs
    rw [ShapedAll, Shaped, declare_of_none _ hkey] at hold
    rw [Hole.tree, ShapedAll, Shaped, declare_of_none _ hkey]
    exact hold

/-- Filled trees have the leaves of the trees they come from, and the one that holds the text. -/
theorem legible_fill (hl : ∀ n ∈ listingAll ts, LegibleLeaf n) {text : String}
    (hn : LegibleLeaf (slot.hole.node text)) : ∀ n ∈ listingAll (slot.fill text), LegibleLeaf n := by
  have hlegible := hereditary_listingAll LegibleLeaf
  have hleaf {kind : LeafKind} (hn : LegibleLeaf (Hole.node text (.leaf kind "" ""))) :
      ∀ n ∈ listingAll [Hole.tree text (.leaf kind "" "")], LegibleLeaf n := by
    intro n hm
    rw [listingAll, listingAll, List.append_nil, Hole.tree, Branch.listing_tree,
      List.mem_singleton] at hm
    exact hm ▸ hn
  cases h with
  | content site trees => exact hlegible.fill (s := .base) hl (hleaf hn)
  | leaf site kind value => exact hlegible.fill (s := .base) hl (hleaf hn)
  | «attribute» site name left hkey value right children =>
    have hchildren := hlegible.children (s := .base) (hlegible.of_fill (s := .base) hl)
    apply hlegible.fill (s := .base) hl
    intro n hm
    simp only [Hole.tree, listingAll, listing, List.append_nil, List.mem_cons, List.mem_append,
      List.not_mem_nil, or_false] at hm
    rcases hm with rfl | hm | hm | rfl
    · trivial
    · obtain ⟨a, -, rfl⟩ := List.mem_map.mp hm
      trivial
    · exact hchildren n hm
    · trivial

/-- Readable trees are readable with an admitted text in the slot. -/
theorem readableAll_fill {mode : Mode} (hr : ReadableAll mode s ts) {text : String}
    (ha : slot.Admits mode s text) : ReadableAll mode s (slot.fill text) :=
  ⟨h.settledAll_fill hr.settled text, fun hm => h.shapedAll_fill (hr.shaped hm) (ha.shaped hm)⟩

end Slot.Opens
end MarkupGraft.Tree
