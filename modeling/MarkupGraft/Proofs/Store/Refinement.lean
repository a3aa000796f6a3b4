import Mathlib.Data.List.Forall2
import MarkupGraft.Proofs.Store.Rewriting
import MarkupGraft.Proofs.Store.Splicing

/-!
The flat sequence refines the tree: an edit, which replaces a range of positions, does to the tree of
a document what the edit says.
-/

namespace MarkupGraft
open Branch (Stands idents entriesAll numberAll)

/-- A tree that may have taken namespace declarations in front of the attributes of its outermost
element, and is otherwise the same. -/
def Tree.DeclaredAs (t u : Tree) : Prop :=
  ∃ declarations : List (Name × String),
    (∀ a ∈ declarations, a.1.declares?.isSome) ∧ u = t.withDeclarations declarations

namespace Edit
variable {α β : Type}

def map (f : α → β) : Edit α → Edit β
  | .replaceChildren target content => .replaceChildren target (f content)
  | .setText target text => .setText target text
  | .insertBefore target content => .insertBefore target (f content)
  | .insertAfter target content => .insertAfter target (f content)
  | .remove target => .remove target

/-- The position of the container that new content comes into. -/
def host (d : Document) (position : Nat) : Edit α → Nat
  | .insertBefore _ _ | .insertAfter _ _ => (d.parent? position).getD 0
  | _ => position

section
variable (e : Edit α) (f : α → β)

@[simp] theorem target_map : (e.map f).target = e.target := by cases e <;> rfl

@[simp] theorem host_map (d : Document) (p : Nat) : (e.map f).host d p = e.host d p := by
  cases e <;> rfl

@[simp] theorem supports_map (n : Node) : (e.map f).supports n = e.supports n := by cases e <;> rfl

@[simp] theorem content?_map : (e.map f).content? = e.content?.map f := by cases e <;> rfl

@[simp] theorem map_map {γ : Type} (g : β → γ) : (e.map f).map g = e.map (g ∘ f) := by
  cases e <;> rfl

end

end Edit

namespace RootedTree

/-- An edit of a tree. New nodes take the identities from `next` on. -/
def edit (t : RootedTree) (next : Nat) : Edit (List Tree) → RootedTree
  | .replaceChildren target trees => t.replaceChildren target.ident (numberAll next trees)
  | .setText target text => t.setText target.ident next text
  | .insertBefore target trees => t.insertBefore target.ident (numberAll next trees)
  | .insertAfter target trees => t.insertAfter target.ident (numberAll next trees)
  | .remove target => t.remove target.ident

/-- The nodes of a tree that an identity and a position of its listing can belong to. -/
inductive Found (t : RootedTree) (target : Nat) : Nat → Prop where
  | root (h : t.ident = target) : Found t target 0
  | element {name : Name} {attributes : List OwnedAttribute} {children : List Branch} {finish : Nat}
      {before after : List Entry}
      (h : Stands (.element target name attributes children finish) t.children before after) :
      Found t target (before.length + 1)
  | «attribute» {ident : Nat} {name key : Name} {value : String} {l r : List OwnedAttribute}
      {children : List Branch} {finish : Nat} {before after : List Entry}
      (h : Stands (.element ident name (l ++ ⟨target, key, value⟩ :: r) children finish) t.children
        before after) :
      Found t target (before.length + (l.length + 1) + 1)
  | leaf {kind : LeafKind} {value : String} {before after : List Entry}
      (h : Stands (.leaf target kind value) t.children before after) :
      Found t target (before.length + 1)
  | finish {position : Nat} (h : (t.entries[position]?.map (·.node)) = some .finish) :
      Found t target position

variable {t : RootedTree}

theorem entries_of_stands {b : Branch} {before after : List Entry}
    (h : Stands b t.children before after) :
    t.entries =
      (⟨.document, t.ident⟩ :: before) ++ (b.entries ++ (after ++ [⟨.finish, t.finish⟩])) := by
  rw [entries, h.entriesAll_eq]
  simp

/-- Every position belongs to a node. -/
theorem found (hn : (t.entries.map (·.ident)).Nodup) {position : Nat} {e : Entry}
    (h : t.entries[position]? = some e) : t.Found e.ident position := by
  have same {p : Nat} (hp : t.entries[p]? = some e) : p = position := by
    have hi {q : Nat} (hq : t.entries[q]? = some e) :
        (t.entries.map (·.ident))[q]? = some e.ident := by simp [hq]
    have hlt : p < (t.entries.map (·.ident)).length := by
      simpa using (List.getElem?_eq_some_iff.mp hp).1
    exact (List.getElem?_inj hlt hn).mp ((hi hp).trans (hi h).symm)
  have hm := List.mem_of_getElem? h
  rw [entries, List.mem_cons, List.mem_append, List.mem_singleton] at hm
  rcases hm with rfl | hm | rfl
  · obtain rfl := same (p := 0) rfl
    exact .root rfl
  · obtain ⟨c, before, after, hs, ho⟩ := Branch.exists_stands_of_mem_entriesAll _ hm
    have hentries := entries_of_stands hs
    cases c with
    | leaf ident kind value =>
      rw [Branch.own, List.mem_singleton] at ho
      subst ho
      obtain rfl := same (p := before.length + 1) (by
        rw [hentries, List.getElem?_append_right (by simp)]
        simp [Branch.entries])
      exact .leaf hs
    | element ident name attributes children finish =>
      rw [Branch.own, List.mem_cons, List.mem_append, List.mem_singleton] at ho
      rcases ho with rfl | ho | rfl
      · obtain rfl := same (p := before.length + 1) (by
          rw [hentries, List.getElem?_append_right (by simp)]
          simp [Branch.entries])
        exact .element hs
      · obtain ⟨a, ha, rfl⟩ := List.mem_map.mp ho
        obtain ⟨l, r, rfl⟩ := List.append_of_mem ha
        obtain rfl := same (p := before.length + (l.length + 1) + 1) (by
          rw [hentries, List.getElem?_append_right (by simp)]
          simp [Branch.entries])
        exact .«attribute» hs
      · exact .finish (by rw [h]; rfl)
  · exact .finish (by rw [h]; rfl)

/-- An identity of a standing branch belongs to nothing beside the branch. -/
theorem not_mem_of_stands {b : Branch} {before after : List Entry} {target : Nat}
    (h : Stands b t.children before after) (hn : (t.entries.map (·.ident)).Nodup)
    (ht : target ∈ idents b.entries) : target ∉ idents before ∧ target ∉ idents after := by
  rw [entries_of_stands h, List.map_append, List.map_append] at hn
  obtain ⟨-, hrest, hbefore⟩ := List.nodup_append.mp hn
  obtain ⟨-, -, hafter⟩ := List.nodup_append.mp hrest
  constructor
  · intro hm
    exact hbefore target (List.mem_cons_of_mem _ hm) target (List.mem_append_left _ ht) rfl
  · intro hm
    exact hafter target ht target (by rw [List.map_append]; exact List.mem_append_left _ hm) rfl

/-- Rewriting a node of a standing branch changes the entries of that branch alone. -/
theorem entries_rewrite {b : Branch} {before after : List Entry} {target : Nat} {r : Rewriting}
    (h : Stands b t.children before after) (hn : (t.entries.map (·.ident)).Nodup)
    (ht : target ∈ idents b.entries) :
    (t.rewrite target r).entries = (⟨.document, t.ident⟩ :: before) ++
      (entriesAll (Branch.rewriteAll r target [b]) ++ (after ++ [⟨.finish, t.finish⟩])) := by
  obtain ⟨hb, ha⟩ := not_mem_of_stands h hn ht
  rw [rewrite, entries, h.entriesAll_rewriteAll hb ha]
  simp

theorem ident_ne_of_stands {b : Branch} {before after : List Entry} {target : Nat}
    (h : Stands b t.children before after) (hn : (t.entries.map (·.ident)).Nodup)
    (ht : target ∈ idents b.entries) : t.ident ≠ target := by
  rintro rfl
  rw [entries_of_stands h, List.map_append, List.map_append] at hn
  exact (List.nodup_append.mp hn).2.2 t.ident List.mem_cons_self t.ident
    (List.mem_append_left _ ht) rfl

end RootedTree

namespace Document
variable {d : Document}

theorem node_of_entries {before after : List Entry} {e : Entry}
    (h : d.entries = before ++ e :: after) : d.node before.length = e.node := by
  simp [node, nodes, h]

/-- Where the content of a container begins and ends. -/
theorem content_range {before rest : List Entry} {head finish : Entry}
    {attributes : List OwnedAttribute} {children : List Branch} (hc : head.node.isContainer)
    (hf : finish.node = .finish)
    (h : d.entries = before ++ head ::
      (attributes.map OwnedAttribute.entry ++ (entriesAll children ++ finish :: rest))) :
    d.contentStart before.length = before.length + 1 + attributes.length ∧
      d.last before.length =
        before.length + 1 + attributes.length + (entriesAll children).length := by
  let pairs := attributes.map fun a => (a.name, a.value)
  have hpairs : (attributes.map OwnedAttribute.entry).map (·.node) = Tree.attributeNodes pairs := by
    simp [pairs, Tree.attributeNodes, OwnedAttribute.entry, Function.comp_def]
  have hnodes : d.nodes = before.map (·.node) ++ head.node :: (Tree.attributeNodes pairs ++
      (Tree.listingAll (Branch.eraseAll children) ++ .finish :: rest.map (·.node))) := by
    rw [nodes, h, ← hpairs, ← Branch.nodes_entriesAll, ← hf]
    simp
  have hlength : (Tree.listingAll (Branch.eraseAll children)).length =
      (entriesAll children).length := by
    rw [← Branch.nodes_entriesAll, List.length_map]
  constructor
  · have hdrop : d.nodes.drop (before.length + 1) = Tree.attributeNodes pairs ++
        (Tree.listingAll (Branch.eraseAll children) ++ ([.finish] ++ rest.map (·.node))) := by
      rw [hnodes, ← List.drop_drop, ← List.length_map (·.node), List.drop_left]
      rfl
    rw [contentStart, hdrop, Tree.takeWhile_isAttribute]
    simp [pairs]
  · have := Outline.placeAt_last_of_listing hc hnodes
    rw [List.length_map, hlength, List.length_map] at this
    exact this

theorem entries_splice_content {before rest : List Entry} {head finish : Entry}
    {attributes : List OwnedAttribute} {children : List Branch} (hc : head.node.isContainer)
    (hf : finish.node = .finish)
    (h : d.entries = before ++ head ::
      (attributes.map OwnedAttribute.entry ++ (entriesAll children ++ finish :: rest)))
    {f : Fragment} (hcomplete : f.Complete) (parent : Nat) :
    d.contentStart before.length ≤ d.last before.length ∧
      (d.splice (d.contentStart before.length) (d.last before.length) f parent).entries =
        before ++ head :: (attributes.map OwnedAttribute.entry ++
          (entriesAll (numberAll d.nextIdent (f.treesUnder (d.scopeAt parent))) ++
            finish :: rest)) := by
  obtain ⟨hstart, hlast⟩ := content_range hc hf h
  have hsplit : d.entries = (before ++ head :: attributes.map OwnedAttribute.entry) ++
      (entriesAll children ++ finish :: rest) := by
    rw [h]
    simp
  refine ⟨by omega, ?_⟩
  rw [entries_splice hsplit (by simp [hstart]; omega) (by simp [hlast]; omega) hcomplete]
  simp

namespace WellFormed
variable (w : d.WellFormed)
include w

theorem entries_eq : d.entries = d.tree.entries := w.entries_tree.symm

theorem nodup_tree : (d.tree.entries.map (·.ident)).Nodup := by
  rw [← w.entries_eq]
  exact w.nodup

theorem lt_length_of_locate? {target : Handle} {p : Nat} (hp : d.locate? target = some p) :
    p < d.length := by
  obtain ⟨-, e, he, -⟩ := (locate?_eq_some_iff w.nodup).mp hp
  exact (List.getElem?_eq_some_iff.mp he).1

/-- What a handle resolves to is found in the tree. -/
theorem found {h : Handle} {p : Nat} (hp : d.locate? h = some p) : d.tree.Found h.ident p := by
  obtain ⟨-, entry, hentry, htarget⟩ := (locate?_eq_some_iff w.nodup).mp hp
  rw [← htarget]
  exact RootedTree.found w.nodup_tree (w.entries_eq ▸ hentry)

section
variable {b : Branch} {before after : List Entry} (h : Stands b d.tree.children before after)
include h

theorem entries_of_stands : d.entries =
    (⟨.document, d.tree.ident⟩ :: before) ++ (b.entries ++ (after ++ [⟨.finish, d.tree.finish⟩])) :=
  w.entries_eq.trans (RootedTree.entries_of_stands h)

theorem node_of_stands {e : Entry} {rest : List Entry} (hb : b.entries = e :: rest) :
    d.node (before.length + 1) = e.node := by
  have hentries : d.entries = (⟨.document, d.tree.ident⟩ :: before) ++
      e :: (rest ++ (after ++ [⟨.finish, d.tree.finish⟩])) := by
    rw [w.entries_of_stands h, hb]
    rfl
  exact node_of_entries hentries

omit h in
theorem entries_of_element {ident : Nat} {name : Name} {attributes : List OwnedAttribute}
    {children : List Branch} {finish : Nat}
    (h : Stands (.element ident name attributes children finish) d.tree.children before after) :
    d.entries = (⟨.document, d.tree.ident⟩ :: before) ++ ⟨.element name, ident⟩ ::
      (attributes.map OwnedAttribute.entry ++
        (entriesAll children ++ ⟨.finish, finish⟩ :: (after ++ [⟨.finish, d.tree.finish⟩]))) := by
  rw [w.entries_of_stands h, Branch.entries]
  simp

theorem lt_of_stands : before.length + 1 < d.length := by
  obtain ⟨head, rest, hb, -⟩ := b.entries_head
  rw [length, w.entries_of_stands h, hb]
  simp

/-- All that belongs to a branch is what it lists. -/
theorem last_of_stands : d.last (before.length + 1) + 1 = before.length + 1 + b.entries.length := by
  cases b with
  | element ident name attributes children finish =>
    obtain ⟨-, hlast⟩ := content_range rfl rfl (w.entries_of_element h)
    rw [List.length_cons] at hlast
    rw [hlast, Branch.entries]
    simp
    omega
  | leaf ident kind value =>
    have hnode := w.node_of_stands h (Branch.entries.eq_2 ident kind value)
    have := (w.alone (w.lt_of_stands h)
      (by rw [hnode]; cases kind <;> simp [LeafKind.node, Node.isContainer])).1
    rw [this]
    simp [Branch.entries]

variable {f : Fragment} (hf : f.Complete) (parent : Nat)
include hf

theorem insertBefore_of_stands :
    (d.splice (before.length + 1) (before.length + 1) f parent).entries =
      (d.tree.insertBefore b.ident
        (numberAll d.nextIdent (f.treesUnder (d.scopeAt parent)))).entries := by
  have hentries : d.entries = (⟨.document, d.tree.ident⟩ :: before) ++
      ([] ++ (b.entries ++ (after ++ [⟨.finish, d.tree.finish⟩]))) := w.entries_of_stands h
  rw [entries_splice hentries (by simp) (by simp) hf, RootedTree.insertBefore,
    RootedTree.entries_rewrite h w.nodup_tree b.ident_mem_entries, Branch.rewriteAll, if_pos rfl]
  simp [Branch.rewriteAll]

theorem insertAfter_of_stands :
    (d.splice (d.last (before.length + 1) + 1) (d.last (before.length + 1) + 1) f parent).entries =
      (d.tree.insertAfter b.ident
        (numberAll d.nextIdent (f.treesUnder (d.scopeAt parent)))).entries := by
  have hentries : d.entries = ((⟨.document, d.tree.ident⟩ :: before) ++ b.entries) ++
      ([] ++ (after ++ [⟨.finish, d.tree.finish⟩])) := by
    rw [w.entries_of_stands h, List.append_assoc]
    rfl
  have hlast := w.last_of_stands h
  rw [entries_splice hentries (by simp [hlast]; omega) (by simp [hlast]; omega) hf,
    RootedTree.insertAfter, RootedTree.entries_rewrite h w.nodup_tree b.ident_mem_entries,
    Branch.rewriteAll, if_pos rfl]
  simp [Branch.rewriteAll, entriesAll]

omit hf

theorem remove_of_stands :
    (d.splice (before.length + 1) (d.last (before.length + 1) + 1) {} parent).entries =
      (d.tree.remove b.ident).entries := by
  have hentries := w.entries_of_stands h
  have hlast := w.last_of_stands h
  rw [entries_splice hentries (by simp) (by simp [hlast]) Fragment.complete_empty,
    RootedTree.remove, RootedTree.entries_rewrite h w.nodup_tree b.ident_mem_entries,
    Branch.rewriteAll, if_pos rfl]
  rfl

end

theorem entries_of_root :
    d.entries = [] ++ ⟨.document, d.tree.ident⟩ :: (([] : List OwnedAttribute).map
      OwnedAttribute.entry ++ (entriesAll d.tree.children ++ ⟨.finish, d.tree.finish⟩ :: [])) :=
  w.entries_eq

/-- New content of the document node. -/
theorem content_of_root {f : Fragment} (hf : f.Complete) (parent : Nat) :
    d.contentStart 0 ≤ d.last 0 ∧
      (d.splice (d.contentStart 0) (d.last 0) f parent).entries = RootedTree.entries
        { d.tree with children := numberAll d.nextIdent (f.treesUnder (d.scopeAt parent)) } :=
  entries_splice_content rfl rfl w.entries_of_root hf parent

/-- New content of an element, by whatever rewriting gives it to the element. -/
theorem content_of_element {ident : Nat} {name : Name} {attributes : List OwnedAttribute}
    {children : List Branch} {finish : Nat} {before after : List Entry}
    (h : Stands (.element ident name attributes children finish) d.tree.children before after)
    {f : Fragment} (hf : f.Complete) (parent : Nat) {r : Rewriting}
    (hr : r.inBranch (.element ident name attributes children finish) =
      [.element ident name attributes
        (numberAll d.nextIdent (f.treesUnder (d.scopeAt parent))) finish]) :
    d.contentStart (before.length + 1) ≤ d.last (before.length + 1) ∧
      (d.splice (d.contentStart (before.length + 1)) (d.last (before.length + 1)) f
        parent).entries = (d.tree.rewrite ident r).entries := by
  obtain ⟨hle, hentries⟩ := entries_splice_content rfl rfl (w.entries_of_element h) hf parent
  have ht : ident ∈ idents (Branch.element ident name attributes children finish).entries :=
    Branch.ident_mem_entries _
  refine ⟨hle, hentries.trans ?_⟩
  rw [RootedTree.entries_rewrite h w.nodup_tree ht, Branch.rewriteAll, Branch.ident, if_pos rfl, hr]
  simp [Branch.rewriteAll, Branch.entries]

/-- An attribute that a rewriting changes, with the rest of its element. -/
theorem rewrite_attribute {ident target : Nat} {name key : Name} {value : String}
    {l r : List OwnedAttribute} {children : List Branch} {finish : Nat} {before after : List Entry}
    (h : Stands (.element ident name (l ++ ⟨target, key, value⟩ :: r) children finish)
      d.tree.children before after) (rewriting : Rewriting) :
    (d.tree.rewrite target rewriting).entries =
      (⟨.document, d.tree.ident⟩ :: before ++ ⟨.element name, ident⟩ :: l.map OwnedAttribute.entry) ++
        ((rewriting.inAttribute ⟨target, key, value⟩).map OwnedAttribute.entry ++
          (r.map OwnedAttribute.entry ++ (entriesAll children ++
            ⟨.finish, finish⟩ :: (after ++ [⟨.finish, d.tree.finish⟩])))) := by
  have hn := w.nodup
  rw [w.entries_of_stands h, List.map_append, List.map_append] at hn
  obtain ⟨-, hrest, -⟩ := List.nodup_append.mp hn
  have hown := Branch.rewriteAll_attribute (r := rewriting) (List.nodup_append.mp hrest).1
  have ht : target ∈ idents
      (Branch.element ident name (l ++ ⟨target, key, value⟩ :: r) children finish).entries := by
    simp [Branch.entries, OwnedAttribute.entry]
  rw [RootedTree.entries_rewrite h w.nodup_tree ht, hown]
  simp [Branch.entries]

omit w in
private theorem numberAll_ofContent (text : String) (scope : Scope) (next : Nat) :
    numberAll next ((Fragment.ofContent text).treesUnder scope) =
      if text = "" then [] else [.leaf next .text text] := by
  unfold Fragment.ofContent
  split <;> rfl

/-! What stands at a position -/

theorem node_of_root : d.node 0 = .document := node_of_entries w.entries_of_root

theorem node_of_element {ident : Nat} {name : Name} {attributes : List OwnedAttribute}
    {children : List Branch} {finish : Nat} {before after : List Entry}
    (h : Stands (.element ident name attributes children finish) d.tree.children before after) :
    d.node (before.length + 1) = .element name :=
  w.node_of_stands h (Branch.entries.eq_1 ..)

theorem node_of_leaf {ident : Nat} {kind : LeafKind} {value : String} {before after : List Entry}
    (h : Stands (.leaf ident kind value) d.tree.children before after) :
    d.node (before.length + 1) = kind.node value :=
  w.node_of_stands h (Branch.entries.eq_2 ..)

theorem entries_of_attribute {ident target : Nat} {name key : Name} {value : String}
    {l r : List OwnedAttribute} {children : List Branch} {finish : Nat} {before after : List Entry}
    (h : Stands (.element ident name (l ++ ⟨target, key, value⟩ :: r) children finish)
      d.tree.children before after) : d.entries =
      (⟨.document, d.tree.ident⟩ :: before ++ ⟨.element name, ident⟩ :: l.map OwnedAttribute.entry) ++
        ([⟨.attribute key value, target⟩] ++
          (r.map OwnedAttribute.entry ++ (entriesAll children ++
            ⟨.finish, finish⟩ :: (after ++ [⟨.finish, d.tree.finish⟩])))) := by
  rw [w.entries_of_element h]
  simp [OwnedAttribute.entry]

theorem node_of_attribute {ident target : Nat} {name key : Name} {value : String}
    {l r : List OwnedAttribute} {children : List Branch} {finish : Nat} {before after : List Entry}
    (h : Stands (.element ident name (l ++ ⟨target, key, value⟩ :: r) children finish)
      d.tree.children before after) :
    d.node (before.length + (l.length + 1) + 1) = .attribute key value := by
  have := node_of_entries (w.entries_of_attribute h)
  simpa using this

theorem node_of_finish {p : Nat} (h : (d.tree.entries[p]?.map (·.node)) = some .finish) :
    d.node p = .finish := by
  rw [← w.entries_eq, ← List.getElem?_map] at h
  rw [node, nodes, List.getD_eq_getElem?_getD, h]
  rfl

/-! The edits one by one -/

section
variable {p target : Nat} (hfound : d.tree.Found target p) {f : Fragment} (hf : f.Complete)
include hfound

/-- New content of a container, by whatever rewriting gives it to an element. -/
private theorem edited_content (hs : (d.node p).isContainer) (hf : f.Complete) {r : Rewriting}
    (hr : ∀ name attributes children finish,
      r.inBranch (.element target name attributes children finish) = [.element target name
        attributes (numberAll d.nextIdent (f.treesUnder (d.scopeAt p))) finish]) :
    d.contentStart p ≤ d.last p ∧
      (d.splice (d.contentStart p) (d.last p) f p).entries = RootedTree.entries
        (if d.tree.ident = target then
          { d.tree with children := numberAll d.nextIdent (f.treesUnder (d.scopeAt p)) }
        else d.tree.rewrite target r) := by
  cases hfound with
  | root h =>
    rw [if_pos h]
    exact w.content_of_root hf 0
  | element h =>
    have hne : d.tree.ident ≠ target :=
      RootedTree.ident_ne_of_stands h w.nodup_tree (Branch.ident_mem_entries _)
    rw [if_neg hne]
    exact w.content_of_element h hf _ (hr ..)
  | «attribute» h => simp [w.node_of_attribute h, Node.isContainer] at hs
  | @leaf kind _ _ _ h =>
    cases kind <;> simp [w.node_of_leaf h, LeafKind.node, Node.isContainer] at hs
  | finish h => simp [w.node_of_finish h, Node.isContainer] at hs

private theorem edited_replaceChildren (hs : (d.node p).isContainer) (hf : f.Complete) :
    d.contentStart p ≤ d.last p ∧
      (d.splice (d.contentStart p) (d.last p) f p).entries =
        (d.tree.replaceChildren target
          (numberAll d.nextIdent (f.treesUnder (d.scopeAt p)))).entries :=
  w.edited_content hfound hs hf fun _ _ _ _ => rfl

private theorem edited_setText_container (hs : (d.node p).isContainer) (text : String) :
    d.contentStart p ≤ d.last p ∧
      (d.splice (d.contentStart p) (d.last p) (.ofContent text) p).entries =
        (d.tree.setText target d.nextIdent text).entries := by
  simp only [RootedTree.setText, ← numberAll_ofContent text (d.scopeAt p) d.nextIdent]
  exact w.edited_content hfound hs (Fragment.complete_ofContent text) fun _ _ _ _ => rfl

private theorem edited_setText_leaf (hs : d.node p ≠ .finish) (hc : ¬(d.node p).isContainer)
    (text : String) :
    (d.setValue p text).entries = (d.tree.setText target d.nextIdent text).entries := by
  cases hfound with
  | root h => simp [w.node_of_root, Node.isContainer] at hc
  | element h => simp [w.node_of_element h, Node.isContainer] at hc
  | @«attribute» ident name key value l r children finish before after h =>
    have ht : target ∈ idents
        (Branch.element ident name (l ++ ⟨target, key, value⟩ :: r) children finish).entries := by
      simp [Branch.entries, OwnedAttribute.entry]
    have hentries := entries_setValue text (w.entries_of_attribute h)
    have hlength : (⟨.document, d.tree.ident⟩ :: before ++ ⟨.element name, ident⟩ ::
        l.map OwnedAttribute.entry).length = before.length + (l.length + 1) + 1 := by simp
    rw [hlength] at hentries
    rw [hentries, RootedTree.setText,
      if_neg (RootedTree.ident_ne_of_stands h w.nodup_tree ht), w.rewrite_attribute h]
    rfl
  | @leaf kind value before after h =>
    have ht : target ∈ idents (Branch.leaf target kind value).entries :=
      Branch.ident_mem_entries _
    have hentries := entries_setValue text (w.entries_of_stands h)
    rw [List.length_cons] at hentries
    rw [hentries, RootedTree.setText,
      if_neg (RootedTree.ident_ne_of_stands h w.nodup_tree ht),
      RootedTree.entries_rewrite h w.nodup_tree ht]
    cases kind <;> simp [Branch.rewriteAll, Branch.ident, Branch.withChildren, Branch.withValue,
      Branch.entries, LeafKind.node, Node.withValue]
  | finish h => exact absurd (w.node_of_finish h) hs

end

/-- A sibling can be put beside a branch, and beside nothing else. -/
theorem exists_stands {p target : Nat} (hfound : d.tree.Found target p)
    (hs : (d.node p).isChild) (hd : d.node p ≠ .document) :
    ∃ b before after, Stands b d.tree.children before after ∧ b.ident = target ∧
      p = before.length + 1 := by
  cases hfound with
  | root h => exact absurd w.node_of_root hd
  | element h | leaf h => exact ⟨_, _, _, h, rfl, rfl⟩
  | «attribute» h => simp [w.node_of_attribute h, Node.isChild] at hs
  | finish h => simp [w.node_of_finish h, Node.isChild] at hs

private theorem edited_remove {p target : Nat} (hfound : d.tree.Found target p)
    (hd : d.node p ≠ .document) (hs : d.node p ≠ .finish) :
    p ≤ d.last p + 1 ∧ (d.splice p (d.last p + 1) {} 0).entries =
      (d.tree.remove target).entries := by
  by_cases hc : (d.node p).isChild
  · obtain ⟨b, before, after, h, rfl, rfl⟩ := w.exists_stands hfound hc hd
    have := w.last_of_stands h
    exact ⟨by omega, w.remove_of_stands h 0⟩
  · cases hfound with
    | root h => exact absurd w.node_of_root hd
    | element h => simp [w.node_of_element h, Node.isChild] at hc
    | @leaf kind _ _ _ h => cases kind <;> simp [w.node_of_leaf h, LeafKind.node, Node.isChild] at hc
    | finish h => exact absurd (w.node_of_finish h) hs
    | @«attribute» ident name key value l r children finish before after h =>
      have hentries := w.entries_of_attribute h
      have hlast : d.last (before.length + (l.length + 1) + 1) =
          before.length + (l.length + 1) + 1 := by
        refine (w.alone ?_ (by simp [w.node_of_attribute h, Node.isContainer])).1
        rw [length, hentries]
        simp
      rw [hlast]
      refine ⟨by omega, ?_⟩
      rw [entries_splice hentries (by simp) (by simp) Fragment.complete_empty, RootedTree.remove,
        w.rewrite_attribute h]
      rfl

/-- What a supported edit makes of a document lists the edited tree. -/
theorem edited {e : Edit Fragment} (hf : ∀ f ∈ e.content?, f.Complete) {p : Nat}
    (hp : d.locate? e.target = some p) (hs : e.supports (d.node p)) :
    (d.edited e p).WellFormed ∧ (d.edited e p).tree =
      d.tree.edit d.nextIdent (e.map (Fragment.treesUnder · (d.scopeAt (e.host d p)))) := by
  have hfound := w.found hp
  cases e with
  | replaceChildren target f =>
    obtain ⟨hle, hentries⟩ := w.edited_replaceChildren hfound hs (hf f rfl)
    exact w.splice hle hentries
  | setText target text =>
    by_cases hc : (d.node p).isContainer
    · obtain ⟨hle, hentries⟩ := w.edited_setText_container hfound hc text
      rw [Document.edited, if_pos hc]
      exact w.splice hle hentries
    · rw [Document.edited, if_neg hc]
      exact w.setValue (w.edited_setText_leaf hfound (by simpa [Edit.supports] using hs) hc text)
  | insertBefore target f =>
    simp only [Edit.supports, Bool.and_eq_true, decide_eq_true_eq] at hs
    obtain ⟨b, before, after, h, hb, rfl⟩ := w.exists_stands hfound hs.1 hs.2
    have hentries := w.insertBefore_of_stands h (hf f rfl)
      ((d.parent? (before.length + 1)).getD 0)
    rw [hb] at hentries
    exact w.splice (Nat.le_refl _) hentries
  | insertAfter target f =>
    simp only [Edit.supports, Bool.and_eq_true, decide_eq_true_eq] at hs
    obtain ⟨b, before, after, h, hb, rfl⟩ := w.exists_stands hfound hs.1 hs.2
    have hentries := w.insertAfter_of_stands h (hf f rfl)
      ((d.parent? (before.length + 1)).getD 0)
    rw [hb] at hentries
    exact w.splice (Nat.le_refl _) hentries
  | remove target =>
    simp only [Edit.supports, Bool.and_eq_true, decide_eq_true_eq] at hs
    obtain ⟨hle, hentries⟩ := w.edited_remove hfound hs.1 hs.2
    exact w.splice hle hentries

end WellFormed

theorem declaredAs_placed (scope target : Scope) (t : Tree) :
    t.DeclaredAs (t.placed scope target) :=
  ⟨t.declared scope target, fun _ h => Placement.declares?_of_mem_declared scope target h, rfl⟩

/-- An edit of a well-formed document does to its tree what the edit says, where the trees of a
fragment come in as they are but for declarations on the outermost elements. It fails when the handle
is stale or the target does not support it, and only then. -/
theorem edit_refines_tree (w : d.WellFormed) (e : Edit Fragment)
    (hf : ∀ f ∈ e.content?, f.Complete) :
    match d.locate? e.target with
    | none => d.edit e = .error .staleHandle
    | some p =>
      if e.supports (d.node p) then
        let scope := d.scopeAt (e.host d p)
        ∃ d', d.edit e = .ok d' ∧ d'.WellFormed ∧
          d'.tree = d.tree.edit d.nextIdent (e.map (Fragment.treesUnder · scope)) ∧
          (∀ f ∈ e.content?, List.Forall₂ Tree.DeclaredAs f.trees (f.treesUnder scope)) ∧
          d'.id = d.id ∧ d'.mode = d.mode ∧ d'.inherited = d.inherited
      else d.edit e = .error (.invalidKind e.operation (d.node p).kind) := by
  have hedit := d.edit_eq e
  cases hp : d.locate? e.target with
  | none => simpa [hp] using hedit
  | some p =>
    rw [hp] at hedit
    by_cases hs : e.supports (d.node p) = true
    · simp only [hs, if_true] at hedit ⊢
      obtain ⟨hw, htree⟩ := w.edited hf hp hs
      refine ⟨_, hedit, hw, htree, fun f _ => ?_, d.edited_kept e p⟩
      rw [Fragment.treesUnder, List.forall₂_map_right_iff]
      exact List.forall₂_same.mpr fun t _ => declaredAs_placed _ _ t
    · simp only [hs] at hedit ⊢
      exact hedit

/-- A text behind another text becomes the last child, with the next identity. -/
theorem edit_refines_tree_insertAfter :
    ∃ d', (ofText 0 "a").edit (.insertAfter ⟨0, 1⟩ (.ofText "b")) = .ok d' ∧ d'.WellFormed ∧
      d'.tree = ⟨0, [.leaf 1 .text "a", .leaf 3 .text "b"], 2⟩ := by
  have w : (ofText 0 "a").WellFormed := wellFormed_ofNodes 0 .xml [.text "a"]
  obtain ⟨d', hd', hw, htree, -⟩ :=
    edit_refines_tree w (.insertAfter ⟨0, 1⟩ (.ofText "b")) fun f hf => by
      obtain rfl : .ofText "b" = f := Option.some.inj hf
      exact Fragment.complete_ofText "b"
  exact ⟨d', hd', hw, htree.trans rfl⟩

/-- The trees of a document are its tree without the identities. -/
theorem WellFormed.forest_nodes (w : d.WellFormed) :
    Tree.forest d.nodes = Branch.eraseAll d.tree.children := by
  rw [nodes, w.entries_eq, RootedTree.nodes_entries, Tree.forest_document]

end Document
end MarkupGraft
