import MarkupGraft.Proofs.Store.Cutting

/-!
The scopes of a document as its tree tells them. Going down the branches one meets the scope around
each node and the scope inside it, and these are the scopes found by following parents.
-/

namespace MarkupGraft
open Branch (entriesAll)

/-- An entry with the scope around it and the scope inside it. -/
structure Setting where
  entry : Entry
  around : Scope
  inside : Scope

namespace Branch

/-- The scope inside a branch that stands where `s` is in scope. -/
def inner (s : Scope) : Branch → Scope
  | .element _ _ attributes _ _ => Tree.declare s (attributes.map fun a => (a.name, a.value))
  | .leaf _ _ _ => s

mutual

/-- The entries of a branch with their scopes, where `s` is in scope around it. -/
def settings (s : Scope) : Branch → List Setting
  | .element ident name attributes children finish =>
    let inner := Tree.declare s (attributes.map fun a => (a.name, a.value))
    ⟨⟨.element name, ident⟩, s, inner⟩ ::
      (attributes.map (fun a => ⟨a.entry, inner, inner⟩) ++
        (settingsAll inner children ++ [⟨⟨.finish, finish⟩, inner, inner⟩]))
  | .leaf ident kind value => [⟨⟨kind.node value, ident⟩, s, s⟩]

def settingsAll (s : Scope) : List Branch → List Setting
  | [] => []
  | branch :: branches => settings s branch ++ settingsAll s branches

end

mutual

theorem entries_settings (s : Scope) : ∀ b : Branch, (settings s b).map (·.entry) = b.entries
  | .element ident name attributes children finish => by
    simp [settings, entries, entries_settingsAll _ children, Function.comp_def]
  | .leaf ident kind value => by simp [settings, entries]

theorem entries_settingsAll (s : Scope) : ∀ bs : List Branch,
    (settingsAll s bs).map (·.entry) = entriesAll bs
  | [] => rfl
  | b :: bs => by
    rw [settingsAll, List.map_append, entries_settings s b, entries_settingsAll s bs, entriesAll]

end

@[simp] theorem settingsAll_append (s : Scope) (bs cs : List Branch) :
    settingsAll s (bs ++ cs) = settingsAll s bs ++ settingsAll s cs := by
  induction bs with
  | nil => rfl
  | cons b bs ih => simp [settingsAll, ih]

/-- The settings of a branch begin with its own. -/
theorem exists_setting (s : Scope) (b : Branch) : ∃ node, (node.isChild ∧ node ≠ .document) ∧
    ⟨⟨node, b.ident⟩, s, b.inner s⟩ ∈ settings s b := by
  cases b with
  | element ident name => exact ⟨.element name, ⟨rfl, by simp⟩, List.mem_cons_self⟩
  | leaf ident kind value =>
    exact ⟨kind.node value, by cases kind <;> simp [LeafKind.node, Node.isChild], List.mem_cons_self⟩

/-! Rewriting -/

section
variable {r : Rewriting} {target : Nat} {x : Setting}

private theorem rewriteAttributes_eq (hr : ∀ a, r.inAttribute a = [a])
    (attributes : List OwnedAttribute) : rewriteAttributes r target attributes = attributes := by
  have hsame : (fun a : OwnedAttribute => if a.ident = target then r.inAttribute a else [a]) =
      fun a => [a] := by
    funext a
    rw [hr, ite_self]
  rw [rewriteAttributes, hsame, List.flatMap_singleton']

mutual

private theorem mem_settings_rewriteInside (hr : ∀ a, r.inAttribute a = [a]) (s : Scope) :
    ∀ b : Branch, x ∈ settings s (rewriteInside r target b) → x ∈ settings s b ∨
      ∃ c around, c.ident = target ∧ settings around c ⊆ settings s b ∧
        x ∈ settingsAll around (r.inBranch c)
  | .element ident name attributes children finish, h => by
    rw [rewriteInside, rewriteAttributes_eq hr, settings, List.mem_cons, List.mem_append,
      List.mem_append] at h
    simp only [settings]
    rcases h with h | h | h | h
    · exact .inl (by simp [h])
    · exact .inl (by simp [h])
    · rcases mem_settingsAll_rewriteAll hr _ children h with h | ⟨c, around, hc, hsub, h⟩
      · exact .inl (by simp [h])
      · refine .inr ⟨c, around, hc, fun y hy => ?_, h⟩
        simp [hsub hy]
    · exact .inl (by simp [h])
  | .leaf _ _ _, h => .inl h

/-- What stands among rewritten branches stood there before, or comes from a rewritten branch and
stands where that one does. -/
theorem mem_settingsAll_rewriteAll (hr : ∀ a, r.inAttribute a = [a]) (s : Scope) :
    ∀ bs : List Branch, x ∈ settingsAll s (rewriteAll r target bs) → x ∈ settingsAll s bs ∨
      ∃ c around, c.ident = target ∧ settings around c ⊆ settingsAll s bs ∧
        x ∈ settingsAll around (r.inBranch c)
  | [], h => .inl h
  | b :: bs, h => by
    rw [rewriteAll, settingsAll_append, List.mem_append] at h
    rw [settingsAll, List.mem_append]
    rcases h with h | h
    · split at h
      · rename_i hb
        exact .inr ⟨b, s, hb, List.subset_append_left _ _, h⟩
      · rw [settingsAll, settingsAll, List.append_nil] at h
        rcases mem_settings_rewriteInside hr s b h with h | ⟨c, around, hc, hsub, h⟩
        · exact .inl (.inl h)
        · exact .inr ⟨c, around, hc, List.Subset.trans hsub (List.subset_append_left _ _), h⟩
    · rcases mem_settingsAll_rewriteAll hr s bs h with h | ⟨c, around, hc, hsub, h⟩
      · exact .inl (.inr h)
      · exact .inr ⟨c, around, hc, List.Subset.trans hsub (List.subset_append_right _ _), h⟩

end

end

end Branch

namespace RootedTree

/-- The entries of a document with their scopes, where `s` is what it inherits. -/
def settings (s : Scope) (t : RootedTree) : List Setting :=
  ⟨⟨.document, t.ident⟩, s, s⟩ :: (Branch.settingsAll s t.children ++ [⟨⟨.finish, t.finish⟩, s, s⟩])

theorem entries_settings (s : Scope) (t : RootedTree) :
    (t.settings s).map (·.entry) = t.entries := by
  simp [settings, entries, Branch.entries_settingsAll]

end RootedTree

/-! Open containers -/

namespace Outline
open MarkupGraft.Tree (listing listingAll attributeNodes)

theorem openedFrom_attributeNodes (opened : List Nat) (position : Nat)
    (attributes : List (Name × String)) :
    openedFrom opened position (attributeNodes attributes) = opened := by
  induction attributes generalizing position with
  | nil => rfl
  | cons a attributes ih => exact ih (position + 1)

mutual

theorem openedFrom_listing (opened : List Nat) (position : Nat) : ∀ t : Tree,
    openedFrom opened position (listing t) = opened
  | .element name attributes children => by
    rw [listing, openedFrom, openedFrom_append, openedFrom_append, openedFrom_attributeNodes,
      openedFrom_listingAll _ _ children]
    rfl
  | .text _ | .comment _ | .instruction _ | .doctype _ => rfl

/-- Complete trees leave open what was open. -/
theorem openedFrom_listingAll (opened : List Nat) (position : Nat) : ∀ ts : List Tree,
    openedFrom opened position (listingAll ts) = opened
  | [] => rfl
  | t :: ts => by
    rw [listingAll, openedFrom_append, openedFrom_listing opened _ t,
      openedFrom_listingAll opened _ ts]

end

end Outline

namespace Document
open Outline (openedAt openedFrom)
variable (d : Document)

/-- The entry at a position with its scopes. The document node, which has no parent, stands in its
own scope. -/
def settingAt (position : Nat) : Setting :=
  ⟨d.entries.getD position default, d.scopeAt ((d.parent? position).getD 0), d.scopeAt position⟩

variable {d}

theorem node_settingAt {p : Nat} (hp : p < d.length) : (d.settingAt p).entry.node = d.node p := by
  have hp : p < d.entries.length := hp
  simp [settingAt, node, nodes, hp]

/-- Below its parent, an element adds its declarations to the scope. -/
theorem scopeAt_of_parent {position parent : Nat} (h : d.parent? position = some parent)
    (hlt : parent < position) : d.scopeAt position =
      if (d.node position).isElement then d.declare (d.scopeAt parent) position
      else d.scopeAt parent := by
  have hancestors : d.ancestors position = parent :: d.ancestors parent := by
    rw [ancestors, h]
    simp only [hlt, if_true]
  rw [scopeAt, hancestors, List.reverse_cons, List.foldl_append]
  rfl

private theorem foldl_attributes {before after : List Entry} {attributes : List OwnedAttribute}
    (h : d.entries = before ++ (attributes.map OwnedAttribute.entry ++ after)) (s : Scope) :
    (List.range' before.length attributes.length).foldl (fun s p =>
      match d.node p with
      | .attribute name value =>
        match name.declares? with
        | some mark => s.insert mark value
        | none => s
      | _ => s) s = Tree.declare s (attributes.map fun a => (a.name, a.value)) := by
  induction attributes generalizing before s with
  | nil => rfl
  | cons a attributes ih =>
    have hnode : d.node before.length = .attribute a.name a.value := node_of_entries h
    have hrest : d.entries =
        (before ++ [a.entry]) ++ (attributes.map OwnedAttribute.entry ++ after) := by
      rw [h]
      simp
    have := ih hrest
    rw [List.length_append, List.length_singleton] at this
    rw [List.length_cons, List.range'_succ, List.foldl_cons, hnode, this]
    rfl

/-- What an element declares. -/
private theorem declare_of_entries {before rest : List Entry} {name : Name} {ident finish : Nat}
    {attributes : List OwnedAttribute} {children : List Branch}
    (h : d.entries = before ++ ⟨.element name, ident⟩ :: (attributes.map OwnedAttribute.entry ++
      (entriesAll children ++ ⟨.finish, finish⟩ :: rest))) (s : Scope) :
    d.declare s before.length = Tree.declare s (attributes.map fun a => (a.name, a.value)) := by
  have hnode : d.node before.length = .element name := node_of_entries h
  have hpositions : d.attributes before.length =
      List.range' (before.length + 1) attributes.length := by
    rw [Document.attributes, hnode, (content_range rfl rfl h).1, List.range_eq_range',
      List.drop_range']
    simp [Node.isElement]
  have hentries : d.entries = (before ++ [⟨.element name, ident⟩]) ++
      (attributes.map OwnedAttribute.entry ++ (entriesAll children ++ ⟨.finish, finish⟩ :: rest)) := by
    rw [h]
    simp
  have := foldl_attributes hentries s
  rw [List.length_append, List.length_singleton] at this
  rw [Document.declare, hpositions]
  exact this

private theorem nodes_attributes (attributes : List OwnedAttribute) :
    (attributes.map OwnedAttribute.entry).map (·.node) =
      Tree.attributeNodes (attributes.map fun a => (a.name, a.value)) := by
  simp [Tree.attributeNodes, OwnedAttribute.entry, Function.comp_def]

/-- The containers open behind a run of entries. -/
private theorem openedAt_append {before more after : List Entry}
    (h : d.entries = before ++ (more ++ after)) :
    openedAt d.nodes (before.length + more.length) =
      openedFrom (openedAt d.nodes before.length) before.length (more.map (·.node)) := by
  have hnodes : d.nodes = before.map (·.node) ++ (more.map (·.node) ++ after.map (·.node)) := by
    rw [nodes, h]
    simp
  have htake : d.nodes.take (before.length + more.length) =
      before.map (·.node) ++ more.map (·.node) := by
    rw [hnodes, ← List.append_assoc, List.take_left']
    simp
  have hbefore : d.nodes.take before.length = before.map (·.node) := by
    rw [hnodes, List.take_left']
    simp
  rw [openedAt, htake, openedAt, hbefore, Outline.openedFrom_append, List.length_map, Nat.zero_add]

/-- Behind the entry of a container that container is open. -/
private theorem openedAt_of_container {before after : List Entry} {e : Entry}
    (h : d.entries = before ++ e :: after) (hc : e.node.isContainer) :
    openedAt d.nodes (before ++ [e]).length = before.length :: openedAt d.nodes before.length := by
  have hlt : before.length < d.nodes.length := by
    rw [length_nodes, length, h]
    simp
  have hnode : Outline.nodeAt d.nodes before.length = e.node := node_of_entries h
  rw [List.length_append, List.length_singleton, Outline.openedAt_succ hlt, hnode]
  cases hn : e.node with
  | document | element => rfl
  | _ => simp [hn, Node.isContainer] at hc

section
variable {before after : List Entry} {e : Entry} {parent : Nat}
  (h : d.entries = before ++ e :: after)
  (hparent : (openedAt d.nodes before.length).head? = some parent)
include h hparent

/-- What stands at a position, by the container that is open there. -/
private theorem settingAt_of_entries : before.length < d.length ∧ d.settingAt before.length =
    ⟨e, d.scopeAt parent, if e.node.isElement then d.declare (d.scopeAt parent) before.length
      else d.scopeAt parent⟩ := by
  have hlt : before.length < d.length := by
    rw [length, h]
    simp
  have hparent' : d.parent? before.length = some parent :=
    (Outline.placeAt_parent (by rwa [length_nodes])).trans hparent
  have hbelow : parent < before.length :=
    ((Outline.openedAt_spec (by rw [length_nodes]; omega)).2 parent (List.mem_of_head? hparent)).1
  have hentry : d.entries.getD before.length default = e := by
    rw [h]
    simp
  refine ⟨hlt, ?_⟩
  rw [settingAt, hentry, hparent', scopeAt_of_parent hparent' hbelow, node_of_entries h]
  rfl

end

/-- Among attributes the same container is open. -/
private theorem settingAt_of_attribute {before after : List Entry} {parent : Nat}
    {attributes : List OwnedAttribute}
    (h : d.entries = before ++ (attributes.map OwnedAttribute.entry ++ after))
    (hparent : (openedAt d.nodes before.length).head? = some parent) {a : OwnedAttribute}
    (ha : a ∈ attributes) :
    ∃ p < d.length, d.settingAt p = ⟨a.entry, d.scopeAt parent, d.scopeAt parent⟩ := by
  obtain ⟨l, r, rfl⟩ := List.append_of_mem ha
  have hentries : d.entries = before ++ (l.map OwnedAttribute.entry ++
      a.entry :: (r.map OwnedAttribute.entry ++ after)) := by
    rw [h]
    simp
  have hopened := openedAt_append hentries
  rw [nodes_attributes, Outline.openedFrom_attributeNodes, ← List.length_append] at hopened
  rw [← List.append_assoc] at hentries
  exact ⟨_, settingAt_of_entries hentries (by rw [hopened, hparent])⟩

mutual

/-- The settings of a branch are those found at its positions. -/
private theorem exists_settingAt {before after : List Entry} {parent : Nat} : ∀ b : Branch,
    d.entries = before ++ (b.entries ++ after) →
    (openedAt d.nodes before.length).head? = some parent →
    ∀ x ∈ Branch.settings (d.scopeAt parent) b, ∃ p < d.length, d.settingAt p = x
  | .element ident name attributes children finish, h, hparent => by
    have hentries : d.entries = before ++ ⟨.element name, ident⟩ ::
        (attributes.map OwnedAttribute.entry ++
          (entriesAll children ++ ⟨.finish, finish⟩ :: after)) := by
      rw [h, Branch.entries]
      simp
    obtain ⟨hlt, hself⟩ := settingAt_of_entries hentries hparent
    rw [declare_of_entries hentries] at hself
    have hscope : d.scopeAt before.length = Tree.declare (d.scopeAt parent)
      (attributes.map fun a => (a.name, a.value)) := congrArg Setting.inside hself
    -- Behind its own entry the element is the innermost container, up to its end marker.
    have hsplit : d.entries = (before ++ [⟨.element name, ident⟩]) ++
        (attributes.map OwnedAttribute.entry ++
          (entriesAll children ++ ⟨.finish, finish⟩ :: after)) := by
      rw [hentries]
      simp
    have hopened := openedAt_of_container hentries rfl
    have hopened' := openedAt_append hsplit
    rw [nodes_attributes, Outline.openedFrom_attributeNodes, hopened, ← List.length_append]
      at hopened'
    rw [← List.append_assoc] at hsplit
    have hopened'' := openedAt_append hsplit
    rw [Branch.nodes_entriesAll, Outline.openedFrom_listingAll, hopened', ← List.length_append]
      at hopened''
    have hend := hsplit
    rw [← List.append_assoc] at hend
    intro x hx
    simp only [Branch.settings, ← hscope, List.mem_cons, List.mem_append, List.not_mem_nil,
      or_false] at hx
    rcases hx with rfl | hx | hx | rfl
    · exact ⟨_, hlt, hself.trans (by rw [hscope]; rfl)⟩
    · obtain ⟨a, ha, rfl⟩ := List.mem_map.mp hx
      rw [List.append_assoc] at hsplit
      exact settingAt_of_attribute hsplit (by rw [hopened]; rfl) ha
    · exact exists_settingAt_all children hsplit (by rw [hopened']; rfl) x hx
    · exact ⟨_, settingAt_of_entries hend (by rw [hopened'']; rfl)⟩
  | .leaf ident kind value, h, hparent => by
    obtain ⟨hlt, hself⟩ := settingAt_of_entries h hparent
    have hleaf : (kind.node value).isElement = false := by cases kind <;> rfl
    simp only [hleaf] at hself
    intro x hx
    rw [Branch.settings, List.mem_singleton] at hx
    exact ⟨_, hlt, hself.trans hx.symm⟩

private theorem exists_settingAt_all {before after : List Entry} {parent : Nat} :
    ∀ bs : List Branch, d.entries = before ++ (entriesAll bs ++ after) →
    (openedAt d.nodes before.length).head? = some parent →
    ∀ x ∈ Branch.settingsAll (d.scopeAt parent) bs, ∃ p < d.length, d.settingAt p = x
  | [], _, _ => by simp [Branch.settingsAll]
  | b :: bs, h, hparent => by
    rw [entriesAll, List.append_assoc] at h
    have hopened := openedAt_append h
    rw [Branch.nodes_entries, Outline.openedFrom_listing, ← List.length_append] at hopened
    intro x hx
    rw [Branch.settingsAll, List.mem_append] at hx
    rcases hx with hx | hx
    · exact exists_settingAt b h hparent x hx
    · rw [← List.append_assoc] at h
      exact exists_settingAt_all bs h (by rw [hopened, hparent]) x hx

end

namespace WellFormed
variable (w : d.WellFormed)
include w

/-- The scope around the top of a document. -/
theorem scopeAt_root : d.scopeAt 0 = Scope.base.override d.inherited := by
  have hancestors : d.ancestors 0 = [] := by
    rw [ancestors]
    split <;> simp
  rw [scopeAt, hancestors]
  simp [w.node_of_root, Node.isElement]

/-- The scopes that the tree tells are those found at the positions. -/
theorem exists_position {x : Setting} (hx : x ∈ d.tree.settings (d.scopeAt 0)) :
    ∃ p < d.length, d.settingAt p = x := by
  have hentries : d.entries = [⟨.document, d.tree.ident⟩] ++
      (entriesAll d.tree.children ++ [⟨.finish, d.tree.finish⟩]) := w.entries_eq
  have hopened : openedAt d.nodes [(⟨.document, d.tree.ident⟩ : Entry)].length = [0] :=
    @openedAt_of_container _ [] _ _ w.entries_eq rfl
  have hclosed := openedAt_append hentries
  rw [Branch.nodes_entriesAll, Outline.openedFrom_listingAll, hopened, ← List.length_append]
    at hclosed
  rw [RootedTree.settings, List.mem_cons, List.mem_append, List.mem_singleton] at hx
  rcases hx with rfl | hx | rfl
  · have hlt : 0 < d.length := by
      rw [length, hentries]
      simp
    have hparent : d.parent? 0 = none := Outline.placeAt_parent (by rwa [length_nodes])
    refine ⟨0, hlt, ?_⟩
    rw [settingAt, hparent, hentries]
    rfl
  · exact exists_settingAt_all d.tree.children hentries (by rw [hopened]; rfl) x hx
  · rw [← List.append_assoc] at hentries
    exact ⟨_, settingAt_of_entries hentries (by rw [hclosed]; rfl)⟩

/-- What the tree tells of an entry is found by the handle of the entry. -/
theorem exists_locate {x : Setting} (hx : x ∈ d.tree.settings (d.scopeAt 0)) :
    ∃ p, d.locate? ⟨d.id, x.entry.ident⟩ = some p ∧ d.node p = x.entry.node ∧
      d.scopeAt ((d.parent? p).getD 0) = x.around := by
  obtain ⟨p, hp, rfl⟩ := w.exists_position hx
  have hlt : p < d.entries.length := hp
  exact ⟨p, (locate?_eq_some_iff w.nodup).mpr ⟨rfl, _, by simp [settingAt, hlt], rfl⟩,
    (node_settingAt hp).symm, rfl⟩

/-- The scopes found at a position are those that the tree tells of its entry. -/
theorem settingAt_mem {p : Nat} (hp : p < d.length) :
    d.settingAt p ∈ d.tree.settings (d.scopeAt 0) := by
  have hentry : d.entries[p]? = some (d.settingAt p).entry := by
    have hp : p < d.entries.length := hp
    simp [settingAt, hp]
  have hm := List.mem_of_getElem? hentry
  rw [w.entries_eq, ← RootedTree.entries_settings (d.scopeAt 0), List.mem_map] at hm
  obtain ⟨x, hx, he⟩ := hm
  obtain ⟨q, hq, rfl⟩ := w.exists_position hx
  have hq' : d.entries[q]? = some (d.settingAt q).entry := by
    have hq : q < d.entries.length := hq
    simp [settingAt, hq]
  have hsame : (d.entries.map (·.ident))[p]? = (d.entries.map (·.ident))[q]? := by
    rw [List.getElem?_map, List.getElem?_map, hentry, hq', he]
  have hlt : p < (d.entries.map (·.ident)).length := by
    rw [List.length_map]
    exact hp
  rwa [(List.getElem?_inj hlt w.nodup).mp hsame]

/-- An entry has one setting. -/
theorem eq_of_mem_settings {x y : Setting} (hx : x ∈ d.tree.settings (d.scopeAt 0))
    (hy : y ∈ d.tree.settings (d.scopeAt 0)) (h : x.entry.ident = y.entry.ident) : x = y := by
  have hn : ((d.tree.settings (d.scopeAt 0)).map (·.entry.ident)).Nodup := by
    have := w.nodup
    rw [w.entries_eq, ← RootedTree.entries_settings (d.scopeAt 0), List.map_map] at this
    exact this
  exact List.inj_on_of_nodup_map hn hx hy h

end WellFormed

end Document
end MarkupGraft
