import MarkupGraft.Proofs.Store.Qualification
import MarkupGraft.Proofs.Store.Site

/-!
Grafting keeps namespaces: where a node of a document whose names are all led to their namespaces is
put into another such document, the result is such a document again.
-/

namespace MarkupGraft
open Branch (Stands settings settingsAll eraseAll entriesAll)
open MarkupGraft.Tree (listingAll QualifiedAll)

/-- The prefixes that are bound from the beginning and never again. -/
def reservedMarks : List String := ["xml", "xmlns"]

namespace Node

/-- Whether the name of a node is led to its namespace by the scope inside the node, or inside its
element when it is an attribute. Declarations are led nowhere. -/
def Qualified (s : Scope) : Node → Prop
  | .element name => name.Qualified s .element
  | .attribute name _ => name.declares? = none → name.Qualified s .attribute
  | _ => True

/-- Whether a node declares no reserved prefix. -/
def Unreserved : Node → Prop
  | .attribute name _ => ∀ mark ∈ name.declares?, mark ∉ reservedMarks
  | _ => True

end Node

/-- Whether no reserved prefix is bound. -/
def Scope.Unreserved (s : Scope) : Prop := ∀ mark ∈ reservedMarks, s.get? mark = none

/-- Whether the names of a document are led to their namespaces, with no reserved prefix declared. -/
structure Document.Qualified (d : Document) : Prop where
  node {p : Nat} (h : p < d.length) : (d.node p).Qualified (d.scopeAt p)
  unreserved : ∀ n ∈ d.nodes, n.Unreserved
  inherited : d.inherited.Unreserved

/-- Whether the names of a fragment are led to their namespaces by the bindings it was cut out
under. -/
structure Fragment.Qualified (f : Fragment) : Prop where
  trees : QualifiedAll (Scope.base.override f.scope) f.trees
  unreserved : ∀ n ∈ f.nodes, n.Unreserved
  scope : f.scope.Unreserved

theorem Tree.hereditary_qualifiedAll : Tree.Hereditary QualifiedAll := by
  apply Tree.Hereditary.of_local (Q := fun s name attributes =>
    name.Qualified (Tree.declare s attributes) .element ∧
      Tree.AttributesQualified (Tree.declare s attributes) attributes)
  · intro s
    trivial
  · simp [QualifiedAll]
  · simp [QualifiedAll, Tree.Qualified, and_assoc]

/-! Scopes and nodes -/

namespace Branch

private theorem leaf_qualified (kind : LeafKind) (value : String) (s : Scope) :
    (kind.tree value).Qualified s ∧ (kind.node value).Qualified s := by
  cases kind <;> exact ⟨trivial, trivial⟩

mutual

private theorem qualified_iff : ∀ (b : Branch) {s : Scope},
    b.erase.Qualified s ↔ ∀ x ∈ settings s b, x.entry.node.Qualified x.inside
  | .element ident name attributes children finish, s => by
    simp only [erase, Tree.Qualified, settings, List.forall_mem_cons, List.forall_mem_append,
      List.forall_mem_map, qualifiedAll_iff children, Tree.AttributesQualified]
    simp [Node.Qualified, OwnedAttribute.entry]
  | .leaf ident kind value, s => by
    have := leaf_qualified kind value s
    simp [erase, settings, this]

/-- The names of trees are led to their namespaces when those of all nodes are where they stand. -/
theorem qualifiedAll_iff : ∀ (bs : List Branch) {s : Scope},
    QualifiedAll s (eraseAll bs) ↔ ∀ x ∈ settingsAll s bs, x.entry.node.Qualified x.inside
  | [], s => by simp [eraseAll, QualifiedAll, settingsAll]
  | b :: bs, s => by
    rw [eraseAll, QualifiedAll, settingsAll, List.forall_mem_append, qualified_iff b,
      qualifiedAll_iff bs]

end

private theorem get?_declare_reserved {s : Scope} {attributes : List OwnedAttribute}
    (h : ∀ a ∈ attributes, a.entry.node.Unreserved) {mark : String} (hm : mark ∈ reservedMarks) :
    (Tree.declare s (attributes.map fun a => (a.name, a.value))).get? mark = s.get? mark := by
  refine Tree.get?_declare_of_not_mem (fun hd => ?_) s
  obtain ⟨_, hb, hd⟩ := List.mem_filterMap.mp hd
  obtain ⟨a, ha, rfl⟩ := List.mem_map.mp hb
  exact h a ha mark hd hm

mutual

private theorem get?_settings {mark : String} (hm : mark ∈ reservedMarks) : ∀ (b : Branch)
    {s : Scope}, (∀ e ∈ b.entries, e.node.Unreserved) → ∀ x ∈ settings s b,
      x.inside.get? mark = s.get? mark
  | .element ident name attributes children finish, s, h => by
    simp only [entries, List.forall_mem_cons, List.forall_mem_append, List.forall_mem_map] at h
    have hinner := get?_declare_reserved (s := s) h.2.1 hm
    simp only [settings, List.forall_mem_cons, List.forall_mem_append, List.forall_mem_map]
    refine ⟨hinner, fun a _ => hinner, fun x hx => ?_, hinner, by simp⟩
    rw [get?_settingsAll hm children h.2.2.1 x hx, hinner]
  | .leaf ident kind value, s, _ => by simp [settings]

/-- Reserved prefixes are bound everywhere as they are around it all. -/
theorem get?_settingsAll {mark : String} (hm : mark ∈ reservedMarks) : ∀ (bs : List Branch)
    {s : Scope}, (∀ e ∈ entriesAll bs, e.node.Unreserved) → ∀ x ∈ settingsAll s bs,
      x.inside.get? mark = s.get? mark
  | [], s, _ => by simp [settingsAll]
  | b :: bs, s, h => by
    rw [entriesAll, List.forall_mem_append] at h
    rw [settingsAll, List.forall_mem_append]
    exact ⟨get?_settings hm b h.1, get?_settingsAll hm bs h.2⟩

end

end Branch

namespace Document
variable {d : Document}

namespace WellFormed
variable (w : d.WellFormed)
include w

private theorem forall_nodes_iff {motive : Node → Prop} (s : Scope) :
    (∀ n ∈ d.nodes, motive n) ↔ ∀ x ∈ d.tree.settings s, motive x.entry.node := by
  rw [nodes, w.entries_eq, ← RootedTree.entries_settings s]
  simp

theorem qualified_iff_settings : d.Qualified ↔
    (∀ x ∈ d.tree.settings (d.scopeAt 0), x.entry.node.Qualified x.inside) ∧
      (∀ x ∈ d.tree.settings (d.scopeAt 0), x.entry.node.Unreserved) ∧ d.inherited.Unreserved := by
  rw [← w.forall_nodes_iff]
  constructor
  · intro h
    refine ⟨fun x hx => ?_, h.unreserved, h.inherited⟩
    obtain ⟨p, hp, rfl⟩ := w.exists_position hx
    rw [node_settingAt hp]
    exact h.node hp
  · rintro ⟨hnodes, hunreserved, hinherited⟩
    refine ⟨fun {p} hp => ?_, hunreserved, hinherited⟩
    have := hnodes _ (w.settingAt_mem hp)
    rwa [node_settingAt hp] at this

/-- The names of a document are led to their namespaces position by position when those of its trees
are. -/
theorem qualified_iff : d.Qualified ↔ QualifiedAll (d.scopeAt 0) d.trees ∧
    (∀ n ∈ d.nodes, n.Unreserved) ∧ d.inherited.Unreserved := by
  rw [w.qualified_iff_settings, trees, w.forest_nodes, Branch.qualifiedAll_iff,
    w.forall_nodes_iff (d.scopeAt 0)]
  refine and_congr_left fun _ => ?_
  rw [RootedTree.settings, List.forall_mem_cons, List.forall_mem_append, List.forall_mem_singleton]
  exact ⟨fun h => h.2.1, fun h => ⟨trivial, h, trivial⟩⟩

end WellFormed

namespace Qualified
variable (h : d.Qualified) (w : d.WellFormed)
include h w

theorem get?_scopeAt {p : Nat} (hp : p < d.length) {mark : String} (hm : mark ∈ reservedMarks) :
    (d.scopeAt p).get? mark = Scope.base.get? mark := by
  have hroot : (d.scopeAt 0).get? mark = Scope.base.get? mark := by
    rw [w.scopeAt_root, Scope.get?_override, h.inherited mark hm, Option.none_or]
  have hentries : ∀ e ∈ entriesAll d.tree.children, e.node.Unreserved := by
    intro e he
    refine h.unreserved _ (List.mem_map_of_mem ?_)
    rw [w.entries_eq, RootedTree.entries]
    simp [he]
  have hx := w.settingAt_mem hp
  rw [RootedTree.settings, List.mem_cons, List.mem_append, List.mem_singleton] at hx
  have hinside : (d.settingAt p).inside.get? mark = (d.scopeAt 0).get? mark := by
    rcases hx with hx | hx | hx
    · rw [hx]
    · exact Branch.get?_settingsAll hm _ hentries _ hx
    · rw [hx]
  exact hinside.trans hroot

end Qualified

/-- The trees of a copy of what stands at a position. -/
def treesAt (d : Document) (position : Nat) : List Tree :=
  match d.node position with
  | .document => d.trees
  | .attribute _ value => [.text value]
  | _ => Tree.forest (d.extent position)

theorem extract_eq {q : Nat} {n : Handle} (hn : d.locate? n = some q) :
    d.extract n = match d.node q with
      | .document => .ok ⟨d.slice 1 (d.last q), d.inherited⟩
      | .attribute _ value => .ok (.ofText value)
      | .finish => .error (.invalidKind .extract .finish)
      | _ => .ok ⟨d.extent q, match d.parent? q with
        | some parent => (d.scopeAt parent).without .base
        | none => d.inherited⟩ := by
  simp only [Document.extract, locate, hn, bind, Except.bind]
  cases d.node q <;> rfl

/-- What stands in a document is cut out as a tree, with the bindings in scope around it. -/
theorem WellFormed.extract_of_stands (w : d.WellFormed) {b : Branch} {before after : List Entry}
    (hs : Stands b d.tree.children before after) {n : Handle}
    (hn : d.locate? n = some (before.length + 1)) :
    d.extract n = .ok ⟨listingAll [b.erase], match d.parent? (before.length + 1) with
      | some parent => (d.scopeAt parent).without .base
      | none => d.inherited⟩ ∧ d.treesAt (before.length + 1) = [b.erase] := by
  obtain ⟨head, rest, hb, hchild, hdocument⟩ := b.entries_head
  have hnode := w.node_of_stands hs hb
  have hextract := extract_eq hn
  rw [hnode, w.extent_of_stands hs] at hextract
  cases head with
  | document => exact absurd rfl hdocument
  | «attribute» | finish => cases hchild
  | _ =>
    refine ⟨hextract, ?_⟩
    rw [treesAt, hnode, w.extent_of_stands hs]
    exact Tree.forest_listingAll _

namespace Qualified
variable (h : d.Qualified) (w : d.WellFormed)
include h w

omit h w in
/-- The bindings that a fragment is cut out under lead names where the place did that it had. -/
private theorem covers_without (s : Scope) (nodes : List Node) :
    s.Covers (Scope.base.override (s.without .base)) nodes := by
  have hkept {mark space : String} (hg : s.get? mark = some space) :
      (Scope.base.override (s.without .base)).get? mark = some space := by
    rw [Scope.get?_override]
    by_cases hb : Scope.base.get? mark = some space
    · have hno : (s.without .base).get? mark = none := by
        refine Option.eq_none_iff_forall_ne_some.mpr fun other ho => ?_
        obtain ⟨hother, hne⟩ := Scope.get?_without.mp ho
        rw [hg] at hother
        cases hother
        exact hne hb
      rw [hno, hb]
      rfl
    · rw [Scope.get?_without.mpr ⟨hg, hb⟩]
      rfl
  refine ⟨fun _ hg _ => hkept hg, fun hg _ => ?_⟩
  cases hs : s.get? "" with
  | some space =>
    rw [hs] at hg
    rw [hkept hs]
    exact hg
  | none =>
    have hno : (s.without .base).get? "" = none := by
      refine Option.eq_none_iff_forall_ne_some.mpr fun other ho => ?_
      rw [(Scope.get?_without.mp ho).1] at hs
      cases hs
    rw [Scope.get?_override, hno]
    rfl

/-- What is cut out of its place is qualified under the bindings it takes along. -/
private theorem extract_of_stands {b : Branch} {before after : List Entry} {n : Handle}
    (hs : Stands b d.tree.children before after) (hn : d.locate? n = some (before.length + 1)) :
    ∃ f, d.extract n = .ok f ∧ f.Complete ∧ f.Qualified ∧
      f.trees = d.treesAt (before.length + 1) := by
  have hqualified := w.of_stands hs Tree.hereditary_qualifiedAll (w.qualified_iff.mp h).1
  obtain ⟨hextract, htrees⟩ := w.extract_of_stands hs hn
  have hlt := w.lt_of_stands hs
  have hunreserved : ∀ m ∈ listingAll [b.erase], m.Unreserved := by
    rw [← w.extent_of_stands hs]
    exact fun m hm => h.unreserved m (List.mem_of_mem_take (List.mem_of_mem_drop hm))
  have hscope : ∃ scope, d.extract n = .ok ⟨listingAll [b.erase], scope⟩ ∧ scope.Unreserved ∧
      (d.scopeAt ((d.parent? (before.length + 1)).getD 0)).Covers
        (Scope.base.override scope) (listingAll [b.erase]) := by
    cases hparent : d.parent? (before.length + 1) with
    | none =>
      rw [hparent] at hextract
      refine ⟨_, hextract, h.inherited, Scope.covers_of_get? (fun mark => ?_) _⟩
      rw [Option.getD_none, w.scopeAt_root]
    | some parent =>
      rw [hparent] at hextract
      have hplt : parent < d.length := by
        have := ((w.parent_iff hlt).mp hparent).1.1
        omega
      refine ⟨_, hextract, fun mark hm => ?_, covers_without _ _⟩
      refine Option.eq_none_iff_forall_ne_some.mpr fun space hspace => ?_
      obtain ⟨hget, hne⟩ := Scope.get?_without.mp hspace
      rw [← h.get?_scopeAt w hplt hm] at hne
      exact hne hget
  obtain ⟨scope, hextract, hreserved, hcovers⟩ := hscope
  have hforest : Fragment.trees ⟨listingAll [b.erase], scope⟩ = [b.erase] :=
    Tree.forest_listingAll _
  refine ⟨_, hextract, ⟨_, rfl⟩, ⟨?_, hunreserved, hreserved⟩, hforest.trans htrees.symm⟩
  rw [hforest]
  exact hqualified.mono _ hcovers

/-- What is taken out of a qualified document is qualified. -/
theorem extract {q : Nat} {n : Handle} (hn : d.locate? n = some q) (hq : d.node q ≠ .finish) :
    ∃ f, d.extract n = .ok f ∧ f.Complete ∧ f.Qualified ∧ f.trees = d.treesAt q := by
  have hfound := w.found hn
  have hextract := extract_eq hn
  cases hfound with
  | root _ =>
    rw [w.node_of_root] at hextract
    have htrees : Fragment.trees ⟨d.slice 1 (d.last 0), d.inherited⟩ = d.trees := by
      rw [Fragment.trees, w.slice_content, Tree.forest_listingAll, trees, w.forest_nodes]
    obtain ⟨hqualified, hunreserved, hinherited⟩ := w.qualified_iff.mp h
    refine ⟨_, hextract, ⟨_, w.slice_content⟩, ⟨?_, fun m hm => ?_, hinherited⟩, ?_⟩
    · rw [htrees, ← w.scopeAt_root]
      exact hqualified
    · exact hunreserved m (List.mem_of_mem_take (List.mem_of_mem_drop hm))
    · rw [htrees, treesAt, w.node_of_root]
  | element hs => exact h.extract_of_stands w hs hn
  | leaf hs => exact h.extract_of_stands w hs hn
  | «attribute» hs =>
    rw [w.node_of_attribute hs] at hextract
    refine ⟨_, hextract, Fragment.complete_ofText _, ⟨⟨trivial, trivial⟩, ?_, fun _ _ => rfl⟩, ?_⟩
    · simp [Fragment.ofText, Node.Unreserved]
    · rw [treesAt, w.node_of_attribute hs]
      rfl
  | finish hs => exact absurd (w.node_of_finish hs) hq

end Qualified

end Document

namespace Fragment

/-- Placed trees keep their names, and no prefix is declared that must not be. -/
theorem Qualified.treesUnder {f : Fragment} (h : f.Qualified) (hf : f.Complete) {target : Scope}
    (hxml : target.get? "xml" = some xmlNamespace) :
    QualifiedAll target (f.treesUnder target) ∧
      ∀ n ∈ listingAll (f.treesUnder target), n.Unreserved := by
  refine ⟨Tree.qualifiedAll_placed hxml h.trees, fun n hn => ?_⟩
  rcases Tree.mem_listingAll_placed hn with hn | ⟨mark, space, rfl, hspace⟩
  · rw [← hf.nodes_eq] at hn
    exact h.unreserved n hn
  · intro other ho hm
    rw [Name.declares?_declaring] at ho
    cases ho
    rcases hspace with hget | ⟨rfl, -⟩
    · rw [h.scope _ hm] at hget
      cases hget
    · exact absurd hm (by decide)

end Fragment

/-- A tree that may have taken declarations in front of the attributes of its outermost element, none
of them twice and none that the element has itself. -/
def Tree.GraftedAs (t u : Tree) : Prop :=
  ∃ declarations : List (Name × String),
    (∀ a ∈ declarations, a.1.declares?.isSome) ∧ (Tree.declaredMarks declarations).Nodup ∧
      (∀ name attributes children, t = .element name attributes children →
        (Tree.declaredMarks declarations).Disjoint (Tree.declaredMarks attributes)) ∧
      u = t.withDeclarations declarations

theorem graftedAs_placed (scope target : Scope) (t : Tree) :
    t.GraftedAs (t.placed scope target) := by
  refine ⟨t.declared scope target, fun _ h => Placement.declares?_of_mem_declared scope target h,
    ?_, ?_, rfl⟩
  · cases t with
    | element => exact Tree.nodup_declared
    | _ => exact List.nodup_nil
  · rintro name attributes children rfl mark hm ho
    obtain ⟨b, hb, hd⟩ := List.mem_filterMap.mp hm
    obtain ⟨other, space, rfl, hother, -⟩ := Tree.exists_of_mem_declared hb
    rw [Name.declares?_declaring] at hd
    cases hd
    exact hother ho

theorem Fragment.graftedAs_treesUnder (f : Fragment) (target : Scope) :
    List.Forall₂ Tree.GraftedAs f.trees (f.treesUnder target) := by
  rw [Fragment.treesUnder, List.forall₂_map_right_iff]
  exact List.forall₂_same.mpr fun t _ => graftedAs_placed _ _ t

/-! Edits -/

namespace RootedTree

/-- What stands in a rewritten document stood there before, or comes from a rewritten branch and
stands where that one does. -/
private theorem mem_settings_rewrite {t : RootedTree} {r : Rewriting}
    (hr : ∀ a, r.inAttribute a = [a]) {target : Nat} {s : Scope} {x : Setting}
    (h : x ∈ (t.rewrite target r).settings s) : x ∈ t.settings s ∨
      ∃ c around, c.ident = target ∧ Branch.settings around c ⊆ t.settings s ∧
        x ∈ settingsAll around (r.inBranch c) := by
  rw [settings, List.mem_cons, List.mem_append] at h
  rw [settings, List.mem_cons, List.mem_append]
  rcases h with h | h | h
  · exact .inl (.inl h)
  · rcases Branch.mem_settingsAll_rewriteAll hr s _ h with h | ⟨c, around, hc, hsub, h⟩
    · exact .inl (.inr (.inl h))
    · refine .inr ⟨c, around, hc, fun y hy => ?_, h⟩
      exact List.mem_cons_of_mem _ (List.mem_append_left _ (hsub hy))
  · exact .inl (.inr (.inr h))

/-- New children stand in the scope inside their element. -/
private theorem mem_settings_withChildren {around : Scope} {c : Branch} {children : List Branch}
    {x : Setting} (h : x ∈ settingsAll around [c.withChildren children]) :
    x ∈ Branch.settings around c ∨ x ∈ settingsAll (c.inner around) children := by
  cases c with
  | element ident name attributes old finish =>
    simp only [Branch.withChildren, settingsAll, Branch.settings, List.append_nil, List.mem_cons,
      List.mem_append] at h
    simp only [Branch.settings, Branch.inner, List.mem_cons, List.mem_append]
    tauto
  | leaf => exact .inl (by simpa [Branch.withChildren, settingsAll] using h)

end RootedTree

namespace Document
variable {d : Document}

/-- After a graft each node stands in the scope in which it stood, or comes from the graft and stands
in the scope of its host. -/
private theorem WellFormed.mem_settings_edit (w : d.WellFormed) {e : Edit Fragment} {f : Fragment}
    (hf : e.content? = some f) {p : Nat} (hp : d.locate? e.target = some p) (us : List Tree)
    {x : Setting}
    (h : x ∈ (d.tree.edit d.nextIdent (e.map fun _ => us)).settings (d.scopeAt 0)) :
    x ∈ d.tree.settings (d.scopeAt 0) ∨
      x ∈ settingsAll (d.scopeAt (e.host d p)) (Branch.numberAll d.nextIdent us) := by
  obtain ⟨-, entry, hentry, htarget⟩ := (locate?_eq_some_iff w.nodup).mp hp
  have hlt : p < d.length := (List.getElem?_eq_some_iff.mp hentry).1
  have hself := w.settingAt_mem hlt
  have hident : (d.settingAt p).entry.ident = e.target.ident := by
    simp [settingAt, hentry, htarget]
  -- Where a branch of the target's identity stands, the target stands.
  have same {c : Branch} {around : Scope} (hc : c.ident = e.target.ident)
      (hsub : settings around c ⊆ d.tree.settings (d.scopeAt 0)) :
      d.scopeAt ((d.parent? p).getD 0) = around ∧ d.scopeAt p = c.inner around := by
    obtain ⟨node, -, hown⟩ := Branch.exists_setting around c
    have := w.eq_of_mem_settings hself (hsub hown) (hident.trans hc.symm)
    exact ⟨congrArg Setting.around this, congrArg Setting.inside this⟩
  cases e with
  | replaceChildren target g =>
    have hhost : (Edit.replaceChildren target g).host d p = p := rfl
    rw [Edit.map, RootedTree.edit, RootedTree.replaceChildren] at h
    split at h
    · rename_i hroot
      have hdocument : ⟨⟨.document, d.tree.ident⟩, d.scopeAt 0, d.scopeAt 0⟩ ∈
          d.tree.settings (d.scopeAt 0) := List.mem_cons_self
      have hscope := congrArg Setting.inside
        (w.eq_of_mem_settings hself hdocument (hident.trans hroot.symm))
      rw [RootedTree.settings, List.mem_cons, List.mem_append] at h
      rw [RootedTree.settings, List.mem_cons, List.mem_append]
      rcases h with h | h | h
      · exact .inl (.inl h)
      · exact .inr (by rw [hhost, show d.scopeAt p = d.scopeAt 0 from hscope]; exact h)
      · exact .inl (.inr (.inr h))
    · rcases RootedTree.mem_settings_rewrite (fun _ => rfl) h with h | ⟨c, around, hc, hsub, h⟩
      · exact .inl h
      · rcases RootedTree.mem_settings_withChildren h with h | h
        · exact .inl (hsub h)
        · exact .inr (by rw [hhost, (same hc hsub).2]; exact h)
  | insertBefore target g =>
    rcases RootedTree.mem_settings_rewrite (fun _ => rfl) h with h | ⟨c, around, hc, hsub, h⟩
    · exact .inl h
    · rw [Branch.settingsAll_append, List.mem_append] at h
      rcases h with h | h
      · exact .inr (by rw [Edit.host, (same hc hsub).1]; exact h)
      · exact .inl (hsub (by simpa [settingsAll] using h))
  | insertAfter target g =>
    rcases RootedTree.mem_settings_rewrite (fun _ => rfl) h with h | ⟨c, around, hc, hsub, h⟩
    · exact .inl h
    · rw [settingsAll, List.mem_append] at h
      rcases h with h | h
      · exact .inl (hsub h)
      · exact .inr (by rw [Edit.host, (same hc hsub).1]; exact h)
  | setText => cases hf
  | remove => cases hf

private theorem map_of_content {α β : Type} {e : Edit α} {a : α} (h : e.content? = some a)
    (g : α → β) : e.map g = e.map fun _ => g a := by
  cases e with
  | setText | remove => cases h
  | _ => cases h; rfl

/-- The trees of a graft have the nodes they had, under identities of their own. -/
private theorem of_mem_settings_numberAll {s : Scope} {next : Nat} {us : List Tree} {x : Setting}
    (h : x ∈ settingsAll s (Branch.numberAll next us)) :
    x.entry.node ∈ listingAll us ∧ next ≤ x.entry.ident := by
  have he : x.entry ∈ identify next (listingAll us) := by
    rw [← Branch.entries_numberAll, ← Branch.entries_settingsAll s]
    exact List.mem_map_of_mem h
  constructor
  · rw [← nodes_identify next (listingAll us)]
    exact List.mem_map_of_mem he
  · have hi := List.mem_map_of_mem (f := Entry.ident) he
    rw [idents_identify, List.mem_range'_1] at hi
    exact hi.1

/-- New content comes into a container of the document. -/
private theorem WellFormed.host_lt (w : d.WellFormed) (e : Edit Fragment) {p : Nat}
    (hp : p < d.length) : e.host d p < d.length := by
  have hparent : (d.parent? p).getD 0 < d.length := by
    cases h : d.parent? p with
    | none => exact Nat.lt_of_le_of_lt (Nat.zero_le p) hp
    | some parent => exact Nat.lt_trans ((w.parent_iff hp).mp h).1.1 hp
  cases e with
  | insertBefore | insertAfter => exact hparent
  | _ => exact hp

/-- What a graft makes of a qualified document is qualified, and the nodes that were there stand in
the scopes they stood in. -/
private theorem Qualified.edited (h : d.Qualified) (w : d.WellFormed) {e : Edit Fragment}
    {f : Fragment} (hf : e.content? = some f) (hcomplete : f.Complete) (hq : f.Qualified) {p : Nat}
    (hp : d.locate? e.target = some p) (hs : e.supports (d.node p)) :
    (d.edited e p).WellFormed ∧ (d.edited e p).Qualified ∧
      (d.edited e p).tree =
        d.tree.edit d.nextIdent (e.map fun _ => f.treesUnder (d.scopeAt (e.host d p))) ∧
      ∀ k q q', d.locate? k = some q → (d.edited e p).locate? k = some q' →
        (d.edited e p).node q' = d.node q ∧ (d.edited e p).scopeAt q' = d.scopeAt q := by
  have hcontent : ∀ g ∈ e.content?, g.Complete := by
    intro g hg
    rw [hf] at hg
    cases hg
    exact hcomplete
  obtain ⟨w', htree⟩ := w.edited hcontent hp hs
  rw [map_of_content hf] at htree
  obtain ⟨-, -, hinherited⟩ := d.edited_kept e p
  have hroot : (d.edited e p).scopeAt 0 = d.scopeAt 0 := by
    rw [w'.scopeAt_root, hinherited, w.scopeAt_root]
  have hhost : e.host d p < d.length := by
    obtain ⟨-, entry, hentry, -⟩ := (locate?_eq_some_iff w.nodup).mp hp
    exact w.host_lt e (List.getElem?_eq_some_iff.mp hentry).1
  have hxml : (d.scopeAt (e.host d p)).get? "xml" = some xmlNamespace := by
    rw [h.get?_scopeAt w hhost (by decide), Scope.get?_base]
    rfl
  obtain ⟨hqualified, hunreserved⟩ := hq.treesUnder hcomplete hxml
  rw [← Branch.eraseAll_numberAll d.nextIdent (f.treesUnder _), Branch.qualifiedAll_iff]
    at hqualified
  -- A node of the result was there before, or is one of the graft.
  have hsettings : ∀ x ∈ (d.edited e p).tree.settings ((d.edited e p).scopeAt 0),
      x ∈ d.tree.settings (d.scopeAt 0) ∨ x ∈ settingsAll (d.scopeAt (e.host d p))
        (Branch.numberAll d.nextIdent (f.treesUnder (d.scopeAt (e.host d p)))) := by
    intro x hx
    rw [htree, hroot] at hx
    exact w.mem_settings_edit hf hp _ hx
  obtain ⟨hnodes, hnodes', hreserved⟩ := w.qualified_iff_settings.mp h
  refine ⟨w', w'.qualified_iff_settings.mpr ⟨fun x hx => ?_, fun x hx => ?_, ?_⟩, htree,
    fun k q q' hk hk' => ?_⟩
  · exact (hsettings x hx).elim (hnodes x) (hqualified x)
  · exact (hsettings x hx).elim (hnodes' x) fun hx =>
      hunreserved _ (of_mem_settings_numberAll hx).1
  · rwa [hinherited]
  · obtain ⟨-, entry, hentry, hident⟩ := (locate?_eq_some_iff w.nodup).mp hk
    obtain ⟨-, entry', hentry', hident'⟩ := (locate?_eq_some_iff w'.nodup).mp hk'
    have hq : q < d.length := (List.getElem?_eq_some_iff.mp hentry).1
    have hq' : q' < (d.edited e p).length := (List.getElem?_eq_some_iff.mp hentry').1
    have hat : (d.settingAt q).entry = entry := by simp [settingAt, hentry]
    have hat' : ((d.edited e p).settingAt q').entry = entry' := by simp [settingAt, hentry']
    rcases hsettings _ (w'.settingAt_mem hq') with hx | hx
    · have hsame := w.eq_of_mem_settings hx (w.settingAt_mem hq)
        (by rw [hat, hat', hident, hident'])
      refine ⟨?_, congrArg Setting.inside hsame⟩
      rw [← node_settingAt hq', hsame, node_settingAt hq]
    · have hlt := w.ident_lt (List.mem_of_getElem? hentry)
      have hge := (of_mem_settings_numberAll hx).2
      rw [hat', hident', ← hident] at hge
      omega

/-- A document is written with what its outermost elements declare of the bindings it inherits. -/
theorem WellFormed.markup_eq (w : d.WellFormed) :
    d.markup = Tree.writeAll d.mode false .base (d.contents.treesUnder .base) := by
  have htrees : d.contents.treesUnder .base = d.trees.map (Tree.placed d.inherited .base) := by
    rw [Fragment.treesUnder, w.trees_contents]
    rfl
  rw [markup, htrees]
  split
  · rename_i hempty
    rw [List.map_id'' (Tree.placed_of_isEmpty hempty)]
  · rw [w.complete_contents.placedUnder_eq, Tree.forest_listingAll, w.trees_contents]
    rfl

/-- A document of a qualified fragment is qualified. -/
private theorem qualified_ofFragment {id : Nat} {mode : Markup.Mode} {f : Fragment}
    (hf : f.Complete) (hq : f.Qualified) {copy : Document}
    (hcopy : copy = { ofFragment id f with mode := mode }) :
    copy.Qualified ∧ copy.trees = f.trees ∧
      copy.markup = Tree.writeAll mode false .base (f.treesUnder .base) := by
  have w : copy.WellFormed := by
    rw [hcopy]
    exact (wellFormed_ofFragment id hf).congr rfl rfl
  have hnodes : copy.nodes = .document :: (f.nodes ++ [.finish]) := by
    rw [hcopy]
    exact nodes_ofNodes id .xml _
  have hinherited : copy.inherited = f.scope := by rw [hcopy]; rfl
  have htrees : copy.trees = f.trees := by
    rw [trees, hnodes, hf.nodes_eq, Tree.forest_document]
  refine ⟨w.qualified_iff.mpr ⟨?_, ?_, ?_⟩, htrees, ?_⟩
  · rw [w.scopeAt_root, hinherited, htrees]
    exact hq.trees
  · rw [hnodes, List.forall_mem_cons, List.forall_mem_append, List.forall_mem_singleton]
    exact ⟨trivial, hq.unreserved, trivial⟩
  · rw [hinherited]
    exact hq.scope
  · have hscope : copy.contents.scope = f.scope := hinherited
    have hmode : copy.mode = mode := by rw [hcopy]
    rw [w.markup_eq, Fragment.treesUnder, w.trees_contents, htrees, hscope, hmode,
      Fragment.treesUnder]

/-- Copies of the nodes of a qualified document can be put into another, which stays qualified: they
keep their names, no element takes a declaration twice, and all other nodes stand in the scopes they
stood in. A copy on its own is written with what its outermost elements declare. -/
theorem graft_qualified {source target : Document} (ws : source.WellFormed)
    (wt : target.WellFormed) (hs : source.Qualified) (ht : target.Qualified) {n : Handle} {q : Nat}
    (hn : source.locate? n = some q) (hq : source.node q ≠ .finish) :
    ∃ f, source.extract n = .ok f ∧ f.trees = source.treesAt q ∧
      (∀ (e : Edit Fragment) (p : Nat), e.content? = some f → target.locate? e.target = some p →
        e.supports (target.node p) →
          ∃ target' us, target.edit e = .ok target' ∧ target'.WellFormed ∧ target'.Qualified ∧
            List.Forall₂ Tree.GraftedAs (source.treesAt q) us ∧
            target'.tree = target.tree.edit target.nextIdent (e.map fun _ => us) ∧
            ∀ k r r', target.locate? k = some r → target'.locate? k = some r' →
              target'.node r' = target.node r ∧ target'.scopeAt r' = target.scopeAt r) ∧
      ∀ id, ∃ copy us, source.copySubtree id n = .ok copy ∧ copy.Qualified ∧
        copy.trees = source.treesAt q ∧
        List.Forall₂ Tree.GraftedAs (source.treesAt q) us ∧ QualifiedAll .base us ∧
        copy.toBytes = Text.encode (Tree.writeAll source.mode false .base us) := by
  obtain ⟨f, hf, hcomplete, hqualified, htrees⟩ := hs.extract ws hn hq
  rw [← htrees]
  refine ⟨f, hf, rfl, fun e p hcontent hp hsupports => ?_, fun id => ?_⟩
  · obtain ⟨w', hq', htree, hkept⟩ := ht.edited wt hcontent hcomplete hqualified hp hsupports
    exact ⟨_, _, (edit_eq_ok_iff _).mpr ⟨p, hp, hsupports, rfl⟩, w', hq',
      f.graftedAs_treesUnder _, htree, hkept⟩
  · have hcopy : source.copySubtree id n = .ok { ofFragment id f with mode := source.mode } := by
      rw [copySubtree, hf]
      rfl
    obtain ⟨hq', htrees', hmarkup⟩ :=
      @qualified_ofFragment id source.mode f hcomplete hqualified _ rfl
    refine ⟨_, f.treesUnder .base, hcopy, hq', htrees', f.graftedAs_treesUnder _,
      (hqualified.treesUnder hcomplete (Scope.get?_base "xml")).1, ?_⟩
    rw [toBytes, hmarkup]

/-- A document of the given trees. -/
def ofTrees (id : Nat) (ts : List Tree) : Document :=
  ofNodes id .xml (.document :: (listingAll ts ++ [.finish]))

theorem qualified_ofTrees {id : Nat} {ts : List Tree} (h : QualifiedAll .base ts)
    (hn : ∀ n ∈ listingAll ts, n.Unreserved) : (ofTrees id ts).WellFormed ∧ (ofTrees id ts).Qualified := by
  have w : (ofTrees id ts).WellFormed := wellFormed_ofNodes id .xml ts
  have htrees : (ofTrees id ts).trees = ts := by
    rw [ofTrees, trees, nodes_ofNodes, Tree.forest_document]
  refine ⟨w, w.qualified_iff.mpr ⟨?_, ?_, fun _ _ => rfl⟩⟩
  · rw [w.scopeAt_root, htrees]
    exact h
  · rw [ofTrees, nodes_ofNodes, List.forall_mem_cons, List.forall_mem_append,
      List.forall_mem_singleton]
    exact ⟨trivial, hn, trivial⟩

/-- An element that uses the prefix its parent declares. -/
def prefixed : Document :=
  ofTrees 0 [.element ⟨"urn:a", "b"⟩ [(⟨"xmlns", "p"⟩, "urn:a"), (⟨"urn:a", "k"⟩, "1")]
    [.element ⟨"urn:a", "c"⟩ [] []]]

/-- An element that declares another namespace for the same prefix, and a default namespace. -/
def redeclaring : Document :=
  ofTrees 1 [.element ⟨"urn:d", "t"⟩ [(⟨"", "xmlns"⟩, "urn:d"), (⟨"xmlns", "p"⟩, "urn:o")] []]

theorem graft_qualified_redeclaring :
    ∃ f target' us, prefixed.extract ⟨0, 4⟩ = .ok f ∧
      redeclaring.edit (.replaceChildren ⟨1, 1⟩ f) = .ok target' ∧ target'.Qualified ∧
        List.Forall₂ Tree.GraftedAs [.element ⟨"urn:a", "c"⟩ [] []] us := by
  obtain ⟨ws, hs⟩ : prefixed.WellFormed ∧ prefixed.Qualified := by
    refine qualified_ofTrees ⟨⟨⟨"p", rfl⟩, ?_, ⟨⟨"p", rfl⟩, by simp [Tree.AttributesQualified],
      trivial⟩, trivial⟩, trivial⟩ ?_
    · refine List.forall_mem_cons.mpr ⟨fun hd => ?_, List.forall_mem_singleton.mpr fun _ => ?_⟩
      · cases hd
      · exact .inr ⟨"p", by decide, rfl⟩
    · simp [listingAll, Tree.listing, Tree.attributeNodes, Node.Unreserved, Name.declares?,
        reservedMarks]
  obtain ⟨wt, ht⟩ : redeclaring.WellFormed ∧ redeclaring.Qualified := by
    refine qualified_ofTrees ⟨⟨⟨"", rfl⟩, ?_, trivial⟩, trivial⟩ ?_
    · refine List.forall_mem_cons.mpr ⟨fun hd => ?_, List.forall_mem_singleton.mpr fun hd => ?_⟩
      · cases hd
      · cases hd
    · simp [listingAll, Tree.listing, Tree.attributeNodes, Node.Unreserved, Name.declares?,
        reservedMarks]
  obtain ⟨f, hf, -, hgraft, -⟩ := @graft_qualified _ _ ws wt hs ht ⟨0, 4⟩ 4 rfl (by decide)
  obtain ⟨target', us, hedit, -, hq, hus, -⟩ :=
    hgraft (.replaceChildren ⟨1, 1⟩ f) 1 rfl rfl rfl
  exact ⟨f, target', us, hf, hedit, hq, hus⟩

end Document
end MarkupGraft
