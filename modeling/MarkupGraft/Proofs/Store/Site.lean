import MarkupGraft.Proofs.Store.Surroundings
import MarkupGraft.Proofs.Store.Writing

/-!
Trees with a place left open for others. An edit leaves all trees as they are but those at one place,
so what holds of the old trees, and of the new ones at the place, holds of the result.
-/

namespace MarkupGraft

namespace Tree
open Markup (Mode)

/-- Trees with a place left open, at the top or inside an element. -/
inductive Site where
  | here (before after : List Tree)
  | inside (before : List Tree) (name : Name) (attributes : List (Name × String)) (site : Site)
      (after : List Tree)

namespace Site

def fill (trees : List Tree) : Site → List Tree
  | .here before after => before ++ (trees ++ after)
  | .inside before name attributes site after =>
    before ++ .element name attributes (site.fill trees) :: after

/-- The scope at the place, where `s` is in scope around it all. -/
def scope (s : Scope) : Site → Scope
  | .here _ _ => s
  | .inside _ _ attributes site _ => site.scope (declare s attributes)

/-- A site at the place of another. -/
def within : Site → Site → Site
  | .here before after, .here l r => .here (before ++ l) (r ++ after)
  | .here before after, .inside l name attributes site r =>
    .inside (before ++ l) name attributes site (r ++ after)
  | .inside before name attributes site after, inner =>
    .inside before name attributes (site.within inner) after

@[simp] theorem fill_within (outer inner : Site) (trees : List Tree) :
    (outer.within inner).fill trees = outer.fill (inner.fill trees) := by
  induction outer with
  | here before after => cases inner <;> simp [within, fill]
  | inside before name attributes site after ih => simp [within, fill, ih]

@[simp] theorem scope_within (outer inner : Site) (s : Scope) :
    (outer.within inner).scope s = inner.scope (outer.scope s) := by
  induction outer generalizing s with
  | here before after => cases inner <;> rfl
  | inside before name attributes site after ih => exact ih _

end Site

/-- A property of trees that stand where a scope holds, which is about one part after another: about
the trees of a run, and about an element and its children. -/
structure Hereditary (P : Scope → List Tree → Prop) : Prop where
  append {s : Scope} {ts us : List Tree} : P s (ts ++ us) ↔ P s ts ∧ P s us
  children {s : Scope} {name : Name} {attributes : List (Name × String)} {children : List Tree}
    (h : P s [.element name attributes children]) : P (declare s attributes) children
  element {s : Scope} {name : Name} {attributes : List (Name × String)} {children others : List Tree}
    (h : P s [.element name attributes children]) (ho : P (declare s attributes) others) :
    P s [.element name attributes others]

namespace Hereditary
variable {P : Scope → List Tree → Prop}

/-- What is told of each element by its name and its attributes is hereditary. -/
theorem of_local {Q : Scope → Name → List (Name × String) → Prop} (hnil : ∀ s, P s [])
    (hcons : ∀ s t ts, P s (t :: ts) ↔ P s [t] ∧ P s ts)
    (helement : ∀ s name attributes children, P s [.element name attributes children] ↔
      Q s name attributes ∧ P (declare s attributes) children) : Hereditary P := by
  constructor
  · intro s ts us
    induction ts with
    | nil => simp [hnil]
    | cons t ts ih => rw [List.cons_append, hcons, ih, hcons s t ts, and_assoc]
  · intro s name attributes children h
    exact ((helement s name attributes children).mp h).2
  · intro s name attributes children others h ho
    exact (helement s name attributes others).mpr ⟨((helement s name attributes children).mp h).1, ho⟩

variable (hP : Hereditary P)
include hP

theorem split {s : Scope} {t : Tree} {l r : List Tree} :
    P s (l ++ t :: r) ↔ P s l ∧ P s [t] ∧ P s r := by
  rw [← List.singleton_append, hP.append, hP.append]

/-- What holds of all trees holds of those at the place. -/
theorem of_fill {site : Site} {s : Scope} {ts : List Tree} (h : P s (site.fill ts)) :
    P (site.scope s) ts := by
  induction site generalizing s with
  | here before after =>
    rw [Site.fill, hP.append, hP.append] at h
    exact h.2.1
  | inside before name attributes site after ih =>
    rw [Site.fill, hP.split] at h
    exact ih (hP.children h.2.1)

/-- Other trees can come to the place. -/
theorem fill {site : Site} {s : Scope} {ts us : List Tree} (h : P s (site.fill ts))
    (hu : P (site.scope s) us) : P s (site.fill us) := by
  induction site generalizing s with
  | here before after =>
    rw [Site.fill, hP.append, hP.append] at h ⊢
    exact ⟨h.1, hu, h.2.2⟩
  | inside before name attributes site after ih =>
    rw [Site.fill, hP.split] at h ⊢
    obtain ⟨hbefore, helement, hafter⟩ := h
    exact ⟨hbefore, hP.element helement (ih (hP.children helement) hu), hafter⟩

/-- Where only what may be declared is declared, what is in scope stays sound. -/
theorem sound (hd : ∀ {s : Scope} {name : Name} {attributes : List (Name × String)}
    {children : List Tree}, P s [.element name attributes children] →
      ∀ a ∈ attributes, ∀ mark, a.1.declares? = some mark → Declarable mark a.2) :
    Hereditary fun s ts => s.Sound ∧ P s ts := by
  constructor
  · intro s ts us
    rw [hP.append]
    tauto
  · intro s name attributes children h
    exact ⟨sound_declare h.1 (hd h.2), hP.children h.2⟩
  · intro s name attributes children others h ho
    exact ⟨h.1, hP.element h.2 ho.2⟩

end Hereditary

theorem hereditary_settledAll (mode : Mode) : Hereditary (SettledAll mode) := by
  apply Hereditary.of_local (Q := fun s name attributes =>
    name.Settled (declare s attributes) .element ∧ AttributesSettled mode (declare s attributes) attributes)
  · intro s
    trivial
  · simp [SettledAll]
  · simp [SettledAll, Settled, and_assoc]

theorem hereditary_boundAll : Hereditary BoundAll := by
  apply Hereditary.of_local (Q := fun s name attributes =>
    name.Bound (declare s attributes) .element ∧ AttributesBound (declare s attributes) attributes)
  · intro s
    trivial
  · simp [BoundAll]
  · simp [BoundAll, Bound, and_assoc]

/-- A property of each node that trees list. -/
theorem hereditary_listingAll (p : Node → Prop) :
    Hereditary fun _ ts => ∀ n ∈ listingAll ts, p n := by
  constructor
  · intro s ts us
    rw [listingAll_append, List.forall_mem_append]
  · intro s name attributes children h n hn
    exact h n (by simp [listingAll, listing, hn])
  · intro s name attributes children others h ho
    simp only [listingAll, listing, List.append_nil, List.forall_mem_cons,
      List.forall_mem_append] at h ⊢
    exact ⟨h.1, h.2.1, ho, h.2.2.2⟩

end Tree

namespace Branch
open MarkupGraft.Tree (Site)

theorem eraseAll_append (bs cs : List Branch) :
    eraseAll (bs ++ cs) = eraseAll bs ++ eraseAll cs := by
  induction bs with
  | nil => rfl
  | cons b bs ih => exact congrArg (_ :: ·) ih

/-- Branches with a place left open. Rewriting a node that none of them has is rewriting at the
place. -/
structure Plug (foreign : Nat → Prop) where
  plug : List Branch → List Branch
  site : Site
  erase (bs : List Branch) : eraseAll (plug bs) = site.fill (eraseAll bs)
  settings (s : Scope) (bs : List Branch) : settingsAll (site.scope s) bs ⊆ settingsAll s (plug bs)
  rewrite (r : Rewriting) {target : Nat} (h : foreign target) (bs : List Branch) :
    rewriteAll r target (plug bs) = plug (rewriteAll r target bs)

namespace Plug
variable {foreign : Nat → Prop}

def here : Plug foreign where
  plug bs := bs
  site := .here [] []
  erase bs := by simp [Site.fill]
  settings s bs := List.Subset.refl _
  rewrite _ _ _ _ := rfl

/-- A place between branches. -/
def between (l r : List Branch) (hl : ∀ i, foreign i → i ∉ idents (entriesAll l))
    (hr : ∀ i, foreign i → i ∉ idents (entriesAll r)) : Plug foreign where
  plug bs := l ++ (bs ++ r)
  site := .here (eraseAll l) (eraseAll r)
  erase bs := by simp [Site.fill, eraseAll_append]
  settings s bs x hx := by
    rw [settingsAll_append, settingsAll_append, List.mem_append, List.mem_append]
    exact .inr (.inl hx)
  rewrite rewriting i h bs := by
    rw [rewriteAll_append, rewriteAll_append, rewriteAll_of_not_mem l (hl i h),
      rewriteAll_of_not_mem r (hr i h)]

/-- The place of all children of an element. -/
def content (ident : Nat) (name : Name) (attributes : List OwnedAttribute) (finish : Nat)
    (hi : ∀ i, foreign i → i ≠ ident)
    (ha : ∀ i, foreign i → i ∉ idents (attributes.map OwnedAttribute.entry)) : Plug foreign where
  plug bs := [.element ident name attributes bs finish]
  site := .inside [] name (attributes.map fun a => (a.name, a.value)) (.here [] []) []
  erase bs := by simp [Site.fill, eraseAll, Branch.erase]
  settings s bs x hx := by
    simp only [settingsAll, Branch.settings, List.append_nil, List.mem_cons, List.mem_append]
    exact .inr (.inr (.inl hx))
  rewrite r i h bs := rewriteAll_inside (hi i h) (ha i h)

/-- A place at the place of other branches. -/
def within (outer inner : Plug foreign) : Plug foreign where
  plug bs := outer.plug (inner.plug bs)
  site := outer.site.within inner.site
  erase bs := by rw [outer.erase, inner.erase, Site.fill_within]
  settings s bs := by
    rw [Site.scope_within]
    exact List.Subset.trans (inner.settings _ _) (outer.settings _ _)
  rewrite r i h bs := by rw [outer.rewrite r h, inner.rewrite r h]

def mono {other : Nat → Prop} (p : Plug foreign) (h : ∀ i, other i → foreign i) : Plug other where
  plug := p.plug
  site := p.site
  erase := p.erase
  settings := p.settings
  rewrite r _ ho bs := p.rewrite r (h _ ho) bs

end Plug

/-- A branch that stands somewhere stands at the place of a plug. -/
theorem Stands.exists_plug {b : Branch} {bs : List Branch} {before after : List Entry}
    (h : Stands b bs before after) :
    ∃ p : Plug fun i => i ∉ idents before ∧ i ∉ idents after, bs = p.plug [b] := by
  induction h with
  | here l r => exact ⟨.between l r (fun _ h => h.1) fun _ h => h.2, by simp [Plug.between]⟩
  | @inside l r ident name attributes children finish before after h ih =>
    obtain ⟨p, hp⟩ := ih
    have hsplit {i : Nat} (hi : i ∉ idents (entriesAll l ++ (⟨.element name, ident⟩ ::
        (attributes.map OwnedAttribute.entry ++ before))) ∧
          i ∉ idents (after ++ (⟨.finish, finish⟩ :: entriesAll r))) :
        (i ∉ idents (entriesAll l) ∧ i ≠ ident ∧
          i ∉ idents (attributes.map OwnedAttribute.entry) ∧ i ∉ idents before) ∧
            i ∉ idents after ∧ i ∉ idents (entriesAll r) := by
      simp only [idents_append, idents_cons, List.mem_append, List.mem_cons, not_or] at hi
      exact ⟨hi.1, hi.2.1, hi.2.2.2⟩
    refine ⟨((Plug.between l r ?_ ?_).within (.content ident name attributes finish ?_ ?_)).within
      (p.mono ?_), ?_⟩
    · intro i hi
      exact (hsplit hi).1.1
    · intro i hi
      exact (hsplit hi).2.2
    · intro i hi
      exact (hsplit hi).1.2.1
    · intro i hi
      exact (hsplit hi).1.2.2.1
    · intro i hi
      exact ⟨(hsplit hi).1.2.2.2, (hsplit hi).2.1⟩
    · rw [hp]
      rfl

end Branch

namespace Document
open Branch (Plug Stands idents entriesAll settings settingsAll numberAll)
variable {d : Document}

namespace WellFormed
variable (w : d.WellFormed)
include w

/-- The identities of a document are in use. -/
theorem not_mem_idents {i : Nat} (hi : d.nextIdent ≤ i) {es : List Entry}
    (h : ∀ e ∈ es, e ∈ d.entries) : i ∉ idents es := by
  intro hm
  obtain ⟨e, he, rfl⟩ := List.mem_map.mp hm
  have := w.ident_lt (h e he)
  omega

section
variable {b : Branch} {before after : List Entry} (hs : Stands b d.tree.children before after)
include hs

/-- The scopes around a standing branch and inside it are those found at its position. -/
theorem scopes_of_stands {around : Scope}
    (h : settings around b ⊆ settingsAll (d.scopeAt 0) d.tree.children) :
    around = d.scopeAt ((d.parent? (before.length + 1)).getD 0) ∧
      b.inner around = d.scopeAt (before.length + 1) := by
  obtain ⟨node, -, hself⟩ := Branch.exists_setting around b
  have hident : (d.settingAt (before.length + 1)).entry.ident = b.ident := by
    obtain ⟨head, rest, hb, -⟩ := b.entries_head
    rw [settingAt, w.entries_of_stands hs, hb]
    simp
  have hsame := w.eq_of_mem_settings (w.settingAt_mem (w.lt_of_stands hs))
    (List.mem_cons_of_mem _ (List.mem_append_left _ (h hself))) hident
  exact ⟨(congrArg Setting.around hsame).symm, (congrArg Setting.inside hsame).symm⟩

/-- A standing branch is at the place of a plug, and so are the branches it is rewritten to. -/
theorem exists_plug_of_stands : ∃ plug : Plug fun i => i ∉ idents before ∧ i ∉ idents after,
    d.tree.children = plug.plug [b] ∧
      plug.site.scope (d.scopeAt 0) = d.scopeAt ((d.parent? (before.length + 1)).getD 0) ∧
      b.inner (plug.site.scope (d.scopeAt 0)) = d.scopeAt (before.length + 1) ∧
      ∀ r, ∀ target ∈ idents b.entries,
        Branch.rewriteAll r target d.tree.children = plug.plug (Branch.rewriteAll r target [b]) := by
  obtain ⟨plug, hplug⟩ := hs.exists_plug
  have hsub := plug.settings (d.scopeAt 0) [b]
  rw [← hplug] at hsub
  rw [settingsAll, settingsAll, List.append_nil] at hsub
  obtain ⟨haround, hinside⟩ := w.scopes_of_stands hs hsub
  refine ⟨plug, hplug, haround, hinside, fun r target ht => ?_⟩
  obtain ⟨hb, ha⟩ := RootedTree.not_mem_of_stands hs w.nodup_tree ht
  rw [hplug, plug.rewrite r ⟨hb, ha⟩]

/-- What holds of all trees of a document holds of a standing one in the scope around it. -/
theorem of_stands {P : Scope → List Tree → Prop} (hP : Tree.Hereditary P)
    (h : P (d.scopeAt 0) d.trees) :
    P (d.scopeAt ((d.parent? (before.length + 1)).getD 0)) [b.erase] := by
  obtain ⟨plug, hplug, hscope, -, -⟩ := w.exists_plug_of_stands hs
  rw [trees, w.forest_nodes, hplug, plug.erase] at h
  rw [← hscope]
  exact hP.of_fill h

/-- Nodes that come later are foreign to what stands in the document. -/
theorem foreign_of_stands {i : Nat} (hi : d.nextIdent ≤ i) :
    i ∉ idents before ∧ i ∉ idents b.entries ∧ i ∉ idents after := by
  have hentries := w.entries_of_stands hs
  refine ⟨w.not_mem_idents hi ?_, w.not_mem_idents hi ?_, w.not_mem_idents hi ?_⟩
  all_goals
    intro e he
    rw [hentries]
    simp [he]

end

/-- The place of the children of an element. -/
private theorem exists_plug_content {ident : Nat} {name : Name} {attributes : List OwnedAttribute}
    {children : List Branch} {finish : Nat} {before after : List Entry}
    (hs : Stands (.element ident name attributes children finish) d.tree.children before after) :
    ∃ plug : Plug fun i => d.nextIdent ≤ i,
      (∃ old, d.tree.children = plug.plug old) ∧
      plug.site.scope (d.scopeAt 0) = d.scopeAt (before.length + 1) ∧
      ∀ bs, Branch.rewriteAll { inBranch := fun b => [b.withChildren bs] } ident d.tree.children =
        plug.plug bs := by
  obtain ⟨plug, hplug, -, hscope, hrewrite⟩ := w.exists_plug_of_stands hs
  have hown {i : Nat} (hi : d.nextIdent ≤ i) :
      i ≠ ident ∧ i ∉ idents (attributes.map OwnedAttribute.entry) := by
    have := (w.foreign_of_stands hs hi).2.1
    simp only [Branch.entries, Branch.idents_cons, Branch.idents_append, List.mem_cons,
      List.mem_append, not_or] at this
    exact ⟨this.1, this.2.1⟩
  let outer : Plug fun i => d.nextIdent ≤ i := plug.mono fun i hi =>
    ⟨(w.foreign_of_stands hs hi).1, (w.foreign_of_stands hs hi).2.2⟩
  let inner : Plug fun i => d.nextIdent ≤ i :=
    .content ident name attributes finish (fun i hi => (hown hi).1) fun i hi => (hown hi).2
  refine ⟨outer.within inner, ⟨children, hplug⟩, ?_, fun bs => ?_⟩
  · exact (Tree.Site.scope_within _ _ _).trans hscope
  · refine (hrewrite _ _ (Branch.ident_mem_entries _)).trans ?_
    rw [Branch.rewriteAll, if_pos rfl]
    rfl

/-- A place beside a standing branch, which stands behind it or in front of it. -/
private theorem exists_plug_beside {b : Branch} {before after : List Entry}
    (hs : Stands b d.tree.children before after) {l r : List Branch} (hb : l ++ r = [b]) :
    ∃ plug : Plug fun i => d.nextIdent ≤ i,
      (∃ old, d.tree.children = plug.plug old) ∧
      plug.site.scope (d.scopeAt 0) = d.scopeAt ((d.parent? (before.length + 1)).getD 0) ∧
      ∀ rewriting bs, rewriting.inBranch b = l ++ (bs ++ r) →
        Branch.rewriteAll rewriting b.ident d.tree.children = plug.plug bs := by
  obtain ⟨plug, hplug, hscope, -, hrewrite⟩ := w.exists_plug_of_stands hs
  have hown {i : Nat} (hi : d.nextIdent ≤ i) : i ∉ idents (entriesAll (l ++ r)) := by
    rw [hb, Branch.entriesAll_singleton]
    exact (w.foreign_of_stands hs hi).2.1
  rw [Branch.entriesAll_append, Branch.idents_append] at hown
  let outer : Plug fun i => d.nextIdent ≤ i := plug.mono fun i hi =>
    ⟨(w.foreign_of_stands hs hi).1, (w.foreign_of_stands hs hi).2.2⟩
  let inner : Plug fun i => d.nextIdent ≤ i := .between l r
    (fun i hi hm => hown hi (List.mem_append_left _ hm))
    fun i hi hm => hown hi (List.mem_append_right _ hm)
  refine ⟨outer.within inner, ⟨[], ?_⟩, ?_, fun rewriting bs hbs => ?_⟩
  · rw [hplug, ← hb]
    rfl
  · exact (Tree.Site.scope_within _ _ _).trans hscope
  · rw [hrewrite _ _ (Branch.ident_mem_entries _), Branch.rewriteAll, if_pos rfl, hbs,
      Branch.rewriteAll, List.append_nil]
    rfl

/-- The place that an edit brings trees to. -/
theorem exists_plug {e : Edit Unit} (hc : e.content?.isSome) {p : Nat}
    (hp : d.locate? e.target = some p) (hs : e.supports (d.node p)) :
    ∃ plug : Plug fun i => d.nextIdent ≤ i,
      (∃ old, d.tree.children = plug.plug old) ∧
      plug.site.scope (d.scopeAt 0) = d.scopeAt (e.host d p) ∧
      ∀ next us, (d.tree.edit next (e.map fun _ => us)).children = plug.plug (numberAll next us) := by
  have hfound := w.found hp
  cases e with
  | replaceChildren target content =>
    have hedit (next : Nat) (us : List Tree) :
        d.tree.edit next ((Edit.replaceChildren target content).map fun _ => us) =
          d.tree.replaceChildren target.ident (numberAll next us) := rfl
    cases hfound with
    | root h =>
      refine ⟨.here, ⟨d.tree.children, rfl⟩, rfl, fun next us => ?_⟩
      have hroot : d.tree.ident = target.ident := h
      rw [hedit, RootedTree.replaceChildren, if_pos hroot]
      rfl
    | element h =>
      obtain ⟨plug, hold, hscope, hrewrite⟩ := w.exists_plug_content h
      have hroot : d.tree.ident ≠ target.ident :=
        RootedTree.ident_ne_of_stands h w.nodup_tree (Branch.ident_mem_entries _)
      refine ⟨plug, hold, hscope, fun next us => ?_⟩
      rw [hedit, RootedTree.replaceChildren, if_neg hroot]
      exact hrewrite _
    | «attribute» h => simp [Edit.supports, w.node_of_attribute h, Node.isContainer] at hs
    | @leaf kind _ _ _ h =>
      cases kind <;>
        simp [Edit.supports, w.node_of_leaf h, LeafKind.node, Node.isContainer] at hs
    | finish h => simp [Edit.supports, w.node_of_finish h, Node.isContainer] at hs
  | insertBefore target content =>
    simp only [Edit.supports, Bool.and_eq_true, decide_eq_true_eq] at hs
    obtain ⟨b, before, after, hstands, hb, rfl⟩ := w.exists_stands hfound hs.1 hs.2
    obtain ⟨plug, hold, hscope, hrewrite⟩ := w.exists_plug_beside hstands (l := []) rfl
    refine ⟨plug, hold, hscope, fun next us => ?_⟩
    rw [← hrewrite { inBranch := fun b => numberAll next us ++ [b] } _ rfl, hb]
    rfl
  | insertAfter target content =>
    simp only [Edit.supports, Bool.and_eq_true, decide_eq_true_eq] at hs
    obtain ⟨b, before, after, hstands, hb, rfl⟩ := w.exists_stands hfound hs.1 hs.2
    obtain ⟨plug, hold, hscope, hrewrite⟩ := w.exists_plug_beside hstands (List.append_nil [b])
    refine ⟨plug, hold, hscope, fun next us => ?_⟩
    rw [← hrewrite { inBranch := fun b => b :: numberAll next us } (numberAll next us) (by simp), hb]
    rfl
  | setText => cases hc
  | remove => cases hc

end WellFormed
end Document
end MarkupGraft
