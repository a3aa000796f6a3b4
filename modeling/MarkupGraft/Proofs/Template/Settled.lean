import MarkupGraft.Proofs.Template.Serving

/-!
Targets that are settled. A mapping that finds in an empty target just what it would put there has
nothing left to do: the target gets fresh nodes, but the same ones in the same places. So the targets
behind it are where they were, and a run through settled targets leaves the template as it is.
-/

namespace MarkupGraft
open Branch (Stands idents entriesAll eraseAll)

/-- Whether a node holds already what a mapping puts there for some items. Copies for several items
are never what was there, and neither is a document that is fetched. -/
def Mapping.Settled (m : Mapping) (items : List Item) (d : Document) (q : Nat) : Prop :=
  match m.dispatch with
  | .graft => d.HoldsContent q (items.flatMap Item.trees) (Item.concat items)
  | .multiple => ∃ item, items = [item] ∧ (d.node q).isChild ∧ d.node q ≠ .document ∧
    d.HoldsContent q item.content item.toText
  | .fetch => False

/-- A branch that holds some content is the same with that content. -/
theorem Branch.withContent_of_holdsContent {b : Branch} {content : List Tree} {text : String}
    (h : b.HoldsContent content text) : b.erase.withContent content text = b.erase := by
  cases b with
  | element ident name attributes children finish =>
    have hchildren : eraseAll children = content := h
    rw [← hchildren]
    rfl
  | leaf ident kind value => cases kind <;> exact congrArg _ (Eq.symm h)

namespace Document
variable {d d' : Document} {q : Nat}

theorem Unchanged.refl (w : d.WellFormed) (renewed : Nat → Prop) : d.Unchanged d renewed :=
  ⟨w, rfl, rfl, fun _ => rfl⟩

theorem settled_congr {m : Mapping} {items : List Item} (h : d'.nodes = d.nodes) (q : Nat) :
    m.Settled items d' q ↔ m.Settled items d q := by
  simp only [Mapping.Settled, node_congr h, holdsContent_congr h]

theorem isQueried_congr (h : d'.nodes = d.nodes) (q : Nat) : d'.IsQueried q ↔ d.IsQueried q := by
  rw [IsQueried, IsQueried, length_congr h, node_congr h]

theorem clears_congr (h : d'.nodes = d.nodes) (c : Clearing) (p q : Nat) :
    d'.Clears c p q ↔ d.Clears c p q := by
  cases c <;> simp only [Clears, children, last, place_congr h]

namespace WellFormed
variable (w : d.WellFormed)
include w

/-- Putting a selection into an empty target that holds it already changes nothing. -/
theorem unchanged_graft {items : List Item} (hitems : ∀ item ∈ items, item.Sound)
    (hq : d.IsQueried q) (hempty : ¬ d.IsFilled q)
    (hholds : d.HoldsContent q (items.flatMap Item.trees) (Item.concat items)) :
    ∃ d', d.graft (d.handleAt q) items = .ok d' ∧ d.Unchanged d' (d.Clears .content q) := by
  have hp := w.located hq.1
  by_cases hc : (d.node q).isContainer
  · obtain ⟨f, hf, htrees, hgraft⟩ := exists_graft_content hitems hp hc
    rw [HoldsContent, if_pos hc] at hholds
    have hdoctype : ∀ t ∈ f.trees, ∃ v, t = .doctype v := by
      rw [htrees, ← hholds]
      exact w.exists_doctype hq.1 hempty
    have hedit : d.edit (.replaceChildren (d.handleAt q) f) =
        .ok (d.splice (d.contentStart q) (d.last q) f q) :=
      d.edit_eq_ok_iff.mpr ⟨q, hp, hc, rfl⟩
    have w' := (w.edited (e := .replaceChildren (d.handleAt q) f) (by simpa [Edit.content?] using hf)
      hp hc).1
    obtain ⟨before, rest, head, finish, attributes, children, hlists⟩ := w.exists_lists hq.1 hc
    have hchildren := hlists.flatMap_treesAt w
    obtain ⟨hstart, hlast⟩ := hlists.range
    obtain ⟨rfl, hhead, hfinish, hentries⟩ := hlists
    have hentries' := (entries_splice_content hhead hfinish hentries hf before.length).2
    have hplaced : f.treesUnder (d.scopeAt before.length) = eraseAll children := by
      rw [Tree.eq_of_declaredAs_doctype (f.declaredAs_treesUnder _) (.inl hdoctype), htrees, ← hholds,
        hchildren]
    rw [hplaced] at hentries'
    have hsplit (new : List Entry) :
        before ++ head :: (attributes.map OwnedAttribute.entry ++ (new ++ finish :: rest)) =
          (before ++ head :: attributes.map OwnedAttribute.entry) ++ (new ++ finish :: rest) := by
      simp
    rw [hsplit] at hentries hentries'
    refine ⟨_, hgraft.trans hedit, .of_entries w' rfl hentries hentries' ?_ ?_⟩
    · rw [Branch.nodes_entriesAll, Branch.nodes_entriesAll, Branch.eraseAll_numberAll]
    · intro r hle hlt
      simp only [List.length_append, List.length_cons, List.length_map] at hle hlt
      exact (w.clears_content_iff hq.1).mpr ⟨hc, by omega, by omega⟩
  · rw [HoldsContent, if_neg hc] at hholds
    have hedit : d.edit (.setText (d.handleAt q) (Item.concat items)) = .ok d := by
      refine d.edit_eq_ok_iff.mpr ⟨q, hp, by simpa [Edit.supports] using hq.ne_finish, ?_⟩
      rw [Document.edited, if_neg hc, ← hholds, setValue_value]
    exact ⟨d, (graft_value hp hc).trans hedit, .refl w _⟩

/-- None of the outermost targets is cleared with one before it. -/
theorem pairwise_outermost {found : List Nat} (hset : d.IsNodeSet found) (c : Clearing) :
    (found.filter (d.isOutermost c found)).Pairwise fun q r => ¬ d.Clears c q r := by
  refine (hset.1.filter _).imp_of_mem fun {q r} hq hr hlt hclears => ?_
  obtain ⟨hq, -⟩ := List.mem_filter.mp hq
  obtain ⟨hr, houtermost⟩ := List.mem_filter.mp hr
  have haround := (w.mem_around_iff (hset.2 q hq).1 (hset.2 r hr)).mpr ⟨hlt, hclears⟩
  simpa [hq] using List.all_eq_true.mp houtermost q haround

end WellFormed

/-- A branch that the same tree has come into the place of has left nothing changed. -/
theorem Renewed.unchanged {b : Branch} {before after : List Entry} (w : d.WellFormed)
    (hs : Stands b d.tree.children before after) (h : d.Renewed d' b b.erase) :
    d.Unchanged d' (d.Clears .whole (before.length + 1)) := by
  have hentries' := w.entries_of_rewrite h.wellFormed hs h.tree
  rw [Branch.entriesAll_singleton] at hentries'
  refine .of_entries h.wellFormed h.id_eq (w.entries_of_stands hs) hentries' ?_ fun q hle hlt => ?_
  · rw [Branch.entries_number, nodes_identify, Branch.nodes_entries]
  · have hlast := w.last_of_stands hs
    rw [List.length_cons] at hle hlt
    exact ⟨hle, by omega⟩

end Document

namespace Mapping
open Work
variable {m : Mapping} {path : String} {items : List Item}

/-- An empty target that is settled is left as it is. -/
theorem exists_serve_settled (hitems : ∀ item ∈ items, item.Sound) {w : Workspace}
    (hw : w.template.WellFormed) {q : Nat} (hq : w.template.IsQueried q)
    (hempty : ¬ w.template.IsFilled q) (hsettled : m.Settled items w.template q) :
    ∃ w', outcome (m.serve path items (w.template.handleAt q)) w = (.ok (), w') ∧
      w.template.Unchanged w'.template (w.template.Clears m.clearing q) := by
  cases hd : m.dispatch with
  | graft =>
    simp only [Settled, hd] at hsettled
    obtain ⟨d', hgraft, hunchanged⟩ := hw.unchanged_graft hitems hq hempty hsettled
    refine ⟨{ w with template := d' }, ?_, ?_⟩
    · simp only [serve, hd]
      rw [outcome_edit, hgraft]
    · simpa only [clearing, hd] using hunchanged
  | multiple =>
    simp only [Settled, hd] at hsettled
    obtain ⟨item, rfl, hchild, hdocument, hholds⟩ := hsettled
    obtain ⟨b, before, after, hs, hident, rfl⟩ :=
      hw.exists_stands (hw.found (hw.located hq.1)) hchild hdocument
    have ht : w.template.handleAt (before.length + 1) = ⟨w.template.id, b.ident⟩ := by
      rw [hident]
      rfl
    obtain ⟨w', content, hdone, hcontent, hrenewed⟩ := exists_multiply_single hw hs ht
      (hitems item List.mem_cons_self) path
    refine ⟨w', by simpa only [serve, hd] using hdone, ?_⟩
    rw [← hw.holdsContent_iff_of_declaredAs hq.1 hempty hcontent, hw.holdsContent_of_stands hs] at hholds
    rw [Branch.withContent_of_holdsContent hholds] at hrenewed
    simpa only [clearing, hd] using hrenewed.unchanged hw hs
  | fetch =>
    simp only [Settled, hd] at hsettled

/-- Going through settled targets leaves a template as it is, where none of them is cleared with one
before it. -/
theorem exists_forM_serve_settled (hitems : ∀ item ∈ items, item.Sound) {d : Document}
    {targets : List Nat} (hapart : targets.Pairwise fun q r => ¬ d.Clears m.clearing q r)
    (htargets : ∀ q ∈ targets, d.IsQueried q ∧ ¬ d.IsFilled q ∧ m.Settled items d q)
    {w : Workspace} (hw : w.template.WellFormed) (hnodes : w.template.nodes = d.nodes)
    (hkept : ∀ q ∈ targets, w.template.handleAt q = d.handleAt q) :
    ∃ w', outcome ((targets.map d.handleAt).forM (m.serve path items)) w = (.ok (), w') ∧
      w'.template.nodes = d.nodes := by
  induction targets generalizing w with
  | nil => exact ⟨w, rfl, hnodes⟩
  | cons q targets ih =>
    obtain ⟨hq, hrest⟩ := List.pairwise_cons.mp hapart
    obtain ⟨⟨hqueried, hempty, hsettled⟩, htargets⟩ := List.forall_mem_cons.mp htargets
    obtain ⟨hhandle, hkept⟩ := List.forall_mem_cons.mp hkept
    rw [← Document.isQueried_congr hnodes] at hqueried
    rw [← Document.isFilled_congr hnodes] at hempty
    rw [← Document.settled_congr hnodes] at hsettled
    obtain ⟨w₁, hserve, hunchanged⟩ :=
      @exists_serve_settled m path items hitems w hw q hqueried hempty hsettled
    obtain ⟨w', hdone, hnodes'⟩ := ih hrest htargets hunchanged.wellFormed
      (hunchanged.nodes_eq.trans hnodes) fun r hr =>
        (hunchanged.handleAt_eq ((Document.clears_congr hnodes _ q r).not.mpr (hq r hr))).trans
          (hkept r hr)
    refine ⟨w', ?_, hnodes'⟩
    rw [List.map_cons, ← hhandle]
    change outcome (m.serve path items _ >>= fun _ => List.forM _ _) w = _
    rw [outcome_bind, hserve]
    exact hdone

end Mapping

namespace Program
open Work
variable {m : Mapping} {env : Environment} {source template : Document} {path : String}
  {target : Query} {found : List Nat}

/-- A run for empty targets leaves a template as it is in which one of them is filled, or all the
outermost ones are settled. -/
theorem exists_run_settled (hsource : source.WellFormed) (w : template.WellFormed)
    (honly : m.onlyIfEmpty) (htarget : m.target? = some target) (hdispatch : m.dispatch ≠ .fetch)
    (hfound : target.select template.view template.contextNode = .ok found)
    (h : (∃ q ∈ found, template.IsFilled q) ∨ ∃ selection?,
      Frame.selection? ⟨source, source.contextNode, path⟩ env m = .ok selection? ∧
        ∀ items ∈ selection?, items ≠ [] → ∀ q ∈ found, template.isOutermost m.clearing found q →
          m.Settled items template q) :
    ∃ keys last, run ⟨[.map m []]⟩ env source path template = (.ok keys, last) ∧
      last.nodes = template.nodes := by
  have hqueried := w.isQueried_contextNode
  have hp := w.located hqueried.1
  let start : Workspace := { template, nextId := max source.id template.id + 1 }
  have hperform : ∃ last, outcome (m.perform env true (fun _ _ => pure ())
      ⟨source, source.contextNode, path⟩ (template.handleAt template.contextNode)) start =
        (.ok (), last) ∧ last.template.nodes = template.nodes := by
    by_cases hfilled : ∃ q ∈ found, template.IsFilled q
    · obtain ⟨q, hq, hfilled⟩ := hfilled
      exact ⟨_, Mapping.perform_filled htarget hp hfound honly hq hfilled, rfl⟩
    have hempty : ∀ q ∈ found, ¬ template.IsFilled q := fun q hq hq' => hfilled ⟨q, hq, hq'⟩
    obtain ⟨selection?, hselection, hsettled⟩ := h.resolve_left hfilled
    by_cases hnone : ∀ items ∈ selection?, items = []
    · exact ⟨_, Mapping.perform_unserved htarget hp hfound hdispatch hempty hselection hnone, rfl⟩
    simp only [not_forall] at hnone
    obtain ⟨items, hitems, hne⟩ := hnone
    cases hitems
    have hset := w.isNodeSet_of_select hqueried hfound
    have hsound := ((hsource.frame_sound path).avoids_selection? env m).of_eq_ok hselection items rfl
    obtain ⟨last, hlast, hnodes⟩ := @Mapping.exists_forM_serve_settled m path items hsound template _
      (w.pairwise_outermost hset m.clearing) (fun q hq => by
        obtain ⟨hq, houtermost⟩ := List.mem_filter.mp hq
        exact ⟨hset.2 q hq, hempty q hq, hsettled items rfl hne q hq houtermost⟩)
      start w rfl fun _ _ => rfl
    refine ⟨last, ?_, hnodes⟩
    rw [Mapping.perform_unfilled htarget hp hfound hdispatch (hsource.frame_sound path) w hqueried
      hempty hselection hne]
    exact hlast
  obtain ⟨last, hlast, hnodes⟩ := hperform
  refine ⟨last.keys, last.template, ?_, hnodes⟩
  rw [run_single m env source path w]
  simp only [start] at hlast
  rw [hlast]
  rfl

end Program
end MarkupGraft
