import MarkupGraft.Proofs.Query.Union
import MarkupGraft.Proofs.Store.Holding
import MarkupGraft.Proofs.Template.Emission
import MarkupGraft.Proofs.Template.Guard
import MarkupGraft.Proofs.Template.Outermost

/-!
What a mapping does with one target. What is cut out of a document comes back into its place without
new declarations, so the single copy that is made for a single item is the target itself with other
content; and neither that nor a graft fails where the target is there.
-/

namespace MarkupGraft
open Branch (Stands idents entriesAll eraseAll)

/-! Back into place -/

/-- What was cut out needs no declarations where it came from. -/
theorem Placement.declarations_without_base (s : Scope) (name : Name) (following : List Node) :
    declarations (s.without .base) s name following = [] := by
  have hget {b : String × String} (h : b ∈ (s.without .base).bindings) : s.get? b.1 = some b.2 :=
    (Scope.get?_without.mp (Scope.mem_bindings_iff.mp h)).1
  -- A default namespace of the place is none of the base bindings, so it was taken along.
  have hundo (h : (s.get? "").any (· ≠ "")) : (s.without .base).contains "" := by
    cases hs : s.get? "" with
    | none => simp [hs] at h
    | some space =>
      have hspace : space ≠ "" := by simpa [hs] using h
      have hkept : (s.without .base).get? "" = some space :=
        Scope.get?_without.mpr ⟨hs, by simpa [Scope.get?_base] using Ne.symm hspace⟩
      simp [Scope.contains, hkept]
  simp only [declarations]
  rw [if_neg]
  · refine List.map_eq_nil_iff.mpr (List.filter_eq_nil_iff.mpr fun b h => ?_)
    simp [hget h]
  · intro h
    simp only [Bool.and_eq_true, Bool.not_eq_true'] at h
    rw [hundo h.1.1.2] at h
    cases h.2

theorem Tree.placed_without_base (s : Scope) (t : Tree) : t.placed (s.without .base) s = t := by
  cases t with
  | element name attributes children =>
    rw [placed, declared, Placement.declarations_without_base]
    rfl
  | _ => rfl

/-! Items -/

/-- The trees that come in for an item. -/
def Item.trees : Item → List Tree
  | .node document position => document.treesAt position
  | .text value => [.text value]

/-- Whatever is no end marker can be cut out. -/
theorem Document.WellFormed.exists_extract {d : Document} (w : d.WellFormed) {q : Nat}
    (hq : q < d.length) (hfinish : d.node q ≠ .finish) :
    ∃ f, d.extract (d.handleAt q) = .ok f ∧ f.Complete ∧ f.trees = d.treesAt q := by
  have hlocated := w.located hq
  have hextract : ∃ f, d.extract (d.handleAt q) = .ok f := by
    rw [extract_eq hlocated]
    cases hn : d.node q with
    | finish => exact absurd hn hfinish
    | _ => exact ⟨_, rfl⟩
  obtain ⟨f, hf⟩ := hextract
  exact ⟨f, hf, w.complete_extract hf, w.trees_of_extract hlocated hf⟩

namespace Item
variable {item : Item} {items : List Item}

theorem Sound.exists_toFragment (h : item.Sound) :
    ∃ f, item.toFragment = .ok f ∧ f.Complete ∧ f.trees = item.trees := by
  cases item with
  | node document position => exact h.1.exists_extract h.2.1 h.2.ne_finish
  | text value => exact ⟨_, rfl, Fragment.complete_ofText value, rfl⟩

theorem exists_gather (h : ∀ item ∈ items, item.Sound) :
    ∃ f, gather items = .ok f ∧ f.Complete ∧ f.trees = items.flatMap trees := by
  obtain ⟨fs, hfs⟩ := Query.exists_mapM_iff.mpr fun item hitem =>
    (h item hitem).exists_toFragment.imp fun _ hf => hf.1
  have hgather : gather items = .ok (.join fs) := Markup.map_eq_ok_iff.mpr ⟨fs, hfs, rfl⟩
  refine ⟨_, hgather, (avoids_gather h).of_eq_ok hgather, ?_⟩
  have hcomplete := (Avoids.mapM fun item hitem => (h item hitem).avoids_toFragment).of_eq_ok hfs
  rw [Fragment.trees_join hcomplete]
  refine Document.trees_of_mapM (fun item hitem f hf => ?_) hfs
  obtain ⟨f', hf', -, htrees⟩ := (h item hitem).exists_toFragment
  cases hf.symm.trans hf'
  exact htrees

theorem Sound.exists_filling (h : item.Sound) :
    ∃ f, item.filling = .ok f ∧ f.Complete ∧ f.trees = item.content := by
  have hfilling : ∃ f, item.filling = .ok f := by
    cases item with
    | node document position =>
      rw [filling]
      split
      · rename_i hcontainer
        obtain ⟨fs, hfs⟩ := Query.exists_mapM_iff.mpr fun c (hc : c ∈ document.children position) => by
          obtain ⟨hlt, -, hchild⟩ := (h.1.mem_children_iff h.2.1 hcontainer).mp hc
          have hfinish : document.node c ≠ .finish := fun hn => by simp [hn, Node.isChild] at hchild
          exact (h.1.exists_extract hlt hfinish).imp fun _ hf => hf.1
        exact ⟨_, Markup.map_eq_ok_iff.mpr ⟨fs, hfs, rfl⟩⟩
      · exact h.exists_toFragment.imp fun _ hf => hf.1
    | text value => exact ⟨_, rfl⟩
  obtain ⟨f, hf⟩ := hfilling
  exact ⟨f, hf, h.avoids_filling.of_eq_ok hf, h.trees_of_filling hf⟩

end Item

/-! Grafting -/

namespace Document
variable {d : Document} {target : Handle} {items : List Item} {p : Nat}

/-- A container takes the trees of all items for its content. -/
theorem exists_graft_content (hitems : ∀ item ∈ items, item.Sound) (hp : d.locate? target = some p)
    (hc : (d.node p).isContainer) : ∃ f : Fragment, f.Complete ∧ f.trees = items.flatMap Item.trees ∧
      d.graft target items = d.edit (.replaceChildren target f) := by
  obtain ⟨f, hf, hcomplete, htrees⟩ := Item.exists_gather hitems
  refine ⟨f, hcomplete, htrees, ?_⟩
  rw [graft, locate_eq_ok hp]
  change (if _ then _ else _) = _
  rw [if_pos hc, hf]
  rfl

/-- Any other node takes the texts of all items in one. -/
theorem graft_value (hp : d.locate? target = some p) (hc : ¬(d.node p).isContainer) :
    d.graft target items = d.edit (.setText target (Item.concat items)) := by
  rw [graft, locate_eq_ok hp]
  change (if _ then _ else _) = _
  rw [if_neg hc]
  rfl

/-! Copies -/

/-- The document with other branches in the place of one. -/
theorem WellFormed.entries_of_rewrite {d d' : Document} (w : d.WellFormed) (w' : d'.WellFormed) {b : Branch}
    {before after : List Entry} (hs : Stands b d.tree.children before after) {inserted : List Branch}
    (h : d'.tree = d.tree.rewrite b.ident { inBranch := fun _ => inserted }) :
    d'.entries = (⟨.document, d.tree.ident⟩ :: before) ++
      (entriesAll inserted ++ (after ++ [⟨.finish, d.tree.finish⟩])) := by
  rw [w'.entries_eq, h, RootedTree.entries_rewrite hs w.nodup_tree b.ident_mem_entries,
    Branch.rewriteAll, if_pos rfl]
  simp [Branch.rewriteAll]

/-- A document in which a tree of fresh nodes stands where a branch of another one stood. -/
structure Renewed (d d' : Document) (b : Branch) (t : Tree) : Prop where
  wellFormed : d'.WellFormed
  id_eq : d'.id = d.id
  nextIdent_le : d.nextIdent ≤ d'.nextIdent
  tree : d'.tree =
    d.tree.rewrite b.ident { inBranch := fun _ => [Branch.number d.nextIdent t] }

section
variable {b : Branch} {before after : List Entry} {parent : Nat} (w : d.WellFormed)
  (hs : Stands b d.tree.children before after) (ht : target = ⟨d.id, b.ident⟩)
  (hparent : d.parent? (before.length + 1) = some parent)
include w hs ht hparent

/-- A branch can be copied, under the bindings that are in scope around it. -/
theorem WellFormed.exists_detach (id : Nat) : ∃ copy node, d.detach target id = .ok (copy, node) ∧
    copy.Holds node b.erase ∧ copy.inherited = (d.scopeAt parent).without .base := by
  have hp : d.locate? target = some (before.length + 1) := ht ▸ w.locate?_of_stands hs
  obtain ⟨hextract, -⟩ := w.extract_of_stands hs hp
  rw [hparent] at hextract
  obtain ⟨made, hmade, hinherited⟩ : ∃ made, d.copySubtree id target = .ok made ∧
      made.inherited = (d.scopeAt parent).without .base := by
    rw [Document.copySubtree, hextract]
    exact ⟨_, rfl, rfl⟩
  obtain ⟨node, hdetach⟩ : ∃ node, d.detach target id = .ok (made, node) := by
    rw [detach, locate_eq_ok hp]
    change ∃ node, (d.copySubtree id target >>= _) = _
    rw [hmade]
    simp only [bind, Except.bind]
    split <;> exact ⟨_, rfl⟩
  exact ⟨made, node, hdetach, w.holds_of_detach hs hp hdetach, hinherited⟩

/-- A single copy comes into the place of a branch as it would come there from anywhere. -/
theorem WellFormed.exists_substitute {copy : Document} {node : Handle} {t : Tree}
    (hcopy : copy.Holds node t) : ∃ d', d.substitute target [copy] = .ok d' ∧
      d.Renewed d' b (t.placed copy.inherited (d.scopeAt parent)) := by
  have hp : d.locate? target = some (before.length + 1) := ht ▸ w.locate?_of_stands hs
  have wcopy := hcopy.wellFormed
  obtain ⟨d₁, hd₁⟩ := w.exists_edit_of_stands hs (e := .insertBefore target copy.contents) ht
    (.inl rfl)
  have hextended := (Extended.refl w hs).insertBefore_numbered w (by rw [ht])
    wcopy.complete_contents hp hd₁
  have ht₁ : target = ⟨d₁.id, b.ident⟩ := by rw [ht, hextended.follows.id_eq]
  obtain ⟨d', hd'⟩ := hextended.wellFormed.exists_edit_of_stands hextended.stands
    (e := .remove target) ht₁ (.inr rfl)
  obtain ⟨w', htree, -⟩ := hextended.removed w hs (by rw [ht]) hd'
  have hfollows := hextended.follows_removed w hs ht hd'
  have htrees : copy.contents.treesUnder (d.scopeAt parent) =
      [t.placed copy.inherited (d.scopeAt parent)] := by
    rw [Fragment.treesUnder, wcopy.trees_contents, hcopy.trees_eq]
    rfl
  rw [hparent, Option.getD_some, htrees] at htree
  have hsubstitute : d.substitute target [copy] = .ok d' := by
    refine Markup.bind_eq_ok_iff.mpr ⟨d₁, ?_, hd'⟩
    rw [List.foldlM_cons]
    exact Markup.bind_eq_ok_iff.mpr ⟨d₁, hd₁, rfl⟩
  exact ⟨d', hsubstitute, w', hfollows.id_eq, hfollows.nextIdent_le, htree⟩

end

/-- The tree that a document holds can be filled. -/
theorem Holds.exists_fill {node : Handle} {t : Tree} (h : d.Holds node t) {item : Item}
    (hitem : item.Sound) : ∃ d' content, d.fill node item = .ok d' ∧ d'.inherited = d.inherited ∧
      List.Forall₂ Tree.DeclaredAs item.content content ∧
      d'.Holds node (t.withContent content item.toText) := by
  obtain ⟨e, hfill, htarget, hsupports⟩ : ∃ e : Edit Fragment, d.fill node item = d.edit e ∧
      e.target = node ∧ e.supports (d.node 1) := by
    rw [fill, locate_eq_ok h.located]
    change ∃ e : Edit Fragment, (if (d.node 1).isContainer then _ else _) = _ ∧ _
    split
    · rename_i hc
      obtain ⟨f, hf, -⟩ := hitem.exists_filling
      rw [hf]
      exact ⟨.replaceChildren node f, rfl, rfl, hc⟩
    · refine ⟨.setText node item.toText, rfl, rfl, ?_⟩
      obtain ⟨b, hchildren, -, -⟩ := h.tree
      have hs : Stands b d.tree.children [] [] := hchildren ▸ .here [] []
      obtain ⟨head, rest, hb, hchild, -⟩ := b.entries_head
      have hnode := h.wellFormed.node_of_stands hs hb
      rw [List.length_nil, Nat.zero_add] at hnode
      rw [hnode]
      cases head <;> simp_all [Edit.supports, Node.isChild]
  have hd' : d.fill node item = .ok (d.edited e 1) := by
    rw [hfill]
    exact d.edit_eq_ok_iff.mpr ⟨1, htarget ▸ h.located, hsupports, rfl⟩
  obtain ⟨content, hcontent, hholds⟩ := h.filled hitem hd'
  exact ⟨_, content, hd', (d.edited_kept e 1).2.2, hcontent, hholds⟩

end Document

namespace Mapping
open Work

/-- A repetition for a single item puts the target back into its place, with what the item holds for
its content. -/
theorem exists_multiply_single {w : Workspace} {b : Branch} {before after : List Entry}
    {target : Handle} {item : Item} (hw : w.template.WellFormed)
    (hs : Stands b w.template.tree.children before after)
    (ht : target = ⟨w.template.id, b.ident⟩) (hitem : item.Sound) (path : String) :
    ∃ w' content, outcome (multiply true (fun _ _ => pure ()) path [item] target) w = (.ok (), w') ∧
      List.Forall₂ Tree.DeclaredAs item.content content ∧
      w.template.Renewed w'.template b (b.erase.withContent content item.toText) := by
  obtain ⟨parent, hparent⟩ := hw.exists_parent (hw.lt_of_stands hs) (Nat.succ_pos _)
  obtain ⟨copy, node, hdetach, hcopy, hinherited⟩ := hw.exists_detach hs ht hparent w.nextId
  obtain ⟨start, content, hfill, hkept, hcontent, hstart⟩ := hcopy.exists_fill hitem
  obtain ⟨d', hd', hrenewed⟩ := hw.exists_substitute hs ht hparent hstart
  rw [hkept, hinherited, Tree.placed_without_base] at hrenewed
  obtain ⟨w₁, hw₁, hmade⟩ : ∃ w₁, w₁.template = w.template ∧
      outcome (copyFor true (fun _ _ => pure ()) path target item) w = (.ok (start, {}), w₁) := by
    rw [copyFor_eq, outcome_bind, outcome_detach, hdetach]
    dsimp only [Except.mapError]
    rw [outcome_bind, outcome_lift, filled, if_pos rfl, hfill]
    cases item <;> refine ⟨_, ?_, rfl⟩ <;> rfl
  have hmultiply : outcome (multiply true (fun _ _ => pure ()) path [item] target) w =
      outcome (edit fun template => template.substitute target [start]) w₁ := by
    rw [multiply, List.mapM_cons, outcome_bind, outcome_bind, hmade]
    rfl
  refine ⟨{ w₁ with template := d' }, content, ?_, hcontent, hrenewed⟩
  rw [hmultiply, outcome_edit, hw₁, hd']

/-- What a mapping with nothing inside does with one target. -/
def serve (m : Mapping) (path : String) (items : List Item) : Handle → Work Unit :=
  match m.dispatch with
  | .graft => fun target => edit fun template => template.graft target items
  | .multiple | .fetch => multiply true (fun _ _ => pure ()) path items

/-- What goes with a target when a mapping is done with it. -/
def clearing (m : Mapping) : Clearing :=
  match m.dispatch with
  | .graft => .content
  | .multiple | .fetch => .whole

theorem clearing_graft {m : Mapping} (h : m.dispatch = .graft) : m.clearing = .content := by
  rw [clearing, h]

theorem clearing_multiple {m : Mapping} (h : m.dispatch = .multiple) : m.clearing = .whole := by
  rw [clearing, h]

theorem clears_serve (m : Mapping) (path : String) {items : List Item}
    (hitems : ∀ item ∈ items, item.Sound) : Clears m.clearing (m.serve path items) := by
  have hbody : Body.Live fun _ _ => pure () := fun _ _ _ => Live.pure fun _ _ => trivial
  rw [serve, clearing]
  cases m.dispatch with
  | graft => exact @clears_graft _ hitems
  | multiple | fetch => exact @clears_multiply _ hbody true path _ hitems

section
variable {m : Mapping} {env : Environment} {f : Frame} {w : Workspace} {node : Handle} {p : Nat}
  {target : Query} {found : List Nat} (htarget : m.target? = some target)
  (hp : w.template.locate? node = some p)
  (hfound : target.select w.template.view p = .ok found)
include htarget hp hfound

/-- A mapping for empty targets does nothing once one of them is filled. -/
theorem perform_filled (honly : m.onlyIfEmpty) {q : Nat} (hq : q ∈ found)
    (hfilled : w.template.IsFilled q) {fills : Bool} {body : Body} :
    outcome (m.perform env fills body f node) w = (.ok (), w) :=
  perform_heldBack ⟨honly, target, p, found, htarget, hp, hfound, q, hq, hfilled⟩

theorem letThrough_of_unfilled (hempty : ∀ q ∈ found, ¬ w.template.IsFilled q) :
    m.LetThrough w.template node := by
  intro other hother
  cases htarget.symm.trans hother
  refine ⟨p, found, hp, hfound, fun q hq c hc => ?_⟩
  by_contra hdoctype
  exact hempty q hq ⟨c, hc, hdoctype⟩

/-- A mapping whose targets are all empty serves the outermost ones. -/
theorem perform_unfilled (hdispatch : m.dispatch ≠ .fetch) (hf : f.Sound)
    (hw : w.template.WellFormed) (hq : w.template.IsQueried p)
    (hempty : ∀ q ∈ found, ¬ w.template.IsFilled q) {items : List Item}
    (hselection : f.selection? env m = .ok (some items)) (hne : items ≠ []) :
    outcome (m.perform env true (fun _ _ => pure ()) f node) w =
      outcome (((found.filter (w.template.isOutermost m.clearing found)).map
        w.template.handleAt).forM (m.serve f.path items)) w := by
  have hitems := (hf.avoids_selection? env m).of_eq_ok hselection items rfl
  obtain ⟨item, items, rfl⟩ := List.exists_cons_of_ne_nil hne
  have htargets : outcome (m.perform env true (fun _ _ => pure ()) f node) w =
      outcome (forTargets target node (m.serve f.path (item :: items))) w := by
    rw [perform_letThrough (letThrough_of_unfilled htarget hp hfound hempty), perform]
    have hselection' : f.selection? env { m with onlyIfEmpty := false } =
      .ok (some (item :: items)) := hselection
    simp only [htarget]
    rw [outcome_bind]
    change outcome (liftM (f.selection? env { m with onlyIfEmpty := false }) >>= _) w = _
    rw [hselection', outcome_bind, outcome_lift]
    cases hd : m.dispatch with
    | fetch => exact absurd hd hdispatch
    | graft | multiple =>
      simp only [serve, hd]
  rw [htargets, outcome_forTargets (clears_serve m f.path hitems) target hw hp hq, forOutermost,
    outcome_bind, outcome_find target hp, hfound]
  rfl

/-- A mapping whose targets are all empty does nothing without an item. -/
theorem perform_unserved (hdispatch : m.dispatch ≠ .fetch)
    (hempty : ∀ q ∈ found, ¬ w.template.IsFilled q) {selection? : Option (List Item)}
    (hselection : f.selection? env m = .ok selection?) (hnone : ∀ items ∈ selection?, items = [])
    {fills : Bool} {body : Body} :
    outcome (m.perform env fills body f node) w = (.ok (), w) := by
  rw [perform_letThrough (letThrough_of_unfilled htarget hp hfound hempty), perform]
  have hselection' : f.selection? env { m with onlyIfEmpty := false } = .ok selection? := hselection
  simp only [htarget]
  rw [outcome_bind]
  change outcome (liftM (f.selection? env { m with onlyIfEmpty := false }) >>= _) w = _
  rw [hselection', outcome_bind, outcome_lift]
  cases selection? with
  | none => rfl
  | some items =>
    obtain rfl := hnone items rfl
    cases hd : m.dispatch with
    | fetch => exact absurd hd hdispatch
    | graft | multiple => rfl

end
end Mapping

namespace Program
open Work

/-- A program of one mapping with nothing inside does what the mapping does. -/
theorem run_single (m : Mapping) (env : Environment) (source : Document) (path : String)
    {template : Document} (w : template.WellFormed) :
    run ⟨[.map m []]⟩ env source path template =
      let done := outcome (m.perform env true (fun _ _ => pure ())
        ⟨source, source.contextNode, path⟩ (template.handleAt template.contextNode))
          { template, nextId := max source.id template.id + 1 }
      (done.1.map fun _ => done.2.keys, done.2.template) := by
  have hcontains : template.contains (template.handleAt template.contextNode) :=
    w.contains_handleAt w.isQueried_contextNode.1
  have hbody : (fun (f : Frame) (node : Handle) => executeAll env f node []) =
      fun _ _ => pure () := by
    funext f node
    rw [executeAll]
  have hexecute (f : Frame) (v : Workspace) (hv : v.template = template) :
      outcome (executeAll env f (template.handleAt template.contextNode) [.map m []]) v =
        outcome (m.perform env true (fun _ _ => pure ()) f
          (template.handleAt template.contextNode)) v := by
    rw [outcome_executeAll_singleton, execute, outcome_bind, outcome_template]
    dsimp only
    rw [hv, if_pos hcontains, outcome_bind, hbody, List.any_nil, Bool.not_false]
    rcases outcome (m.perform env true _ f _) v with ⟨_ | _, v'⟩
    · rfl
    · cases m.repeats <;> rfl
  rw [run_eq, hexecute _ _ rfl]

section
variable {m : Mapping} {env : Environment} {source template once : Document} {path : String}
  {keys : SortKeys} (w : template.WellFormed)
  (hrun : run ⟨[.map m []]⟩ env source path template = (.ok keys, once))
include w hrun

/-- A run that succeeds has performed its mapping. -/
theorem exists_perform_of_run : ∃ start last : Workspace, start.template = template ∧
    last.template = once ∧ outcome (m.perform env true (fun _ _ => pure ())
      ⟨source, source.contextNode, path⟩ (template.handleAt template.contextNode)) start =
        (.ok (), last) := by
  rw [run_single m env source path w] at hrun
  obtain ⟨hresult, htemplate⟩ := Prod.mk.inj hrun
  obtain ⟨⟨⟩, hresult, -⟩ := Markup.map_eq_ok_iff.mp hresult
  exact ⟨_, _, rfl, htemplate, Prod.ext hresult rfl⟩

/-- A run that succeeds has served the outermost targets, if all are empty. -/
theorem exists_forM_of_run {target : Query} {found : List Nat} (hsource : source.WellFormed)
    (htarget : m.target? = some target) (hdispatch : m.dispatch ≠ .fetch)
    (hfound : target.select template.view template.contextNode = .ok found)
    (hempty : ∀ q ∈ found, ¬ template.IsFilled q) {items : List Item}
    (hselection : Frame.selection? ⟨source, source.contextNode, path⟩ env m = .ok (some items))
    (hne : items ≠ []) : ∃ start last : Workspace, start.template = template ∧ last.template = once ∧
      outcome (((found.filter (template.isOutermost m.clearing found)).map template.handleAt).forM
        (m.serve path items)) start = (.ok (), last) := by
  obtain ⟨start, last, rfl, hlast, hperform⟩ := exists_perform_of_run w hrun
  have hqueried := w.isQueried_contextNode
  refine ⟨start, last, rfl, hlast, ?_⟩
  rw [← Mapping.perform_unfilled htarget (w.located hqueried.1) hfound hdispatch
    (hsource.frame_sound path) w hqueried hempty hselection hne]
  exact hperform

end

end Program
end MarkupGraft
