import MarkupGraft.Proofs.Template.Enclosure
import MarkupGraft.Proofs.Template.Repetition

/-!
Targets inside of others. A step clears its target, so a target inside of another one is gone when its
turn comes; and what is not inside of one that is done with stands as it stood. So it comes to the
same to do the step with the outermost targets alone.
-/

namespace MarkupGraft
open Branch (Stands)

/-! Documents in which a node has been cleared -/

/-- A document in which a step has cleared a node of another one, and nothing else is gone. -/
structure Document.Cleared (c : Clearing) (d d' : Document) (p : Nat) : Prop where
  wellFormed : d'.WellFormed
  follows : ∃ value, d.Follows d' (fun h => ∃ q, d.locate? h = some q ∧ d.Clears c p q) value
  /-- The branches behind the node stand as they stood, but for those that are cleared. -/
  stands {b : Branch} {before after : List Entry} (hs : Stands b d.tree.children before after)
    (hlt : p < before.length + 1) (hout : ¬ d.Clears c p (before.length + 1)) :
    ∃ before' after', Stands b d'.tree.children before' after'

/-- What an edit clears at its target. -/
def Edit.clearing? {α : Type} : Edit α → Option Clearing
  | .replaceChildren _ _ | .setText _ _ => some .content
  | .insertBefore _ _ | .insertAfter _ _ => none
  | .remove _ => some .whole

theorem Edit.discards_iff {α : Type} {e : Edit α} {c : Clearing} (hc : e.clearing? = some c)
    (d : Document) (p q : Nat) : e.Discards d p q ↔ d.Clears c p q := by
  cases e <;> cases hc <;> rfl

/-- An edit rewrites its target, unless that is the root. -/
theorem RootedTree.exists_rewrite_of_edit (t : RootedTree) (next : Nat) (e : Edit (List Tree))
    (ht : t.ident ≠ e.target.ident) : ∃ r, t.edit next e = t.rewrite e.target.ident r := by
  cases e with
  | replaceChildren => exact ⟨_, if_neg ht⟩
  | setText => exact ⟨_, if_neg ht⟩
  | insertBefore | insertAfter | remove => exact ⟨_, rfl⟩

namespace Document
variable {d d' : Document} {c : Clearing} {target : Handle} {p : Nat}

namespace WellFormed
variable (w : d.WellFormed)
include w

theorem cleared_of_edit {e : Edit Fragment} (hc : e.clearing? = some c)
    (hf : ∀ f ∈ e.content?, f.Complete) (hp : d.locate? e.target = some p) (h : d.edit e = .ok d') :
    d.Cleared c d' p := by
  obtain ⟨_, hp', hs, rfl⟩ := d.edit_eq_ok_iff.mp h
  obtain rfl := Option.some.inj (hp.symm.trans hp')
  obtain ⟨w', htree⟩ := w.edited hf hp hs
  have hfollows := w.follows_edited (w.lt_length_of_locate? hp) hs
  simp only [Edit.discards_iff hc] at hfollows
  refine ⟨w', ⟨_, hfollows⟩, fun {b before after} hstands hlt hout => ?_⟩
  have hcontent := mt (w.clears_of_content (w.lt_length_of_locate? hp)) hout
  by_cases ht : d.tree.ident = e.target.ident
  · -- All that stands is in the content of the root.
    have hroot : d.locate? e.target = some 0 :=
      (locate?_eq_some_iff w.nodup).mpr ⟨((locate?_eq_some_iff w.nodup).mp hp).1,
        ⟨.document, d.tree.ident⟩, by rw [w.entries_eq]; rfl, ht⟩
    obtain rfl := Option.some.inj (hp.symm.trans hroot)
    refine absurd ((w.clears_content_root_iff (w.lt_of_stands hstands) fun hfinish => ?_).mpr
      (Nat.succ_ne_zero _)) hcontent
    obtain ⟨node, rest, hb, hchild, -⟩ := b.entries_head
    rw [show node = .finish from (w.node_of_stands hstands hb).symm.trans hfinish] at hchild
    cases hchild
  · obtain ⟨r, hr⟩ := d.tree.exists_rewrite_of_edit d.nextIdent
      (e.map (Fragment.treesUnder · (d.scopeAt (e.host d p)))) (by rwa [Edit.target_map])
    rw [htree, hr, Edit.target_map]
    exact w.exists_stands_rewrite hstands r hp hlt hcontent

theorem cleared_of_graft {items : List Item} (hitems : ∀ item ∈ items, item.Sound)
    (hp : d.locate? target = some p) (h : d.graft target items = .ok d') :
    d.Cleared .content d' p := by
  obtain ⟨_, hp', h⟩ := Markup.bind_eq_ok_iff.mp h
  cases (locate_eq_ok hp).symm.trans hp'
  split at h
  · obtain ⟨f, hgather, h⟩ := Markup.bind_eq_ok_iff.mp h
    have hf := (Item.avoids_gather hitems).of_eq_ok hgather
    exact w.cleared_of_edit (e := .replaceChildren target f) rfl (by simpa [Edit.content?]) hp h
  · exact w.cleared_of_edit (e := .setText target _) rfl (by simp [Edit.content?]) hp h

theorem cleared_of_substitute {copies : List Document} (hcopies : ∀ copy ∈ copies, copy.WellFormed)
    (hp : d.locate? target = some p) (h : d.substitute target copies = .ok d') :
    d.Cleared .whole d' p := by
  by_cases hne : copies = []
  · subst hne
    exact w.cleared_of_edit (e := .remove target) rfl (by simp [Edit.content?]) hp h
  · obtain ⟨inserted, hreplaced, -⟩ := w.replaced hcopies hne h
    refine ⟨hreplaced.wellFormed, ⟨_, hreplaced.follows.congr (fun _ => ?_) fun _ => rfl⟩,
      fun hstands hlt hout => ?_⟩
    · simp [hp, Clears]
    · rw [hreplaced.tree]
      exact w.exists_stands_rewrite hstands _ hp hlt
        (mt (w.clears_of_content (w.lt_length_of_locate? hp)) hout)

end WellFormed

/-! Going through targets -/

/-- How far the targets of a document have been gone through: `passed` are done with or passed over,
and `rest` are still to come. -/
structure Passed (c : Clearing) (d d' : Document) (passed rest : List Nat) : Prop where
  wellFormed : d'.WellFormed
  /-- Of what queries find, all is gone that the targets so far clear, and nothing else. -/
  follows : ∃ gone value, d.Follows d' gone value ∧ ∀ {h q}, d.locate? h = some q → d.IsQueried q →
    (gone h ↔ ∃ r ∈ passed, d.Clears c r q)
  stands {b : Branch} {before after : List Entry} (hs : Stands b d.tree.children before after)
    (hrest : before.length + 1 ∈ rest) (hout : ∀ r ∈ passed, ¬ d.Clears c r (before.length + 1)) :
    ∃ before' after', Stands b d'.tree.children before' after'

namespace Passed
variable {passed rest : List Nat}

theorem refl (w : d.WellFormed) (c : Clearing) (rest : List Nat) : d.Passed c d [] rest where
  wellFormed := w
  follows := ⟨_, _, .refl d, by simp⟩
  stands hs _ _ := ⟨_, _, hs⟩

theorem contains_iff (h : d.Passed c d' passed rest) (w : d.WellFormed) (hp : d.IsQueried p) :
    d'.contains (d.handleAt p) ↔ ∀ r ∈ passed, ¬ d.Clears c r p := by
  obtain ⟨gone, value, hfollows, hgone⟩ := h.follows
  have hlocated := w.located hp.1
  rw [contains, hfollows.resolves hlocated, hgone hlocated hp]
  simp

/-- A target is passed over that is inside of one before it. -/
theorem skip (h : d.Passed c d' passed (p :: rest)) (w : d.WellFormed)
    (hset : d.IsNodeSet (passed ++ p :: rest)) (hp : ∃ r ∈ passed, d.Clears c r p) :
    d.Passed c d' (passed ++ [p]) rest := by
  obtain ⟨gone, value, hfollows, hgone⟩ := h.follows
  obtain ⟨s, hs, hsp⟩ := hp
  refine ⟨h.wellFormed, ⟨gone, value, hfollows, fun {k q} hq hqueried => ?_⟩,
    fun hs hrest hout => h.stands hs (List.mem_cons_of_mem p hrest) fun r hr =>
      hout r (List.mem_append_left _ hr)⟩
  rw [hgone hq hqueried]
  constructor
  · rintro ⟨r, hr, hrq⟩
    exact ⟨r, List.mem_append_left _ hr, hrq⟩
  · rintro ⟨r, hr, hrq⟩
    rcases List.mem_append.mp hr with hr | hr
    · exact ⟨r, hr, hrq⟩
    · obtain rfl := List.mem_singleton.mp hr
      exact ⟨s, hs, w.clears_trans (hset.2 s (by simp [hs])).1 (hset.2 r (by simp)).1 hsp hrq⟩

/-- A target that is inside of none before it is cleared. -/
theorem clear {d'' : Document} (h : d.Passed c d' passed (p :: rest)) (w : d.WellFormed)
    (hset : d.IsNodeSet (passed ++ p :: rest)) (hp : ∀ r ∈ passed, ¬ d.Clears c r p) {p' : Nat}
    (hp' : d'.locate? (d.handleAt p) = some p') (hcleared : d'.Cleared c d'' p') :
    d.Passed c d'' (passed ++ [p]) rest := by
  obtain ⟨gone, value, hfollows, hgone⟩ := h.follows
  obtain ⟨value', hfollows'⟩ := hcleared.follows
  have hlocated := w.located (hset.2 p (by simp)).1
  have hlater : ∀ q ∈ rest, p < q := (List.pairwise_cons.mp (List.pairwise_append.mp hset.1).2.1).1
  -- What the target clears now is what it would have cleared at first.
  have hsame {k : Handle} {q q' : Nat} (hq : d.locate? k = some q) (hq' : d'.locate? k = some q')
      (hqueried : d.IsQueried q) : d'.Clears c p' q' ↔ d.Clears c p q :=
    hfollows.clears_iff w h.wellFormed hlocated hp' hq hq' hqueried.ne_finish
      fun b before after hs he => h.stands hs (he ▸ List.mem_cons_self) (he ▸ hp)
  refine ⟨hcleared.wellFormed, ⟨_, _, hfollows.trans w hfollows', fun {k q} hq hqueried => ?_⟩,
    fun {b before after} hs hrest hout => ?_⟩
  · have hresolves := hfollows.resolves hq
    simp only [List.mem_append, List.mem_singleton, or_and_right, exists_or, exists_eq_left]
    rw [← hgone hq hqueried]
    by_cases hk : gone k
    · simp [hk]
    · obtain ⟨q', hq'⟩ := Option.isSome_iff_exists.mp (hresolves.mpr hk)
      simp [hk, hq', hsame hq hq' hqueried]
  · obtain ⟨before', after', hs'⟩ := h.stands hs (List.mem_cons_of_mem p hrest) fun r hr =>
      hout r (List.mem_append_left _ hr)
    have hb := w.locate?_of_stands hs
    have hb' := h.wellFormed.locate?_of_stands hs'
    rw [hfollows.id_eq] at hb'
    refine hcleared.stands hs' (hfollows.ordered hlocated hb hp' hb' (hlater _ hrest)) ?_
    rw [hsame hb hb' (hset.2 _ (by simp [hrest]))]
    exact hout p (by simp)

end Passed

/-- Whether a node is inside of none of those found. -/
def isOutermost (d : Document) (c : Clearing) (found : List Nat) (position : Nat) : Bool :=
  (d.around c position).all (· ∉ found)

/-- Whether a node is inside of another one is known when its turn comes. -/
theorem WellFormed.isOutermost_iff (w : d.WellFormed) {passed rest : List Nat}
    (hset : d.IsNodeSet (passed ++ p :: rest)) :
    d.isOutermost c (passed ++ p :: rest) p ↔ ∀ r ∈ passed, ¬ d.Clears c r p := by
  have hp := hset.2 p (by simp)
  obtain ⟨-, hrest, hbefore⟩ := List.pairwise_append.mp hset.1
  have hlater := (List.pairwise_cons.mp hrest).1
  simp only [isOutermost, List.all_eq_true, decide_eq_true_eq]
  constructor
  · intro h r hr hclears
    have hlt := (hset.2 r (by simp [hr])).1
    refine h r ((w.mem_around_iff hlt hp).mpr ⟨hbefore r hr p (by simp), hclears⟩) (by simp [hr])
  · intro h r hr hfound
    obtain ⟨hlt, hclears⟩ := (w.mem_around_iff (hset.2 r hfound).1 hp).mp hr
    rcases List.mem_append.mp hfound with hfound | hfound
    · exact h r hfound hclears
    · rcases List.mem_cons.mp hfound with rfl | hfound
      · exact Nat.lt_irrefl _ hlt
      · exact Nat.lt_asymm hlt (hlater r hfound)

end Document

namespace Mapping
open Work
variable {c : Clearing} {step : Handle → Work Unit} {d : Document} {w : Workspace}

/-- Does something with each target that is not inside of another one. -/
def forOutermost (c : Clearing) (target : Query) (node : Handle) (step : Handle → Work Unit) :
    Work Unit := do
  let found ← find target node
  let before ← template
  ((found.filter (before.isOutermost c found)).map before.handleAt).forM step

/-- A step that clears what it is done with when it succeeds. -/
def Clears (c : Clearing) (step : Handle → Work Unit) : Prop :=
  ∀ {target : Handle} {w w' : Workspace} {p : Nat}, w.template.WellFormed →
    w.template.locate? target = some p → outcome (step target) w = (.ok (), w') →
      w.template.Cleared c w'.template p

theorem outcome_ifContained (step : Handle → Work Unit) (target : Handle) (w : Workspace) :
    outcome (do if (← template).contains target then step target) w =
      if w.template.contains target then outcome (step target) w else (.ok (), w) := by
  rw [outcome_bind, outcome_template]
  dsimp only
  split <;> rfl

/-- All targets that are left are gone through as the outermost ones among them are. -/
theorem outcome_forM_ifContained (hstep : Clears c step) (wd : d.WellFormed)
    {passed rest : List Nat} (hset : d.IsNodeSet (passed ++ rest))
    (hpassed : d.Passed c w.template passed rest) :
    outcome ((rest.map d.handleAt).forM fun target => do
        if (← template).contains target then step target) w =
      outcome (((rest.filter (d.isOutermost c (passed ++ rest))).map d.handleAt).forM step) w := by
  induction rest generalizing passed w with
  | nil => rfl
  | cons p rest ih =>
    have hfilter := wd.isOutermost_iff (c := c) hset
    have hcontains := hpassed.contains_iff wd (hset.2 p (by simp))
    have hfound : passed ++ p :: rest = (passed ++ [p]) ++ rest := by simp
    rw [List.map_cons]
    change outcome ((do if (← template).contains (d.handleAt p) then step (d.handleAt p)) >>=
      fun _ => (rest.map d.handleAt).forM _) w = _
    rw [outcome_bind, outcome_ifContained]
    by_cases hout : ∀ r ∈ passed, ¬ d.Clears c r p
    · have hcontained := hcontains.mpr hout
      rw [if_pos hcontained, List.filter_cons_of_pos (hfilter.mpr hout), List.map_cons]
      change _ = outcome (step (d.handleAt p) >>= fun _ => List.forM _ step) w
      rw [outcome_bind]
      rcases hresult : outcome (step (d.handleAt p)) w with ⟨_ | _, w'⟩
      · rfl
      · obtain ⟨p', hp'⟩ := Document.contains_iff.mp hcontained
        have hpassed' := hpassed.clear wd hset hout hp' (hstep hpassed.wellFormed hp' hresult)
        rw [hfound] at hset ⊢
        exact ih hset hpassed'
    · rw [if_neg (mt hcontains.mp hout), List.filter_cons_of_neg (mt hfilter.mp hout)]
      simp only [not_forall, not_not, exists_prop] at hout
      have hpassed' := hpassed.skip wd hset hout
      rw [hfound] at hset ⊢
      exact ih hset hpassed'

/-- A step that clears its target is done with the outermost targets alone. -/
theorem outcome_forTargets (hstep : Clears c step) (target : Query) {node : Handle} {p : Nat}
    (hw : w.template.WellFormed) (hp : w.template.locate? node = some p)
    (hq : w.template.IsQueried p) :
    outcome (forTargets target node step) w = outcome (forOutermost c target node step) w := by
  rw [forTargets, forOutermost, outcome_bind, outcome_bind, outcome_find target hp]
  cases hfound : target.select w.template.view p with
  | error e => rfl
  | ok found =>
    have hset := hw.isNodeSet_of_select hq hfound
    exact @outcome_forM_ifContained _ _ _ _ hstep hw [] found hset (.refl hw c found)

/-- Putting a selection into a target clears the content of the target. -/
theorem clears_graft {items : List Item} (hitems : ∀ item ∈ items, item.Sound) :
    Clears .content fun target => edit fun template => template.graft target items := by
  intro target w w' p hw hp h
  exact hw.cleared_of_graft hitems hp (template_of_edit h)

/-- A repetition clears the whole target. -/
theorem clears_multiply {body : Body} (hbody : body.Live) (fills : Bool) (path : String)
    {items : List Item} (hitems : ∀ item ∈ items, item.Sound) :
    Clears .whole (multiply fills body path items) := by
  intro target w w' p hw hp h
  obtain ⟨results, sorted, w₁, hresults, hsorted, hsubstituted⟩ := exists_ranked_of_multiply h
  rw [(forall₂_of_mapM_copyFor hresults).1] at hsubstituted
  have hwell := wellFormed_of_mapM_copyFor hbody hitems hw (Document.contains_iff.mpr ⟨p, hp⟩)
    hresults
  exact hw.cleared_of_substitute (List.forall_mem_map.mpr fun made hmade =>
    hwell made ((SortKeys.perm_of_sort hsorted).mem_iff.mp hmade)) hp hsubstituted

/-- Targets inside of others do not count. Putting a selection into all targets that a query finds
does what putting it into the outermost ones does, where the attributes of an element are outside of
it; and so it is with repeating all targets, where they are inside. -/
theorem forTargets_eq_forOutermost (env : Environment) (instructions : List Instruction)
    (fills : Bool) (path : String) {items : List Item} (target : Query) {node : Handle} {p : Nat}
    (hitems : ∀ item ∈ items, item.Sound) (hw : w.template.WellFormed)
    (hp : w.template.locate? node = some p) (hq : w.template.IsQueried p) :
    let graft : Handle → Work Unit := fun target => edit fun d => d.graft target items
    let multiply : Handle → Work Unit :=
      multiply fills (fun f node => Program.executeAll env f node instructions) path items
    outcome (forTargets target node graft) w =
        outcome (forOutermost .content target node graft) w ∧
      outcome (forTargets target node multiply) w =
        outcome (forOutermost .whole target node multiply) w :=
  ⟨outcome_forTargets (clears_graft hitems) target hw hp hq,
    outcome_forTargets (clears_multiply
      (fun _ node hf => Program.live_executeAll env hf node instructions) fills path hitems)
      target hw hp hq⟩

/-- All that is inside of a list: an item with an attribute, and another list in the item. -/
theorem forTargets_eq_forOutermost_nested :
    let below : Query.Expression := .path .context [.mk .descendant .any []]
    let target : Query := ⟨".//* | .//@*", .binary .union below
      (.path .context [.mk .descendant .any [], .mk .attribute .any []])⟩
    let env : Environment := { load := fun path => .error (.notFound path) }
    let list (inside : List Tree) : Tree := .element (.plain "ul") [] inside
    let item (key : String) (inside : List Tree) : Tree :=
      .element (.plain "li") [(.plain "k", key)] inside
    let template : Document := .ofTrees 1 [list [item "v" [list [.text "y"]]]]
    let graft : Handle → Work Unit := fun target => edit fun d => d.graft target [.text "x"]
    let multiply : Handle → Work Unit :=
      multiply true (fun f node => Program.executeAll env f node []) "" [.text "x"]
    let w : Workspace := { template, nextId := 2 }
    let node := template.handleAt 1
    target.select template.view 1 = .ok [2, 3, 4] ∧
      (outcome (forTargets target node graft) w).2.template.trees = [list [item "x" [.text "x"]]] ∧
      (outcome (forTargets target node multiply) w).2.template.trees =
        [list [item "v" [.text "x"]]] ∧
      outcome (forTargets target node graft) w =
        outcome (forOutermost .content target node graft) w ∧
      outcome (forTargets target node multiply) w =
        outcome (forOutermost .whole target node multiply) w := by
  refine ⟨by cbv, by cbv, by cbv, ?_⟩
  have hitems : ∀ item ∈ [Item.text "x"], item.Sound := by simp [Item.Sound]
  exact @forTargets_eq_forOutermost ⟨_, {}, 2⟩ _ [] true "" [.text "x"] _ _ 1 hitems
    (Document.wellFormed_ofNodes 1 .xml _) (by decide) (by decide)

end Mapping
end MarkupGraft
