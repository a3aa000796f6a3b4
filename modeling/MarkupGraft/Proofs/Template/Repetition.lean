import MarkupGraft.Proofs.Template.Copies
import MarkupGraft.Proofs.Template.Liveness

/-!
Repetitions. For each item there is one copy of the target, which the instructions inside have run
through; the contents of the copies stand where the target stood, in the order of their keys.
-/

namespace MarkupGraft

/-- Where instructions select for an item: the item itself, or a document of its text. -/
def Item.frame (id : Nat) (path : String) : Item → Frame
  | .node source position => ⟨source, position, path⟩
  | .text value => ⟨.ofText id value, 0, path⟩

/-- A detached copy of a target, in which an item has taken the place of the content if the copy is to
be filled. -/
def Document.Prepares (d : Document) (target : Handle) (fills : Bool) (item : Item)
    (start : Document) (node : Handle) : Prop :=
  ∃ id copy p t, d.detach target id = .ok (copy, node) ∧ d.locate? target = some p ∧
    d.treesAt p = [t] ∧ copy.Holds node t ∧
      if fills then
        copy.fill node item = .ok start ∧ ∃ content,
          List.Forall₂ Tree.DeclaredAs item.content content ∧
            start.Holds node (t.withContent content item.toText)
      else start = copy

namespace Mapping
open Work

/-- What is made for an item: a copy of the target, filled unless there are mappings among the
instructions, that the instructions have run through with the item for a source, and the keys that
they have emitted. -/
def MadeFor (env : Environment) (instructions : List Instruction) (path : String)
    (template : Document) (target : Handle) (item : Item) (made : Document × SortKeys) : Prop :=
  ∃ start node id nextId inner,
    template.Prepares target (!instructions.any Instruction.isMap) item start node ∧
      outcome (Program.executeAll env (item.frame id path) node instructions)
        { template := start, nextId } = (.ok (), inner) ∧
      made = (inner.template, inner.keys)

variable {body : Body} {path : String} {target node : Handle} {item : Item} {w w' : Workspace}
  {made : Document × SortKeys}

/-- A step on another template has succeeded there. -/
theorem exists_inner_of_aside {copy : Document} {step : Work Unit}
    (h : outcome (aside copy step) w = (.ok made, w')) :
    w'.template = w.template ∧ ∃ nextId inner,
      outcome step { template := copy, nextId } = (.ok (), inner) ∧
        made = (inner.template, inner.keys) := by
  rw [outcome_aside, Prod.mk.injEq] at h
  obtain ⟨hmade, rfl⟩ := h
  obtain ⟨⟨⟩, hresult, rfl⟩ := Markup.map_eq_ok_iff.mp hmade
  exact ⟨rfl, w.nextId, _, Prod.ext hresult rfl, rfl⟩

/-- The instructions have run through the copy alone. -/
theorem exists_inner_of_templated {copy : Document}
    (h : outcome (templated body path copy node item) w = (.ok made, w')) :
    w'.template = w.template ∧ ∃ id nextId inner,
      outcome (body (item.frame id path) node) { template := copy, nextId } = (.ok (), inner) ∧
        made = (inner.template, inner.keys) := by
  cases item with
  | node source position =>
    obtain ⟨htemplate, hinner⟩ := exists_inner_of_aside h
    exact ⟨htemplate, 0, hinner⟩
  | text value =>
    obtain ⟨id, w₁, hid, h⟩ := bind_eq_ok_iff.mp h
    cases hid
    obtain ⟨htemplate, hinner⟩ := exists_inner_of_aside h
    exact ⟨htemplate, w.nextId, hinner⟩

/-- What the copy for an item is made of; the template stays as it is. -/
theorem exists_prepared_of_copyFor {fills : Bool}
    (h : outcome (copyFor fills body path target item) w = (.ok made, w')) :
    w'.template = w.template ∧ ∃ id copy node start,
      w.template.detach target id = .ok (copy, node) ∧
      filled fills copy node item = .ok start ∧ ∃ id nextId inner,
        outcome (body (item.frame id path) node) { template := start, nextId } = (.ok (), inner) ∧
          made = (inner.template, inner.keys) := by
  rw [copyFor_eq] at h
  obtain ⟨⟨copy, node⟩, w₁, hdetach, h⟩ := bind_eq_ok_iff.mp h
  obtain ⟨start, w₂, hstart, h⟩ := bind_eq_ok_iff.mp h
  rw [outcome_detach, Prod.mk.injEq] at hdetach
  obtain ⟨hcopy, rfl⟩ := hdetach
  rw [outcome_lift, Prod.mk.injEq] at hstart
  obtain ⟨hfilled, rfl⟩ := hstart
  obtain ⟨htemplate, hinner⟩ := exists_inner_of_templated h
  exact ⟨htemplate, w.nextId, copy, node, start, Query.mapError_eq_ok_iff.mp hcopy,
    Query.mapError_eq_ok_iff.mp hfilled, hinner⟩

/-- The copies for all items are made on one and the same template. -/
theorem forall₂_of_mapM_copyFor {fills : Bool} {items : List Item}
    {results : List (Document × SortKeys)}
    (h : outcome (items.mapM (copyFor fills body path target)) w = (.ok results, w')) :
    w'.template = w.template ∧ List.Forall₂ (fun item made => ∃ w₁ w₂, w₁.template = w.template ∧
      outcome (copyFor fills body path target item) w₁ = (.ok made, w₂)) items results := by
  induction items generalizing w results with
  | nil =>
    cases h
    exact ⟨rfl, .nil⟩
  | cons item items ih =>
    rw [List.mapM_cons] at h
    obtain ⟨made, w₁, hmade, h⟩ := bind_eq_ok_iff.mp h
    obtain ⟨others, w₂, hothers, h⟩ := bind_eq_ok_iff.mp h
    cases h
    have hkept := (exists_prepared_of_copyFor hmade).1
    obtain ⟨htemplate, hothers⟩ := ih hothers
    rw [hkept] at htemplate hothers
    exact ⟨htemplate, .cons ⟨w, w₁, rfl, hmade⟩ hothers⟩

/-- The copies in order, and what comes of the template when they are put into it. -/
theorem exists_ranked_of_multiply {fills : Bool} {items : List Item}
    (h : outcome (multiply fills body path items target) w = (.ok (), w')) :
    ∃ results sorted w₁, outcome (items.mapM (copyFor fills body path target)) w = (.ok results, w₁) ∧
      SortKeys.sort results = .ok sorted ∧
      w₁.template.substitute target (sorted.map (·.1)) = .ok w'.template := by
  obtain ⟨results, w₁, hresults, h⟩ := bind_eq_ok_iff.mp h
  obtain ⟨copies, w₂, hcopies, h⟩ := bind_eq_ok_iff.mp h
  rw [outcome_lift, Prod.mk.injEq] at hcopies
  obtain ⟨hranked, rfl⟩ := hcopies
  obtain ⟨sorted, hsorted, rfl⟩ := Markup.map_eq_ok_iff.mp (Query.mapError_eq_ok_iff.mp hranked)
  exact ⟨results, sorted, w₁, hresults, hsorted, template_of_edit h⟩

theorem wellFormed_of_mapM_copyFor (hbody : body.Live) {fills : Bool} {items : List Item}
    (hitems : ∀ item ∈ items, item.Sound) (hw : w.template.WellFormed)
    (ht : w.template.contains target) {results : List (Document × SortKeys)}
    (h : outcome (items.mapM (copyFor fills body path target)) w = (.ok results, w')) :
    ∀ made ∈ results, made.1.WellFormed := by
  have hlive := Live.mapM fun item hitem =>
    live_copyFor hbody fills path target (hitems item hitem)
  have hresults := (hlive w hw ht).2
  rw [h] at hresults
  exact hresults.2

/-- A copy of a branch is prepared as the item asks for, and the instructions run through it. -/
theorem madeFor_of_copyFor {env : Environment} {instructions : List Instruction} {b : Branch}
    {before after : List Entry} (hw : w.template.WellFormed)
    (hs : Branch.Stands b w.template.tree.children before after)
    (hp : w.template.locate? target = some (before.length + 1)) (hitem : item.Sound)
    (h : outcome (copyFor (!instructions.any Instruction.isMap)
      (fun f node => Program.executeAll env f node instructions) path target item) w =
        (.ok made, w')) :
    MadeFor env instructions path w.template target item made := by
  obtain ⟨-, id, copy, node, start, hcopy, hstart, source, nextId, inner, hinner, rfl⟩ :=
    exists_prepared_of_copyFor h
  have hholds := hw.holds_of_detach hs hp hcopy
  refine ⟨start, node, source, nextId, inner, ⟨id, copy, _, _, hcopy, hp,
    (hw.extract_of_stands hs hp).2, hholds, ?_⟩, hinner, rfl⟩
  cases hfills : !instructions.any Instruction.isMap with
  | false =>
    rw [hfills] at hstart
    cases hstart
    rfl
  | true =>
    rw [hfills] at hstart
    exact ⟨hstart, hholds.filled hitem hstart⟩

/-- A repetition puts exactly one result for each item in the place of its target: the target is gone,
its parent has the contents of the copies for it, in the order of their keys, and nothing else of the
template has changed. -/
theorem multiply_replaces (env : Environment) (instructions : List Instruction) (path : String)
    {items : List Item} (target : Handle) {w w' : Workspace} (hne : items ≠ [])
    (hitems : ∀ item ∈ items, item.Sound) (hw : w.template.WellFormed)
    (h : outcome (multiply (!instructions.any Instruction.isMap)
      (fun f node => Program.executeAll env f node instructions) path items target) w =
        (.ok (), w')) :
    ∃ results sorted inserted,
      List.Forall₂ (MadeFor env instructions path w.template target) items results ∧
        SortKeys.sort results = .ok sorted ∧ sorted.Perm results ∧
        List.Forall₂ Tree.DeclaredAs (sorted.flatMap fun made => made.1.trees)
          (Branch.eraseAll inserted) ∧
        w.template.Replaced w'.template target inserted := by
  obtain ⟨results, sorted, w₁, hresults, hsorted, hsubstituted⟩ := exists_ranked_of_multiply h
  have hperm := SortKeys.perm_of_sort hsorted
  obtain ⟨hkept, hcopied⟩ := forall₂_of_mapM_copyFor hresults
  rw [hkept] at hsubstituted
  have hcopies : sorted.map (·.1) ≠ [] := by
    rintro hnil
    rw [List.map_eq_nil_iff.mp hnil] at hperm
    rw [← hperm.nil_eq, List.forall₂_nil_right_iff] at hcopied
    exact hne hcopied
  obtain ⟨b, before, after, hs, ht, hp⟩ := hw.exists_stands_of_substitute hcopies hsubstituted
  have hmade : List.Forall₂ (MadeFor env instructions path w.template target) items results := by
    refine ((List.forall₂_and_left _ _).mpr ⟨hitems, hcopied⟩).imp ?_
    rintro item made ⟨hitem, v, v', hv, hmade⟩
    rw [← hv] at hw hs hp ⊢
    exact madeFor_of_copyFor hw hs hp hitem hmade
  have hwell := wellFormed_of_mapM_copyFor
    (fun f node hf => Program.live_executeAll env hf node instructions) hitems hw
    (Document.contains_iff.mpr ⟨_, hp⟩) hresults
  obtain ⟨inserted, hreplaced, hdeclared⟩ := hw.replaced (List.forall_mem_map.mpr fun made hm =>
    hwell made (hperm.mem_iff.mp hm)) hcopies hsubstituted
  rw [List.flatMap_map] at hdeclared
  exact ⟨results, sorted, inserted, hmade, hsorted, hperm, hdeclared, hreplaced⟩

/-- Two texts that a list takes in the order of their keys. -/
theorem multiply_replaces_sorted :
    let self : Query := ⟨".", .path .context [.mk .self .node []]⟩
    let instructions : List Instruction := [.sort .ascending self none]
    let env : Environment := { load := fun path => .error (.notFound path) }
    let template : Document :=
      .ofTrees 1 [.element (.plain "ul") [] [.element (.plain "li") [] []]]
    let items : List Item := [.text "b", .text "a"]
    let made := outcome (multiply (!instructions.any Instruction.isMap)
      (fun f node => Program.executeAll env f node instructions) "" items (template.handleAt 2))
      { template, nextId := 2 }
    made.1 = .ok () ∧
      made.2.template.trees = [.element (.plain "ul") []
        [.element (.plain "li") [] [.text "a"], .element (.plain "li") [] [.text "b"]]] ∧
      ∃ results sorted inserted,
        List.Forall₂ (MadeFor env instructions "" template (template.handleAt 2)) items results ∧
          SortKeys.sort results = .ok sorted ∧ sorted.Perm results ∧
          List.Forall₂ Tree.DeclaredAs (sorted.flatMap fun made => made.1.trees)
            (Branch.eraseAll inserted) ∧
          template.Replaced made.2.template (template.handleAt 2) inserted := by
  refine ⟨by cbv, by cbv, ?_⟩
  have hitems : ∀ item ∈ [Item.text "b", .text "a"], item.Sound := by simp [Item.Sound]
  exact @multiply_replaces _ _ "" [.text "b", .text "a"] _ ⟨_, {}, 2⟩ _ (by decide) hitems
    (Document.wellFormed_ofNodes 1 .xml _) (Prod.ext (by cbv) rfl)

end Mapping
end MarkupGraft
