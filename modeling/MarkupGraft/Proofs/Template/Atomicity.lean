import MarkupGraft.Proofs.Template.Repetition

/-!
Repetitions and fetches do all or nothing. What can fail is done on copies, and the directions of all
keys are compared, before anything comes into the template. There the copies come one after the other;
but when the first of them can stand in front of the target, so can those behind it, and the target
can be taken away.
-/

namespace MarkupGraft
open Branch (Stands)
open Work

namespace Document
variable {d d' : Document} {b : Branch} {before after : List Entry} {new : List Branch}
  {target : Handle}

/-- A branch takes siblings in front of it, and can be removed. -/
theorem WellFormed.exists_edit_of_stands (w : d.WellFormed)
    (hs : Stands b d.tree.children before after) {e : Edit Fragment}
    (ht : e.target = ⟨d.id, b.ident⟩)
    (he : e.operation = .insertBefore ∨ e.operation = .remove) : ∃ d', d.edit e = .ok d' := by
  obtain ⟨node, rest, hb, hchild, hdocument⟩ := b.entries_head
  have hlocated := w.locate?_of_stands hs
  rw [← ht] at hlocated
  refine ⟨_, d.edit_eq_ok_iff.mpr ⟨_, hlocated, ?_, rfl⟩⟩
  rw [w.node_of_stands hs hb]
  cases e with
  | insertBefore => simp [Edit.supports, hchild, hdocument]
  | remove =>
    have hfinish : node ≠ .finish := by
      rintro rfl
      cases hchild
    simp [Edit.supports, hdocument, hfinish]
  | _ => rcases he with he | he <;> cases he

/-- Once something has come in front of a target, nothing fails that comes behind it. -/
theorem Extended.exists_foldlM (w : d.WellFormed) (h : d.Extended d' b before after new)
    (ht : target = ⟨d.id, b.ident⟩) {copies : List Document}
    (hcopies : ∀ copy ∈ copies, copy.WellFormed) :
    ∃ d'' new', copies.foldlM (fun d copy => d.insertBefore target copy.contents) d' = .ok d'' ∧
      d.Extended d'' b before after new' := by
  have ht' : target = ⟨d'.id, b.ident⟩ := by rw [ht, h.follows.id_eq]
  induction copies generalizing d' new with
  | nil => exact ⟨d', new, rfl, h⟩
  | cons copy copies ih =>
    obtain ⟨hcopy, hrest⟩ := List.forall_mem_cons.mp hcopies
    obtain ⟨d₁, hd₁⟩ := h.wellFormed.exists_edit_of_stands h.stands
      (e := .insertBefore target copy.contents) ht' (.inl rfl)
    obtain ⟨more, hextended, -⟩ := h.insertBefore w (by rw [ht]) hcopy.complete_contents hd₁
    have ht₁ : target = ⟨d₁.id, b.ident⟩ := by rw [ht, hextended.follows.id_eq]
    obtain ⟨d'', new', hd'', hextended'⟩ := ih hextended hrest ht₁
    have hinserted : d'.insertBefore target copy.contents = .ok d₁ := hd₁
    refine ⟨d'', new', ?_, hextended'⟩
    rw [List.foldlM_cons, hinserted]
    exact hd''

end Document

namespace Work
variable {α : Type} {f : α → Document → Except StoreError Document} {w : Workspace}

/-- Edits that succeed one after the other do what they do together. -/
theorem outcome_forM_edit {l : List α} {d : Document}
    (h : l.foldlM (fun d a => f a d) w.template = .ok d) :
    outcome (l.forM fun a => edit (f a)) w = (.ok (), { w with template := d }) := by
  induction l generalizing w with
  | nil =>
    cases h
    rfl
  | cons a l ih =>
    rw [List.foldlM_cons] at h
    obtain ⟨d', hd', h⟩ := Markup.bind_eq_ok_iff.mp h
    change outcome (edit (f a) >>= fun _ => l.forM fun a => edit (f a)) w = _
    rw [outcome_bind, outcome_edit, hd']
    exact ih h

/-- Puts copies into the template one after the other, and takes the target away at the end. An edit
that fails leaves what those before it have done. -/
def substituteInTurn (target : Handle) (copies : List Document) : Work Unit := do
  copies.forM fun copy => edit fun template => template.insertBefore target copy.contents
  edit fun template => template.remove target

/-- Only the first of the copies can be refused, and then nothing has been done. -/
theorem outcome_substituteInTurn (hw : w.template.WellFormed) {target : Handle}
    {copies : List Document} (hcopies : ∀ copy ∈ copies, copy.WellFormed) :
    outcome (substituteInTurn target copies) w =
      outcome (edit fun template => template.substitute target copies) w := by
  cases copies with
  | nil => rfl
  | cons copy copies =>
    rw [substituteInTurn, outcome_bind, outcome_edit]
    cases hd : w.template.insertBefore target copy.contents with
    | error e =>
      have hforM : outcome ((copy :: copies).forM fun copy =>
          edit fun template => template.insertBefore target copy.contents) w =
            (.error (.store e), w) := by
        change outcome (edit (fun template => template.insertBefore target copy.contents) >>= _) w = _
        rw [outcome_bind, outcome_edit, hd]
      have hsubstitute : w.template.substitute target (copy :: copies) = .error e := by
        rw [Document.substitute, List.foldlM_cons, hd]
        rfl
      rw [hforM, hsubstitute]
    | ok d =>
      obtain ⟨b, before, after, hs, ht, -⟩ := hw.exists_stands_of_insertBefore hd
      obtain ⟨filled, new, hfilled, hextended⟩ :=
        (Document.Extended.refl hw hs).exists_foldlM hw ht hcopies
      have ht' : target = ⟨filled.id, b.ident⟩ := by rw [ht, hextended.follows.id_eq]
      obtain ⟨d', hd'⟩ := hextended.wellFormed.exists_edit_of_stands hextended.stands
        (e := .remove target) ht' (.inr rfl)
      have hremoved : filled.remove target = .ok d' := hd'
      have hsubstitute : w.template.substitute target (copy :: copies) = .ok d' :=
        Markup.bind_eq_ok_iff.mpr ⟨filled, hfilled, hremoved⟩
      rw [outcome_forM_edit hfilled, hsubstitute]
      dsimp only
      rw [outcome_edit, hremoved]

end Work

/-- The template and the keys that have been emitted for it. -/
def Workspace.made (w : Workspace) : Document × SortKeys := (w.template, w.keys)

namespace Mapping
variable {body : Body} {env : Environment} {path : String} {target node : Handle} {f : Frame}
  {w : Workspace}

/-- A repetition that puts its copies into the template one after the other. -/
def multiplyInTurn (fills : Bool) (body : Body) (path : String) (items : List Item)
    (target : Handle) : Work Unit := do
  let copies ← ranked (← items.mapM (copyFor fills body path target))
  substituteInTurn target copies

theorem leaves_copyFor (fills : Bool) (item : Item) :
    Leaves Workspace.made (copyFor fills body path target item) := by
  rw [copyFor_eq]
  have hnext (w : Workspace) (nextId : Nat) : { w with nextId }.made = w.made := rfl
  refine (Leaves.detach hnext target).bind fun _ => (Leaves.lift _).bind fun _ => ?_
  cases item with
  | node source position => exact Leaves.aside hnext _ _
  | text value => exact (Leaves.freshId hnext).bind fun _ => Leaves.aside hnext _ _

theorem leaves_contentFor (item : Item) :
    Leaves Workspace.made (contentFor env body f node item) := by
  have hnext (w : Workspace) (nextId : Nat) : { w with nextId }.made = w.made := rfl
  refine (Leaves.freshId hnext).bind fun _ => (Leaves.lift _).bind fun _ => ?_
  refine (Leaves.detach hnext node).bind fun _ => (Leaves.aside hnext _ _).bind fun _ => ?_
  exact (Leaves.lift _).bind fun _ => Leaves.pure _

/-- When copies have been made, they are of a target that is there. -/
theorem wellFormed_of_mapM_copyFor_ok (hbody : body.Live) {fills : Bool} {items : List Item}
    (hitems : ∀ item ∈ items, item.Sound) (hw : w.template.WellFormed) {w' : Workspace}
    {results : List (Document × SortKeys)}
    (h : outcome (items.mapM (copyFor fills body path target)) w = (.ok results, w')) :
    ∀ made ∈ results, made.1.WellFormed := by
  cases items with
  | nil =>
    cases h
    exact fun made hmade => nomatch hmade
  | cons item items =>
    obtain ⟨-, hcopied⟩ := forall₂_of_mapM_copyFor h
    obtain ⟨made, others, ⟨w₁, w₂, hw₁, hmade⟩, -, -⟩ := List.forall₂_cons_left_iff.mp hcopied
    obtain ⟨-, id, copy, inner, start, hdetach, -⟩ := exists_prepared_of_copyFor hmade
    obtain ⟨p, hp, -⟩ := Markup.bind_eq_ok_iff.mp hdetach
    have ht : w.template.contains target := by
      rw [← hw₁]
      cases hlocated : w₁.template.locate? target with
      | some p => exact Document.contains_iff.mpr ⟨p, hlocated⟩
      | none =>
        rw [Document.locate, hlocated] at hp
        cases hp
    exact wellFormed_of_mapM_copyFor hbody hitems hw ht h

/-- Copies that come in one after the other come in as they do together. -/
theorem outcome_multiplyInTurn (hbody : body.Live) (fills : Bool) {items : List Item}
    (hitems : ∀ item ∈ items, item.Sound) (hw : w.template.WellFormed) :
    outcome (multiplyInTurn fills body path items target) w =
      outcome (multiply fills body path items target) w := by
  have hmade : Leaves Workspace.made (items.mapM (copyFor fills body path target)) :=
    Leaves.mapM fun item _ => leaves_copyFor fills item
  have hleaves := hmade w
  rw [multiplyInTurn, multiply, outcome_bind, outcome_bind]
  rcases hresults : outcome (items.mapM (copyFor fills body path target)) w with ⟨e | results, w₁⟩
  · rfl
  · rw [hresults] at hleaves
    have htemplate : w₁.template = w.template := congrArg Prod.fst hleaves
    have hwell := wellFormed_of_mapM_copyFor_ok hbody hitems hw hresults
    dsimp only
    rw [outcome_bind, outcome_bind, outcome_lift]
    cases hranked : ranked results with
    | error e => rfl
    | ok copies => exact outcome_substituteInTurn (htemplate ▸ hw) ((avoids_ranked hwell).of_eq_ok hranked)

/-- An edit is the only step that can change the template, and it is the last one. -/
theorem made_of_error {α β : Type} {x : Work α} {next : α → Except TemplateError β}
    {change : β → Document → Except StoreError Document} (hx : Leaves Workspace.made x)
    {e : TemplateError} {w' : Workspace}
    (h : outcome (do
      let b ← next (← x)
      edit (change b)) w = (.error e, w')) : w'.made = w.made := by
  have hleaves := hx w
  rw [outcome_bind] at h
  rcases hresult : outcome x w with ⟨e₁ | a, w₁⟩ <;> rw [hresult] at h hleaves
  · cases h
    exact hleaves
  · dsimp only at h
    rw [outcome_bind, outcome_lift] at h
    cases hnext : next a with
    | error e₁ =>
      rw [hnext] at h
      cases h
      exact hleaves
    | ok b =>
      rw [hnext] at h
      dsimp only at h
      rw [outcome_edit] at h
      split at h
      · cases h
      · cases h
        exact hleaves

/-- Repetitions and fetches do all or nothing. A repetition that ends with an error, for whatever item,
however deep in the instructions inside or in the end when the copies are put in order, has left the
template with all its nodes and their handles as it was, and so has a fetch. That holds when the
copies come into the template one after the other, too, since none of them fails behind the first. -/
theorem all_or_nothing (env : Environment) (instructions : List Instruction) (f : Frame)
    {items : List Item} (target node : Handle) (hitems : ∀ item ∈ items, item.Sound)
    (hw : w.template.WellFormed) :
    let fills := !instructions.any Instruction.isMap
    let body : Body := fun f node => Program.executeAll env f node instructions
    outcome (multiply fills body f.path items target) w =
        outcome (multiplyInTurn fills body f.path items target) w ∧
      (∀ e w', outcome (multiplyInTurn fills body f.path items target) w = (.error e, w') →
        w'.template = w.template ∧ w'.keys = w.keys) ∧
      ∀ e w', outcome (fetch env body f node items) w = (.error e, w') →
        w'.template = w.template ∧ w'.keys = w.keys := by
  intro fills body
  have hbody : body.Live := fun f node hf => Program.live_executeAll env hf node instructions
  have hturn : outcome (multiplyInTurn fills body f.path items target) w =
      outcome (multiply fills body f.path items target) w :=
    outcome_multiplyInTurn hbody fills hitems hw
  refine ⟨hturn.symm, fun e w' h => ?_, fun e w' h => ?_⟩
  · rw [hturn] at h
    have hmade := made_of_error (Leaves.mapM fun item _ => leaves_copyFor fills item) h
    exact Prod.mk.inj hmade
  · have hmade := made_of_error (Leaves.mapM fun item _ => leaves_contentFor item) h
    exact Prod.mk.inj hmade

/-- Copies for two items have been made and filled before their keys turn out to have different
directions; a document that is to be fetched is missing. -/
theorem all_or_nothing_late :
    let step (axis : Query.Axis) (test : Query.NodeTest) : Query :=
      ⟨"", .path .context [.mk axis test []]⟩
    let instructions : List Instruction :=
      [.sort .ascending (step .attribute (.name "d")) none, .sort .descending (step .self .node) none]
    let env : Environment := { load := fun path => .error (.notFound path) }
    let source : Document := .ofTrees 0 [.element (.plain "r") []
      [.element (.plain "i") [(.plain "d", "1")] [.text "a"], .element (.plain "i") [] [.text "b"]]]
    let template : Document :=
      .ofTrees 1 [.element (.plain "ul") [] [.element (.plain "li") [] []]]
    let f : Frame := ⟨source, 1, ""⟩
    let items : List Item := [.node source 2, .node source 6]
    let w : Workspace := { template, nextId := 2 }
    let body : Body := fun f node => Program.executeAll env f node instructions
    let fills := !instructions.any Instruction.isMap
    let repeated := outcome (multiplyInTurn fills body f.path items (template.handleAt 2)) w
    let fetched := outcome (fetch env body f (template.handleAt 1) items) w
    (repeated.1 = .error (.sortConflict ⟨0⟩) ∧
        fetched.1 = .error (.missingResource "a" (.notFound "a"))) ∧
      repeated.2.template = template ∧ fetched.2.template = template := by
  intro step instructions env source template f items w body fills repeated fetched
  have hresults : repeated.1 = .error (.sortConflict ⟨0⟩) ∧
      fetched.1 = .error (.missingResource "a" (.notFound "a")) := by
    revert step
    exact ⟨by cbv, by cbv⟩
  have wsource : source.WellFormed := Document.wellFormed_ofNodes 0 .xml _
  have hitems : ∀ item ∈ items, item.Sound := by
    simp only [items, List.forall_mem_cons]
    exact ⟨⟨wsource, by decide⟩, ⟨wsource, by decide⟩, fun _ h => absurd h List.not_mem_nil⟩
  have hw : w.template.WellFormed := Document.wellFormed_ofNodes 1 .xml _
  obtain ⟨-, hrepeated, hfetched⟩ :=
    all_or_nothing env instructions f (template.handleAt 2) (template.handleAt 1) hitems hw
  exact ⟨hresults, (hrepeated _ repeated.2 (Prod.ext hresults.1 rfl)).1,
    (hfetched _ fetched.2 (Prod.ext hresults.2 rfl)).1⟩

end Mapping
end MarkupGraft
