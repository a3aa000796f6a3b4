import MarkupGraft.Proofs.Store.Cutting
import MarkupGraft.Template.Run

/-!
Reasoning about steps of a run. A step is live if it keeps the template well formed and never fails
for a stale handle; what it needs of the template that it begins on, and what it has made when it
succeeds, go with it from one step to the next.
-/

namespace MarkupGraft

/-- Whether a result is one for which `good` holds, or an error other than `bad`. -/
def Avoids {ε α : Type} (bad : ε) (result : Except ε α) (good : α → Prop) : Prop :=
  match result with
  | .ok a => good a
  | .error e => e ≠ bad

namespace Avoids
variable {ε ε' α β : Type} {bad : ε} {result : Except ε α} {good good' : α → Prop}

theorem mono (h : Avoids bad result good) (hgood : ∀ a, result = .ok a → good a → good' a) :
    Avoids bad result good' := by
  cases result with
  | ok a => exact hgood a rfl h
  | error e => exact h

theorem pure {a : α} (h : good a) : Avoids bad (Pure.pure a) good := h

theorem ne_error (h : Avoids bad result good) : result ≠ .error bad := by
  rintro rfl
  exact h rfl

theorem of_eq_ok (h : Avoids bad result good) {a : α} (ha : result = .ok a) : good a := by
  subst ha
  exact h

theorem bind {next : α → Except ε β} {good' : β → Prop} (h : Avoids bad result good)
    (hnext : ∀ a, good a → Avoids bad (next a) good') : Avoids bad (result >>= next) good' := by
  cases result with
  | ok a => exact hnext a h
  | error e => exact h

theorem map {f : α → β} {good' : β → Prop} (h : Avoids bad result fun a => good' (f a)) :
    Avoids bad (f <$> result) good' := by
  cases result with
  | ok a => exact h
  | error e => exact h

/-- An error that is passed on under another name. -/
theorem mapError {f : ε → ε'} (h : Avoids bad result good) (hf : ∀ e, f e = f bad → e = bad) :
    Avoids (f bad) (result.mapError f) good := by
  cases result with
  | ok a => exact h
  | error e => exact fun he => h (hf e he)

/-- All errors are passed on under names of their own. -/
theorem mapError_of_ne {f : ε → ε'} {bad' : ε'} (hf : ∀ e, f e ≠ bad')
    (h : ∀ a, result = .ok a → good a) : Avoids bad' (result.mapError f) good := by
  cases result with
  | ok a => exact h a rfl
  | error e => exact hf e

theorem mapM {f : α → Except ε β} {l : List α} {good : β → Prop}
    (h : ∀ a ∈ l, Avoids bad (f a) good) : Avoids bad (l.mapM f) fun bs => ∀ b ∈ bs, good b := by
  induction l with
  | nil => exact fun b hb => nomatch hb
  | cons a l ih =>
    rw [List.mapM_cons]
    refine (h a List.mem_cons_self).bind fun b hb => ?_
    refine (ih fun a' ha => h a' (List.mem_cons_of_mem a ha)).bind fun bs hbs => ?_
    exact List.forall_mem_cons.mpr ⟨hb, hbs⟩

theorem foldlM {f : β → α → Except ε β} {l : List α} {good : β → Prop} {b : β} (hb : good b)
    (h : ∀ b, good b → ∀ a ∈ l, Avoids bad (f b a) good) : Avoids bad (l.foldlM f b) good := by
  induction l generalizing b with
  | nil => exact hb
  | cons a l ih =>
    rw [List.foldlM_cons]
    refine (h b hb a List.mem_cons_self).bind fun b' hb' => ?_
    exact ih hb' fun b hb a' ha => h b hb a' (List.mem_cons_of_mem a ha)

end Avoids

namespace Work
variable {α β : Type}

/-! Running a step -/

/-- What a step gives, and what it leaves behind. -/
def outcome (x : Work α) (w : Workspace) : Except TemplateError α × Workspace := x w

theorem outcome_bind (x : Work α) (next : α → Work β) (w : Workspace) :
    outcome (x >>= next) w =
      match outcome x w with
      | (.ok a, w') => outcome (next a) w'
      | (.error e, w') => (.error e, w') := by
  change ExceptT.bindCont next (x w).1 (x w).2 = _
  rw [outcome]
  rcases x w with ⟨_ | _, _⟩ <;> rfl

/-- What two steps have done that succeed one after the other. -/
theorem bind_eq_ok_iff {x : Work α} {next : α → Work β} {w w'' : Workspace} {b : β} :
    outcome (x >>= next) w = (.ok b, w'') ↔
      ∃ a w', outcome x w = (.ok a, w') ∧ outcome (next a) w' = (.ok b, w'') := by
  rw [outcome_bind]
  rcases outcome x w with ⟨e | a, w'⟩ <;> simp

/-- What each step that succeeds takes from those done with to the next one is so of all behind a
loop. -/
theorem of_forM {step : α → Work PUnit} {holds : List α → Workspace → Prop} {l done : List α}
    {w w' : Workspace} (hstep : ∀ done, ∀ a ∈ l, ∀ w w', holds done w →
      outcome (step a) w = (.ok ⟨⟩, w') → holds (a :: done) w')
    (h : holds done w) (hdone : outcome (l.forM step) w = (.ok ⟨⟩, w')) :
    holds (l.reverse ++ done) w' := by
  induction l generalizing done w with
  | nil =>
    cases hdone
    exact h
  | cons a l ih =>
    change outcome (step a >>= fun _ => l.forM step) w = _ at hdone
    obtain ⟨⟨⟩, w₁, ha, hdone⟩ := bind_eq_ok_iff.mp hdone
    rw [List.reverse_cons, List.append_assoc]
    exact ih (fun done b hb => hstep done b (List.mem_cons_of_mem a hb))
      (hstep done a List.mem_cons_self w w₁ h ha) hdone

@[simp] theorem outcome_lift (result : Except TemplateError α) (w : Workspace) :
    outcome (liftM result) w = (result, w) := rfl

@[simp] theorem outcome_template (w : Workspace) : outcome template w = (.ok w.template, w) := rfl

theorem outcome_detach (target : Handle) (w : Workspace) :
    outcome (detach target) w = ((w.template.detach target w.nextId).mapError .store,
      { w with nextId := w.nextId + 1 }) := rfl

@[simp] theorem outcome_modify (f : Workspace → Workspace) (w : Workspace) :
    outcome (modify f) w = (.ok (), f w) := rfl

@[simp] theorem outcome_aside (d : Document) (step : Work Unit) (w : Workspace) :
    outcome (aside d step) w =
      (((outcome step { template := d, nextId := w.nextId }).1).map fun _ =>
          ((outcome step { template := d, nextId := w.nextId }).2.template,
            (outcome step { template := d, nextId := w.nextId }).2.keys),
        { w with nextId := (outcome step { template := d, nextId := w.nextId }).2.nextId }) := rfl

theorem outcome_edit (f : Document → Except StoreError Document) (w : Workspace) :
    outcome (edit f) w =
      match f w.template with
      | .ok d => (.ok (), { w with template := d })
      | .error e => (.error (.store e), w) := by
  rw [edit, outcome_bind, outcome_template]
  dsimp only
  rw [outcome_bind, outcome_lift]
  cases f w.template <;> rfl

theorem template_of_edit {f : Document → Except StoreError Document} {w w' : Workspace}
    (h : outcome (edit f) w = (.ok (), w')) : f w.template = .ok w'.template := by
  rw [outcome_edit] at h
  cases hd : f w.template with
  | error e =>
    rw [hd] at h
    cases h
  | ok d =>
    rw [hd] at h
    cases h
    rfl

/-- What a query finds from a node that is there. -/
theorem outcome_find (q : Query) {node : Handle} {w : Workspace} {p : Nat}
    (hp : w.template.locate? node = some p) :
    outcome (find q node) w = ((q.select w.template.view p).mapError .query, w) := by
  have hlocate : w.template.locate node = .ok p := by rw [Document.locate, hp]
  rw [find, outcome_bind, outcome_template]
  dsimp only
  rw [outcome_bind, outcome_lift, hlocate]
  rfl

/-! Live steps -/

/-- A step that, begun on a well-formed template for which `pre` holds, leaves a well-formed one, and
does not fail for a stale handle; when it succeeds, `post` holds of what it gives and of the template
that it leaves. -/
def Live (pre : Document → Prop) (x : Work α) (post : α → Document → Prop) : Prop :=
  ∀ w : Workspace, w.template.WellFormed → pre w.template →
    (outcome x w).2.template.WellFormed ∧
      Avoids (.store .staleHandle) (outcome x w).1 fun a => post a (outcome x w).2.template

namespace Live
variable {pre pre' : Document → Prop} {post post' : α → Document → Prop} {x : Work α}

theorem conseq (h : Live pre x post) (hpre : ∀ d, pre' d → pre d)
    (hpost : ∀ a d, post a d → post' a d) : Live pre' x post' := fun w hw hp =>
  have hx := h w hw (hpre _ hp)
  ⟨hx.1, hx.2.mono fun a _ => hpost a _⟩

/-- What is known apart from the template. -/
theorem assuming {p : Prop} (h : p → Live pre x post) : Live (fun d => pre d ∧ p) x post :=
  fun w hw hp => h hp.2 w hw hp.1

theorem pure {a : α} (h : ∀ d, pre d → post a d) : Live pre (Pure.pure a) post :=
  fun w hw hp => ⟨hw, h w.template hp⟩

theorem bind {next : α → Work β} {post' : β → Document → Prop} (h : Live pre x post)
    (hnext : ∀ a, Live (post a) (next a) post') : Live pre (x >>= next) post' := by
  intro w hw hp
  obtain ⟨hw', hgood⟩ := h w hw hp
  rw [outcome_bind]
  rcases hx : outcome x w with ⟨e | a, w'⟩ <;> rw [hx] at hw' hgood
  · exact ⟨hw', hgood⟩
  · exact hnext a w' hw' hgood

theorem lift {result : Except TemplateError α}
    (h : ∀ d, d.WellFormed → pre d → Avoids (.store .staleHandle) result fun a => post a d) :
    Live pre (liftM result) post :=
  fun w hw hp => ⟨hw, h w.template hw hp⟩

theorem template : Live pre template fun a d => pre d ∧ a = d :=
  fun _ hw hp => ⟨hw, hp, rfl⟩

theorem freshId : Live pre freshId fun _ => pre := fun _ hw hp => ⟨hw, hp⟩

theorem modify {f : Workspace → Workspace} (hf : ∀ w, (f w).template = w.template) :
    Live pre (modify f) fun _ => pre := by
  intro w hw hp
  rw [outcome_modify]
  exact ⟨(hf w).symm ▸ hw, show pre (f w).template from (hf w).symm ▸ hp⟩

theorem edit {f : Document → Except StoreError Document} {post : Document → Prop}
    (h : ∀ d, d.WellFormed → pre d →
      Avoids .staleHandle (f d) fun d' => d'.WellFormed ∧ post d') :
    Live pre (edit f) fun _ => post := by
  intro w hw hp
  have hf := h w.template hw hp
  rw [outcome_edit]
  cases hd : f w.template with
  | ok d => exact hf.of_eq_ok hd
  | error e =>
    refine ⟨hw, fun he => hf.ne_error ?_⟩
    rw [hd, TemplateError.store.inj he]

/-- A step on another template leaves the template as it is. -/
theorem aside {d : Document} {step : Work Unit} (hd : d.WellFormed)
    (h : Live (· = d) step fun _ _ => True) :
    Live pre (aside d step) fun made d => pre d ∧ made.1.WellFormed := by
  intro w hw hp
  obtain ⟨hinner, hgood⟩ := h { template := d, nextId := w.nextId } hd rfl
  rw [outcome_aside]
  refine ⟨hw, ?_⟩
  rcases hresult : (outcome step { template := d, nextId := w.nextId }).1 with e | _
  · rw [hresult] at hgood
    exact hgood
  · exact ⟨hp, hinner⟩

theorem mapM {f : α → Work β} {l : List α} {good : β → Prop}
    (h : ∀ a ∈ l, Live pre (f a) fun b d => pre d ∧ good b) :
    Live pre (l.mapM f) fun bs d => pre d ∧ ∀ b ∈ bs, good b := by
  induction l with
  | nil => exact pure fun d hd => ⟨hd, fun b hb => nomatch hb⟩
  | cons a l ih =>
    rw [List.mapM_cons]
    refine (h a List.mem_cons_self).bind fun b => ?_
    refine assuming fun hb => ?_
    refine (ih fun a' ha => h a' (List.mem_cons_of_mem a ha)).bind fun bs => pure fun d hd => ?_
    exact ⟨hd.1, List.forall_mem_cons.mpr ⟨hb, hd.2⟩⟩

theorem forM {f : α → Work PUnit} {l : List α} (h : ∀ a ∈ l, Live pre (f a) fun _ => pre) :
    Live pre (l.forM f) fun _ => pre := by
  induction l with
  | nil => exact pure fun _ hd => hd
  | cons a l ih =>
    change Live pre (f a >>= fun _ => l.forM f) _
    exact (h a List.mem_cons_self).bind fun _ => ih fun a' ha => h a' (List.mem_cons_of_mem a ha)

end Live

/-! Parts of a workspace that a step leaves as they are -/

/-- A step that leaves a part of the workspace as it is, also when it fails. -/
def Leaves {γ : Type} (part : Workspace → γ) (x : Work α) : Prop :=
  ∀ w : Workspace, part (outcome x w).2 = part w

namespace Leaves
variable {γ : Type} {part : Workspace → γ}

theorem eq {x : Work α} (h : Leaves part x) {w w' : Workspace} {result : Except TemplateError α}
    (hx : outcome x w = (result, w')) : part w' = part w := by
  have hw := h w
  rwa [hx] at hw

theorem pure (a : α) : Leaves part (Pure.pure a : Work α) := fun _ => rfl

theorem lift (result : Except TemplateError α) : Leaves part (liftM result : Work α) := fun _ => rfl

theorem template : Leaves part template := fun _ => rfl

theorem modify {f : Workspace → Workspace} (h : ∀ w, part (f w) = part w) :
    Leaves part (modify f : Work PUnit) := h

theorem bind {x : Work α} {next : α → Work β} (hx : Leaves part x)
    (hnext : ∀ a, Leaves part (next a)) : Leaves part (x >>= next) := by
  intro w
  have hw := hx w
  rw [outcome_bind]
  rcases hresult : outcome x w with ⟨e | a, w'⟩ <;> rw [hresult] at hw
  · exact hw
  · exact (hnext a w').trans hw

theorem mapM {f : α → Work β} {l : List α} (h : ∀ a ∈ l, Leaves part (f a)) :
    Leaves part (l.mapM f) := by
  induction l with
  | nil => exact pure []
  | cons a l ih =>
    rw [List.mapM_cons]
    obtain ⟨ha, hl⟩ := List.forall_mem_cons.mp h
    exact ha.bind fun _ => (ih hl).bind fun _ => pure _

theorem forM {f : α → Work PUnit} {l : List α} (h : ∀ a ∈ l, Leaves part (f a)) :
    Leaves part (l.forM f) := by
  induction l with
  | nil => exact pure ()
  | cons a l ih =>
    change Leaves part (f a >>= fun _ => l.forM f)
    obtain ⟨ha, hl⟩ := List.forall_mem_cons.mp h
    exact ha.bind fun _ => ih hl

theorem edit (f : Document → Except StoreError Document)
    (h : ∀ (w : Workspace) template, part { w with template } = part w) :
    Leaves part (edit f) := by
  intro w
  rw [outcome_edit]
  split
  · exact h w _
  · rfl

section
variable (h : ∀ (w : Workspace) nextId, part { w with nextId } = part w)
include h

theorem freshId : Leaves part freshId := fun w => h w _

theorem detach (target : Handle) : Leaves part (detach target) := fun w => h w _

/-- What is done on another template is not done on this one. -/
theorem aside (d : Document) (step : Work Unit) : Leaves part (aside d step) := fun w => h w _

end
end Leaves
end Work
end MarkupGraft
