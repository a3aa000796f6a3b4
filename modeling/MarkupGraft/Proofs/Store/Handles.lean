import MarkupGraft.Proofs.Store.Following
import MarkupGraft.Proofs.Store.Session

/-!
Handles through a session. A handle resolves until an edit discards its node, and never again
afterwards; while it resolves it names the same node.
-/

namespace MarkupGraft
namespace Session
variable (s : Session) (i : Nat) (h : Handle)

/-- Whether the action is an edit of the document at `i` that succeeds and discards the node that the
handle names there. -/
def Discards : Action → Prop
  | .edit j e => j = i ∧ ∃ (d d' : Document) (e' : Edit Fragment) (p q : Nat),
      s.documents[i]? = some d ∧ e.resolve? s.fragments = some e' ∧ d.edit e' = .ok d' ∧
        d.locate? e'.target = some p ∧ d.locate? h = some q ∧ e'.Discards d p q
  | _ => False

/-- The text that the action gives to the leaf that the handle names in the document at `i`. -/
def textFor? : Action → Option String
  | .edit j e =>
    if j = i then do
      let d ← s.documents[i]?
      let e' ← e.resolve? s.fragments
      let p ← d.locate? e'.target
      let q ← d.locate? h
      e'.textFor? d p q
    else none
  | _ => none

/-- Whether one of the actions discards the node. -/
def DiscardsIn : Session → List Action → Prop
  | _, [] => False
  | s, a :: actions => s.Discards i h a ∨ DiscardsIn (s.step a) actions

/-- The last text that the actions give to the leaf, or the one it has when they give none. -/
def textAfter : Session → List Action → String → String
  | _, [], value => value
  | s, a :: actions, value => textAfter (s.step a) actions ((s.textFor? i h a).getD value)

variable {s i h} {d : Document}

private theorem follows_same (hs : s.documents[i]? = some d) {a : Action}
    (hsame : (s.step a).documents[i]? = s.documents[i]?) (hg : ∀ h, ¬s.Discards i h a)
    (ht : ∀ h, s.textFor? i h a = none) :
    ∃ d', (s.step a).documents[i]? = some d' ∧
      d.Follows d' (s.Discards i · a) (fun h value => (s.textFor? i h a).getD value) := by
  refine ⟨d, hsame.trans hs, (Document.Follows.refl d).congr (fun _ => ?_) fun _ => ?_⟩
  · simp [hg]
  · funext value
    rw [ht]
    rfl

private theorem documents_found {α : Type} {next : α → Session} {place : Option α}
    (hnext : ∀ a, (next a).documents[i]? = some d) (hs : s.documents[i]? = some d) :
    (s.found next place).documents[i]? = some d := by
  cases place with
  | some a => exact hnext a
  | none => exact hs

private theorem documents_attempt {ε α : Type} {next : α → Session} {result : Except ε α}
    (hnext : ∀ a, (next a).documents[i]? = some d) (hs : s.documents[i]? = some d) :
    (s.attempt next result).documents[i]? = some d := by
  cases result with
  | ok a => exact hnext a
  | error => exact hs

private theorem documents_addDocument (hs : s.documents[i]? = some d) (d' : Document) :
    (s.addDocument d').documents[i]? = some d := by
  have hlt := (List.getElem?_eq_some_iff.mp hs).1
  rw [addDocument, List.getElem?_append_left hlt, hs]

/-- An action that is no edit changes no document. -/
private theorem documents_step (hs : s.documents[i]? = some d) {a : Action}
    (ha : ∀ j e, a ≠ .edit j e) : (s.step a).documents[i]? = some d := by
  cases a with
  | parse mode input => exact documents_attempt (documents_addDocument hs) hs
  | empty | ofText => exact documents_addDocument hs _
  | ofFragment | copy => exact documents_found (fun _ => documents_addDocument hs _) hs
  | copySubtree =>
    exact documents_found (fun _ => documents_attempt (documents_addDocument hs) hs) hs
  | skipId | text | emptyFragment => exact hs
  | contents => exact documents_found (fun _ => hs) hs
  | extract => exact documents_found (fun _ => documents_attempt (fun _ => hs) hs) hs
  | append => exact documents_found (fun _ => documents_found (fun _ => hs) hs) hs
  | edit j e => exact absurd rfl (ha j e)

private theorem step_edit (hs : s.documents[i]? = some d) (e : Edit Nat) :
    s.step (.edit i e) =
      s.found (fun e' => s.attempt (s.setDocument i) (d.edit e')) (e.resolve? s.fragments) := by
  rw [step, hs]
  rfl

/-- An edit that fails changes nothing. -/
private theorem follows_failed (hs : s.documents[i]? = some d) {e : Edit Nat}
    (hfailed : ∀ e', e.resolve? s.fragments = some e' → ∀ d', d.edit e' ≠ .ok d') :
    ∃ d', (s.step (.edit i e)).documents[i]? = some d' ∧
      d.Follows d' (s.Discards i · (.edit i e))
        (fun h value => (s.textFor? i h (.edit i e)).getD value) := by
  have hstep := step_edit hs e
  cases he : e.resolve? s.fragments with
  | none =>
    refine follows_same hs (by rw [hstep, he]; rfl) (fun h hd => ?_) fun h => ?_
    · obtain ⟨-, -, -, e', -, -, -, he', -⟩ := hd
      rw [he] at he'
      cases he'
    · simp [textFor?, hs, he]
  | some e' =>
    have hedit := d.edit_eq e'
    have hsame : (s.step (.edit i e)).documents[i]? = s.documents[i]? := by
      rw [hstep, he]
      cases hresult : d.edit e' with
      | ok d' => exact absurd hresult (hfailed e' he d')
      | error => simp only [found, hresult, attempt]
    refine follows_same hs hsame (fun h hd => ?_) fun h => ?_
    · obtain ⟨-, d₁, d', e₁, -, -, hs', he', hok, -⟩ := hd
      obtain rfl := Option.some.inj (hs.symm.trans hs')
      exact hfailed e₁ he' d' hok
    · cases hp : d.locate? e'.target with
      | none => simp [textFor?, hs, he, hp]
      | some p =>
        rw [hp] at hedit
        by_cases hsupports : e'.supports (d.node p) = true
        · simp only [hsupports, if_true] at hedit
          exact absurd hedit (hfailed e' he _)
        · simp [textFor?, hs, he, hp, Edit.textFor?_of_not_supports hsupports]

/-- How a document goes on after an edit of it. -/
private theorem Sound.follows_edit (hsound : s.Sound) (hs : s.documents[i]? = some d)
    (e : Edit Nat) : ∃ d', (s.step (.edit i e)).documents[i]? = some d' ∧
      d.Follows d' (s.Discards i · (.edit i e))
        (fun h value => (s.textFor? i h (.edit i e)).getD value) := by
  have w := hsound.wellFormed_of_getElem? hs
  by_cases hok : ∃ e' d', e.resolve? s.fragments = some e' ∧ d.edit e' = .ok d'
  · obtain ⟨e', d', he, hedit⟩ := hok
    obtain ⟨p, hp, hsupports, rfl⟩ := d.edit_eq_ok_iff.mp hedit
    have hlt : p < d.length := by
      obtain ⟨-, entry, hentry, -⟩ := (Document.locate?_eq_some_iff w.nodup).mp hp
      exact (List.getElem?_eq_some_iff.mp hentry).1
    refine ⟨d.edited e' p, ?_, (w.follows_edited hlt hsupports).congr (fun {h q} hq => ?_)
      fun {h q} hq => ?_⟩
    · rw [step_edit hs, he]
      simp only [Session.found, hedit, Session.attempt, Session.setDocument]
      exact List.getElem?_set_self (List.getElem?_eq_some_iff.mp hs).1
    · constructor
      · rintro ⟨q, hq, hd⟩
        exact ⟨rfl, d, _, e', p, q, hs, he, hedit, hp, hq, hd⟩
      · rintro ⟨-, d₁, -, e₁, p₁, q, hs', he', -, hp', hq, hd⟩
        obtain rfl := Option.some.inj (hs.symm.trans hs')
        obtain rfl := Option.some.inj (he.symm.trans he')
        obtain rfl := Option.some.inj (hp.symm.trans hp')
        exact ⟨q, hq, hd⟩
    · funext value
      simp [textFor?, hs, he, hp]
  · exact follows_failed hs fun e' he d' hedit => hok ⟨e', d', he, hedit⟩

/-- An edit of one document changes no other. -/
private theorem documents_edit_of_ne (hs : s.documents[i]? = some d) {j : Nat} (hj : j ≠ i)
    (e : Edit Nat) : (s.step (.edit j e)).documents[i]? = some d := by
  refine documents_found (fun d' => documents_found (fun e' => documents_attempt (fun d'' => ?_)
    hs) hs) hs
  rw [setDocument, List.getElem?_set_ne hj, hs]

/-- How a document goes on after one action of its session. -/
theorem Sound.follows_step (hsound : s.Sound) (hs : s.documents[i]? = some d) (a : Action) :
    ∃ d', (s.step a).documents[i]? = some d' ∧
      d.Follows d' (s.Discards i · a) (fun h value => (s.textFor? i h a).getD value) := by
  cases a with
  | edit j e =>
    by_cases hj : j = i
    · subst hj
      exact hsound.follows_edit hs e
    · refine follows_same hs ((documents_edit_of_ne hs hj e).trans hs.symm) (fun h hd => hj hd.1)
        fun h => if_neg hj
  | _ =>
    exact follows_same hs ((documents_step hs (by simp)).trans hs.symm) (fun h hd => hd) fun h => rfl

/-- How a document goes on in its session. -/
theorem Sound.follows_run (hsound : s.Sound) (hs : s.documents[i]? = some d)
    (actions : List Action) :
    ∃ d', (s.run actions).documents[i]? = some d' ∧
      d.Follows d' (DiscardsIn i · s actions) (fun h => textAfter i h s actions) := by
  induction actions generalizing s d with
  | nil => exact ⟨d, hs, .refl d⟩
  | cons a actions ih =>
    obtain ⟨d₁, hd₁, hfollows⟩ := hsound.follows_step hs a
    obtain ⟨d₂, hd₂, hrest⟩ := ih (hsound.step a) hd₁
    have hboth := hfollows.trans (hsound.wellFormed_of_getElem? hs) hrest
    exact ⟨d₂, hd₂, hboth⟩

theorem run_append (actions more : List Action) :
    s.run (actions ++ more) = (s.run actions).run more := List.foldl_append

/-- A handle resolves as long as no edit has discarded its node, and never again afterwards; while it
resolves it names the same node, whose value is the last text given to it; the nodes of two handles
stay in their order; and no other document resolves it. -/
theorem handles_stable (earlier later more : List Action)
    (hd : (run {} earlier).documents[i]? = some d) {p : Nat} (hp : p < d.length) :
    ∃ d' d'', (run {} (earlier ++ later)).documents[i]? = some d' ∧
      (run {} (earlier ++ later ++ more)).documents[i]? = some d'' ∧
      (d'.contains (d.handleAt p) ↔ ¬DiscardsIn i (d.handleAt p) (run {} earlier) later) ∧
      (∀ q, d'.locate? (d.handleAt p) = some q →
        (d'.node q).kind = (d.node p).kind ∧ (d'.node q).name? = (d.node p).name? ∧
          (d'.node q).value =
            textAfter i (d.handleAt p) (run {} earlier) later (d.node p).value) ∧
      (∀ p' q q', p < p' → p' < d.length → d'.locate? (d.handleAt p) = some q →
        d'.locate? (d.handleAt p') = some q' → q < q') ∧
      (¬d'.contains (d.handleAt p) → ¬d''.contains (d.handleAt p)) ∧
      ∀ j d₁, j ≠ i → (run {} (earlier ++ later)).documents[j]? = some d₁ →
        ¬d₁.contains (d.handleAt p) := by
  have hsound := sound_empty.run earlier
  have w := hsound.wellFormed_of_getElem? hd
  have hlocate := w.located hp
  obtain ⟨d', hd', hfollows⟩ := hsound.follows_run hd later
  obtain ⟨d'', hd'', hmore⟩ := (hsound.run later).follows_run hd' more
  rw [← run_append] at hd'
  rw [← run_append, ← run_append, ← List.append_assoc] at hd''
  refine ⟨d', d'', hd', hd'', ?_, ?_, ?_, ?_, ?_⟩
  · exact hfollows.resolves hlocate
  · exact fun q hq => hfollows.node hlocate hq
  · exact fun p' q q' hlt hp' hq hq' => hfollows.ordered hlocate (w.located hp') hq hq' hlt
  · intro hstale
    have hi := Nat.lt_of_lt_of_le (w.ident_lt_of_locate? hlocate) hfollows.nextIdent_le
    rw [Document.contains, Bool.not_eq_true, Option.isSome_eq_false_iff, Option.isNone_iff_eq_none]
      at hstale ⊢
    exact hmore.stale hi hstale
  · intro j d₁ hj hd₁
    have hids := (sound_empty.run (earlier ++ later)).ids
    have hid : d₁.id ≠ d.id := by
      rw [← hfollows.id_eq]
      intro he
      have hi' : ((run {} (earlier ++ later)).documents.map (·.id))[i]? = some d'.id := by
        rw [List.getElem?_map, hd']
        rfl
      have hj' : ((run {} (earlier ++ later)).documents.map (·.id))[j]? = some d'.id := by
        rw [List.getElem?_map, hd₁, ← he]
        rfl
      have hlt := (List.getElem?_eq_some_iff.mp hj').1
      exact hj ((List.getElem?_inj hlt hids).mp (hj'.trans hi'.symm))
    have : d₁.locate? (d.handleAt p) = none := if_neg fun he => hid he.symm
    simp [Document.contains, this]

/-- A text keeps its handle when another text comes in front of it, after its own has been set. -/
theorem handles_stable_setText :
    let actions : List Action :=
      [.edit 0 (.setText ⟨0, 1⟩ "b"), .text "c", .edit 0 (.insertBefore ⟨0, 1⟩ 0), .copy 0]
    ∃ d', (run {} ([.ofText "a"] ++ actions)).documents[0]? = some d' ∧
      ∀ q, d'.locate? ⟨0, 1⟩ = some q → (d'.node q).value = "b" := by
  intro actions
  obtain ⟨d', -, hd', -, -, hnode, -⟩ :=
    handles_stable [.ofText "a"] actions [] (i := 0) (d := .ofText 0 "a") rfl (p := 1) (by decide)
  exact ⟨d', hd', fun q hq => (hnode q hq).2.2⟩

end Session
end MarkupGraft
