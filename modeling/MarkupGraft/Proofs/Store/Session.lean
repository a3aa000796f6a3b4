import MarkupGraft.Proofs.Store.Cutting
import MarkupGraft.Proofs.Store.Reading

/-!
Sessions: documents come from everything that makes one, and are edited with fragments that have been
cut out of any of them at any time. Every document of a session stays well formed.
-/

namespace MarkupGraft

structure Session where
  documents : List Document := []
  fragments : List Fragment := []
  /-- The identity of the next document. -/
  nextId : Nat := 0

/-- Documents and fragments are named by their place in the session. -/
inductive Action where
  | parse (mode : Markup.Mode) (input : Bytes)
  | empty
  | ofText (text : String)
  | ofFragment (fragment : Nat)
  | copy (document : Nat)
  | copySubtree (document : Nat) (target : Handle)
  /-- An identity goes to a document elsewhere. -/
  | skipId
  | text (text : String)
  | emptyFragment
  | contents (document : Nat)
  | extract (document : Nat) (target : Handle)
  | append (first second : Nat)
  | edit (document : Nat) (edit : Edit Nat)

/-- Looks up the content of an edit. -/
def Edit.resolve? {α : Type} (fragments : List α) : Edit Nat → Option (Edit α)
  | .replaceChildren target i => fragments[i]?.map (.replaceChildren target)
  | .setText target text => some (.setText target text)
  | .insertBefore target i => fragments[i]?.map (.insertBefore target)
  | .insertAfter target i => fragments[i]?.map (.insertAfter target)
  | .remove target => some (.remove target)

namespace Session
variable (s : Session)

def addDocument (d : Document) : Session :=
  { s with documents := s.documents ++ [d], nextId := s.nextId + 1 }

def addFragment (f : Fragment) : Session := { s with fragments := s.fragments ++ [f] }

/-- Goes on with what has been looked up or made, and changes nothing where that failed. -/
def attempt {ε α : Type} (next : α → Session) : Except ε α → Session
  | .ok a => next a
  | .error _ => s

/-- Goes on with what is found in a place, and changes nothing where nothing is found. -/
def found {α : Type} (next : α → Session) : Option α → Session
  | some a => next a
  | none => s

def setDocument (i : Nat) (d : Document) : Session := { s with documents := s.documents.set i d }

/-- What an action makes of a session. One that fails changes nothing. -/
def step : Action → Session
  | .parse mode input => s.attempt s.addDocument (Document.parse s.nextId mode input)
  | .empty => s.addDocument (.empty s.nextId)
  | .ofText text => s.addDocument (.ofText s.nextId text)
  | .ofFragment i => s.found (fun f => s.addDocument (.ofFragment s.nextId f)) s.fragments[i]?
  | .copy i => s.found (fun d => s.addDocument (d.copy s.nextId)) s.documents[i]?
  | .copySubtree i target =>
    s.found (fun d => s.attempt s.addDocument (d.copySubtree s.nextId target)) s.documents[i]?
  | .skipId => { s with nextId := s.nextId + 1 }
  | .text text => s.addFragment (.ofText text)
  | .emptyFragment => s.addFragment {}
  | .contents i => s.found (fun d => s.addFragment d.contents) s.documents[i]?
  | .extract i target =>
    s.found (fun d => s.attempt s.addFragment (d.extract target)) s.documents[i]?
  | .append i j =>
    s.found (fun f => s.found (fun g => s.addFragment (f ++ g)) s.fragments[j]?) s.fragments[i]?
  | .edit i e =>
    s.found (fun d => s.found (fun e => s.attempt (s.setDocument i) (d.edit e))
      (e.resolve? s.fragments)) s.documents[i]?

/-- The session after a sequence of actions. -/
def run (actions : List Action) : Session := actions.foldl step s

/-- What every session keeps. -/
structure Sound : Prop where
  wellFormed {d : Document} (h : d ∈ s.documents) : d.WellFormed
  complete {f : Fragment} (h : f ∈ s.fragments) : f.Complete
  ids : (s.documents.map (·.id)).Nodup
  id_lt {d : Document} (h : d ∈ s.documents) : d.id < s.nextId

variable {s}

namespace Sound
variable (h : s.Sound)
include h

theorem addDocument {d : Document} (hd : d.WellFormed) (hid : d.id = s.nextId) :
    (s.addDocument d).Sound := by
  refine ⟨fun {d'} hm => ?_, h.complete, ?_, fun {d'} hm => ?_⟩
  · rcases List.mem_append.mp hm with hm | hm
    · exact h.wellFormed hm
    · rwa [List.mem_singleton.mp hm]
  · rw [Session.addDocument, List.map_append]
    refine List.nodup_append.mpr ⟨h.ids, by simp, fun a ha b hb => ?_⟩
    obtain ⟨d', hm, rfl⟩ := List.mem_map.mp ha
    have := h.id_lt hm
    simp only [List.map_cons, List.map_nil, List.mem_singleton] at hb
    omega
  · rw [Session.addDocument]
    rcases List.mem_append.mp hm with hm | hm
    · exact Nat.lt_succ_of_lt (h.id_lt hm)
    · rw [List.mem_singleton.mp hm, hid]
      exact Nat.lt_succ_self _

theorem addFragment {f : Fragment} (hf : f.Complete) : (s.addFragment f).Sound := by
  refine ⟨h.wellFormed, fun {g} hm => ?_, h.ids, h.id_lt⟩
  rcases List.mem_append.mp hm with hm | hm
  · exact h.complete hm
  · rwa [List.mem_singleton.mp hm]

/-- Replacing a document by one with its identity. -/
theorem setDocument {i : Nat} {d d' : Document} (hd : s.documents[i]? = some d)
    (hw : d'.WellFormed) (hid : d'.id = d.id) : (s.setDocument i d').Sound := by
  refine ⟨fun hm => ?_, h.complete, ?_, fun hm => ?_⟩
  · rcases List.mem_or_eq_of_mem_set hm with hm | rfl
    · exact h.wellFormed hm
    · exact hw
  · have hi : (s.documents.map (·.id))[i]? = some d'.id := by
      rw [List.getElem?_map, hd, hid]
      rfl
    obtain ⟨hlt, hi⟩ := List.getElem?_eq_some_iff.mp hi
    rw [Session.setDocument, List.map_set, ← hi, List.set_getElem_self]
    exact h.ids
  · rcases List.mem_or_eq_of_mem_set hm with hm | rfl
    · exact h.id_lt hm
    · rw [hid]
      exact h.id_lt (List.mem_of_getElem? hd)

/-- The content of an edit that has been looked up is complete. -/
theorem complete_content {e : Edit Nat} {e' : Edit Fragment} (he : e.resolve? s.fragments = some e') :
    ∀ f ∈ e'.content?, f.Complete := by
  intro f hf
  cases e with
  | replaceChildren target i | insertBefore target i | insertAfter target i =>
    obtain ⟨g, hg, rfl⟩ := Option.map_eq_some_iff.mp he
    cases hf
    exact h.complete (List.mem_of_getElem? hg)
  | setText target text | remove target =>
    cases he
    cases hf

theorem edit {i : Nat} {d d' : Document} {e : Edit Nat} {e' : Edit Fragment}
    (hd : s.documents[i]? = some d) (he : e.resolve? s.fragments = some e')
    (hedit : d.edit e' = .ok d') : d'.WellFormed ∧ d'.id = d.id := by
  obtain ⟨p, hp, hs, rfl⟩ := d.edit_eq_ok_iff.mp hedit
  have w := h.wellFormed (List.mem_of_getElem? hd)
  exact ⟨(w.edited (h.complete_content he) hp hs).1, (d.edited_kept e' p).1⟩

theorem attempt {ε α : Type} {next : α → Session} {result : Except ε α}
    (hnext : ∀ a, result = .ok a → (next a).Sound) : (s.attempt next result).Sound := by
  cases result with
  | ok a => exact hnext a rfl
  | error => exact h

theorem found {α : Type} {next : α → Session} {place : Option α}
    (hnext : ∀ a, place = some a → (next a).Sound) : (s.found next place).Sound := by
  cases place with
  | some a => exact hnext a rfl
  | none => exact h

theorem wellFormed_of_getElem? {i : Nat} {d : Document} (hd : s.documents[i]? = some d) :
    d.WellFormed := h.wellFormed (List.mem_of_getElem? hd)

theorem complete_of_getElem? {i : Nat} {f : Fragment} (hf : s.fragments[i]? = some f) :
    f.Complete := h.complete (List.mem_of_getElem? hf)

/-- Every action keeps a session sound. -/
theorem step (a : Action) : (s.step a).Sound := by
  cases a with
  | parse mode input =>
    refine h.attempt fun d hd => ?_
    obtain ⟨hw, hid⟩ := Document.wellFormed_parse hd
    exact h.addDocument hw hid
  | empty => exact h.addDocument (Document.wellFormed_ofFragment _ Fragment.complete_empty) rfl
  | ofText text =>
    exact h.addDocument (Document.wellFormed_ofFragment _ (Fragment.complete_ofText text)) rfl
  | ofFragment i =>
    refine h.found fun f hf => ?_
    exact h.addDocument (Document.wellFormed_ofFragment _ (h.complete_of_getElem? hf)) rfl
  | copy i =>
    refine h.found fun d hd => ?_
    exact h.addDocument ((h.wellFormed_of_getElem? hd).copy _) rfl
  | copySubtree i target =>
    refine h.found fun d hd => h.attempt fun d' hd' => ?_
    obtain ⟨hw, hid⟩ := (h.wellFormed_of_getElem? hd).copySubtree hd'
    exact h.addDocument hw hid
  | skipId => exact ⟨h.wellFormed, h.complete, h.ids, fun hm => Nat.lt_succ_of_lt (h.id_lt hm)⟩
  | text text => exact h.addFragment (Fragment.complete_ofText text)
  | emptyFragment => exact h.addFragment Fragment.complete_empty
  | contents i =>
    refine h.found fun d hd => ?_
    exact h.addFragment (h.wellFormed_of_getElem? hd).complete_contents
  | extract i target =>
    refine h.found fun d hd => h.attempt fun f hf => ?_
    exact h.addFragment ((h.wellFormed_of_getElem? hd).complete_extract hf)
  | append i j =>
    refine h.found fun f hf => h.found fun g hg => ?_
    exact h.addFragment ((h.complete_of_getElem? hf).append (h.complete_of_getElem? hg))
  | edit i e =>
    refine h.found fun d hd => h.found fun e' he => h.attempt fun d' hedit => ?_
    obtain ⟨hw, hid⟩ := h.edit hd he hedit
    exact h.setDocument hd hw hid

theorem run (actions : List Action) : (s.run actions).Sound := by
  induction actions generalizing s with
  | nil => exact h
  | cons a actions ih => exact ih (h.step a)

end Sound

theorem sound_empty : Sound {} where
  wellFormed := by simp
  complete := by simp
  ids := List.nodup_nil
  id_lt := by simp

/-- Every document is well formed after any sequence of actions. -/
theorem wellFormed_of_run (actions : List Action) {d : Document}
    (h : d ∈ (run {} actions).documents) : d.WellFormed :=
  (sound_empty.run actions).wellFormed h

/-- A text document whose text has been put in front of itself. -/
theorem wellFormed_of_run_selfGraft :
    let d : Document := ⟨0, .xml, [⟨.document, 0⟩, ⟨.text "a", 3⟩, ⟨.text "a", 1⟩, ⟨.finish, 2⟩], 4, {}⟩
    d ∈ (run {} [.ofText "a", .contents 0, .edit 0 (.insertBefore ⟨0, 1⟩ 0)]).documents ∧
      d.WellFormed := by
  intro d
  have h : d ∈ (run {} [.ofText "a", .contents 0,
      .edit 0 (.insertBefore ⟨0, 1⟩ 0)]).documents := List.mem_singleton.mpr rfl
  exact ⟨h, wellFormed_of_run _ h⟩

end Session
end MarkupGraft
