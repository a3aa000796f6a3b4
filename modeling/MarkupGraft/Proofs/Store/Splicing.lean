import MarkupGraft.Proofs.Store.Numbering
import MarkupGraft.Proofs.Store.Placement

/-!
All edits as one operation with its arguments. Each edit that succeeds either replaces a range of
positions or gives one position another value, and a document stays well formed when the new range
completes a tree.
-/

namespace MarkupGraft

/-- An edit, whose content is a fragment or whatever stands for one. -/
inductive Edit (α : Type) where
  | replaceChildren (target : Handle) (content : α)
  | setText (target : Handle) (text : String)
  | insertBefore (target : Handle) (content : α)
  | insertAfter (target : Handle) (content : α)
  | remove (target : Handle)

namespace Edit
variable {α : Type}

def target : Edit α → Handle
  | .replaceChildren target _ | .setText target _ | .insertBefore target _
  | .insertAfter target _ | .remove target => target

def operation : Edit α → Operation
  | .replaceChildren _ _ => .replaceChildren
  | .setText _ _ => .setText
  | .insertBefore _ _ => .insertBefore
  | .insertAfter _ _ => .insertAfter
  | .remove _ => .remove

def content? : Edit α → Option α
  | .replaceChildren _ content | .insertBefore _ content | .insertAfter _ content => some content
  | .setText _ _ | .remove _ => none

/-- Whether an edit is supported on a node. -/
def supports : Edit α → Node → Bool
  | .replaceChildren _ _, node => node.isContainer
  | .setText _ _, node => node ≠ .finish
  | .insertBefore _ _, node | .insertAfter _ _, node => node.isChild && node ≠ .document
  | .remove _, node => node ≠ .document && node ≠ .finish

end Edit

namespace Fragment

/-- What a container with the given text holds. -/
def ofContent (text : String) : Fragment := if text = "" then {} else .ofText text

/-! Runs of complete trees -/

theorem complete_empty : Complete {} := ⟨[], rfl⟩

theorem complete_ofText (text : String) : Complete (.ofText text) := ⟨[.text text], rfl⟩

theorem complete_ofContent (text : String) : Complete (.ofContent text) := by
  unfold ofContent
  split
  · exact complete_empty
  · exact complete_ofText text

theorem Complete.append {f g : Fragment} (hf : f.Complete) (hg : g.Complete) :
    (f ++ g).Complete := by
  obtain ⟨ts, hf⟩ := hf
  obtain ⟨us, hg⟩ := hg
  exact ⟨ts ++ us, by rw [Tree.listingAll_append, ← hf, ← hg]; rfl⟩

theorem complete_join {fs : List Fragment} (h : ∀ f ∈ fs, f.Complete) : (join fs).Complete :=
  List.foldlRecOn fs _ complete_empty fun _ hf g hg => hf.append (h g hg)

/-- The trees that a fragment brings to a place where `target` is in scope. -/
def treesUnder (f : Fragment) (target : Scope) : List Tree :=
  f.trees.map (Tree.placed f.scope target)

end Fragment

namespace Document
variable (d : Document)

def edit : Edit Fragment → Except StoreError Document
  | .replaceChildren target f => d.replaceChildren target f
  | .setText target text => d.setText target text
  | .insertBefore target f => d.insertBefore target f
  | .insertAfter target f => d.insertAfter target f
  | .remove target => d.remove target

/-- What a supported edit makes of a document, given the position of its target. -/
def edited (e : Edit Fragment) (position : Nat) : Document :=
  match e with
  | .replaceChildren _ f => d.splice (d.contentStart position) (d.last position) f position
  | .setText _ text =>
    if (d.node position).isContainer then
      d.splice (d.contentStart position) (d.last position) (.ofContent text) position
    else d.setValue position text
  | .insertBefore _ f => d.splice position position f ((d.parent? position).getD 0)
  | .insertAfter _ f =>
    d.splice (d.last position + 1) (d.last position + 1) f ((d.parent? position).getD 0)
  | .remove _ => d.splice position (d.last position + 1) {} 0

theorem edited_kept (e : Edit Fragment) (position : Nat) :
    (d.edited e position).id = d.id ∧ (d.edited e position).mode = d.mode ∧
      (d.edited e position).inherited = d.inherited := by
  cases e <;> simp only [edited] <;> (try split) <;> exact ⟨rfl, rfl, rfl⟩

/-- An edit fails when its handle is stale or its target does not support it, and only then. -/
theorem edit_eq (e : Edit Fragment) :
    d.edit e =
      match d.locate? e.target with
      | none => .error .staleHandle
      | some p =>
        if e.supports (d.node p) then .ok (d.edited e p)
        else .error (.invalidKind e.operation (d.node p).kind) := by
  cases e with
  | replaceChildren target f =>
    simp only [edit, replaceChildren, locate, Edit.target]
    cases d.locate? target with
    | none => rfl
    | some p =>
      simp only [Edit.supports, edited, Edit.operation, bind, Except.bind]
      rfl
  | setText target text =>
    simp only [edit, setText, replaceChildren, locate, Edit.target]
    cases d.locate? target with
    | none => rfl
    | some p =>
      simp only [Edit.supports, edited, Edit.operation, bind, Except.bind]
      cases hn : d.node p <;> simp [Node.isContainer, Node.kind, Fragment.ofContent] <;> rfl
  | insertBefore target f | insertAfter target f =>
    simp only [edit, insertBefore, insertAfter, siblingAnchor, locate, Edit.target]
    cases d.locate? target with
    | none => rfl
    | some p =>
      simp only [Edit.supports, edited, Edit.operation, bind, Except.bind]
      cases hn : d.node p <;> simp [Node.isChild, Node.kind] <;> rfl
  | remove target =>
    simp only [edit, remove, locate, Edit.target]
    cases d.locate? target with
    | none => rfl
    | some p =>
      simp only [Edit.supports, edited, Edit.operation, bind, Except.bind]
      cases hn : d.node p <;> simp [Node.kind] <;> rfl

/-- What an edit that succeeds has done. -/
theorem edit_eq_ok_iff {e : Edit Fragment} {d' : Document} : d.edit e = .ok d' ↔
    ∃ p, d.locate? e.target = some p ∧ e.supports (d.node p) ∧ d' = d.edited e p := by
  rw [edit_eq]
  cases d.locate? e.target with
  | none => simp
  | some p =>
    by_cases hs : e.supports (d.node p) = true
    · simp only [hs, if_true, Except.ok.injEq, Option.some.injEq]
      constructor
      · rintro rfl
        exact ⟨p, rfl, hs, rfl⟩
      · rintro ⟨_, rfl, -, rfl⟩
        rfl
    · simp [hs]

/-! Replaced ranges -/

section
variable {d} {start stop parent : Nat} {f : Fragment}

theorem entries_splice {before old after : List Entry} (h : d.entries = before ++ (old ++ after))
    (hstart : start = before.length) (hstop : stop = before.length + old.length)
    (hf : f.Complete) :
    (d.splice start stop f parent).entries = before ++
      (Branch.entriesAll (Branch.numberAll d.nextIdent (f.treesUnder (d.scopeAt parent))) ++
        after) := by
  have hnodes : (if f.isEmpty then [] else f.placedUnder (d.scopeAt parent)) =
      Tree.listingAll (f.treesUnder (d.scopeAt parent)) := by
    rw [hf.placedUnder_eq]
    split
    · rename_i he
      rw [Fragment.isEmpty, List.isEmpty_iff] at he
      rw [Fragment.treesUnder, Fragment.trees, he]
      rfl
    · rfl
  have hdrop : d.entries.drop stop = after := by
    rw [h, hstop, ← List.append_assoc, ← List.length_append, List.drop_left]
  rw [splice, hnodes, hdrop, h, hstart, List.take_left, Branch.entries_numberAll, List.append_assoc]

/-- The identities of a spliced document are kept ones and new ones. -/
theorem nodup_splice (hn : (d.entries.map (·.ident)).Nodup)
    (hi : ∀ e ∈ d.entries, e.ident < d.nextIdent) (hle : start ≤ stop) :
    ((d.splice start stop f parent).entries.map (·.ident)).Nodup := by
  have hkept : ((d.entries.take start ++ d.entries.drop stop).map (·.ident)).Nodup := by
    refine hn.sublist (List.Sublist.map _ ?_)
    calc (d.entries.take start ++ d.entries.drop stop).Sublist
          (d.entries.take start ++ d.entries.drop start) :=
        List.Sublist.append (List.Sublist.refl _) (List.drop_sublist_drop_left _ hle)
      _ = d.entries := List.take_append_drop _ _
  have hold {i : Nat} (h : i ∈ (d.entries.take start ++ d.entries.drop stop).map (·.ident)) :
      i < d.nextIdent := by
    obtain ⟨e, he, rfl⟩ := List.mem_map.mp h
    rcases List.mem_append.mp he with he | he
    · exact hi e (List.mem_of_mem_take he)
    · exact hi e (List.mem_of_mem_drop he)
  rw [List.map_append] at hkept hold
  rw [splice]
  simp only [List.map_append, idents_identify, List.append_assoc]
  rw [List.nodup_append] at hkept ⊢
  refine ⟨hkept.1, List.nodup_append.mpr ⟨List.nodup_range', hkept.2.1, ?_⟩, ?_⟩
  · intro a ha b hb
    have := hold (List.mem_append_right _ hb)
    rw [List.mem_range'_1] at ha
    omega
  · intro a ha b hb
    rcases List.mem_append.mp hb with hb | hb
    · have := hold (List.mem_append_left _ ha)
      rw [List.mem_range'_1] at hb
      omega
    · exact hkept.2.2 a ha b hb

theorem ident_lt_splice (hi : ∀ e ∈ d.entries, e.ident < d.nextIdent) :
    ∀ e ∈ (d.splice start stop f parent).entries,
      e.ident < (d.splice start stop f parent).nextIdent := by
  intro e he
  simp only [splice, List.mem_append, or_assoc] at he ⊢
  rcases he with he | he | he
  · have := hi e (List.mem_of_mem_take he)
    omega
  · have := List.mem_map_of_mem (f := Entry.ident) he
    rw [idents_identify, List.mem_range'_1] at this
    exact this.2
  · have := hi e (List.mem_of_mem_drop he)
    omega

/-- A splice that completes a tree gives a well-formed document of that tree. -/
theorem WellFormed.splice (w : d.WellFormed) (hle : start ≤ stop) {t : RootedTree}
    (h : (d.splice start stop f parent).entries = t.entries) :
    (d.splice start stop f parent).WellFormed ∧ (d.splice start stop f parent).tree = t :=
  ⟨wellFormed_of_entries h (nodup_splice w.nodup (fun _ => w.ident_lt) hle)
    (ident_lt_splice fun _ => w.ident_lt), by rw [tree, h, RootedTree.ofEntries_entries]⟩

end

section
variable {d} {position : Nat} (text : String)

theorem idents_setValue : (d.setValue position text).entries.map (·.ident) =
    d.entries.map (·.ident) := by
  simp only [setValue]
  refine List.ext_getElem? fun i => ?_
  simp only [List.getElem?_map, List.getElem?_modify]
  split <;> cases d.entries[i]? <;> rfl

theorem entries_setValue {before after : List Entry} {e : Entry}
    (h : d.entries = before ++ e :: after) :
    (d.setValue before.length text).entries =
      before ++ { e with node := e.node.withValue text } :: after := by
  rw [setValue, h, List.modify_eq_take_cons_drop (by simp)]
  simp

variable {text} in
/-- A new value that completes a tree gives a well-formed document of that tree. -/
theorem WellFormed.setValue (w : d.WellFormed) {t : RootedTree}
    (h : (d.setValue position text).entries = t.entries) :
    (d.setValue position text).WellFormed ∧ (d.setValue position text).tree = t := by
  refine ⟨wellFormed_of_entries h ?_ fun e he => ?_, by rw [tree, h, RootedTree.ofEntries_entries]⟩
  · rw [idents_setValue]
    exact w.nodup
  · have := List.mem_map_of_mem (f := Entry.ident) he
    rw [idents_setValue] at this
    obtain ⟨e', he', hi⟩ := List.mem_map.mp this
    rw [← hi]
    exact w.ident_lt he'

end

end Document
end MarkupGraft
