import MarkupGraft.Proofs.Query.Closure
import MarkupGraft.Proofs.Store.Following
import MarkupGraft.Proofs.Template.Work

/-!
What comes into a template, and the copies made of it. All that a program selects are nodes that are
there, so cutting them out meets no stale handle, and neither does an edit of a target that is there:
what is inserted in front of it does not remove it.
-/

namespace MarkupGraft

namespace Document
variable {d : Document} {target : Handle}

theorem contains_iff : d.contains target ↔ ∃ p, d.locate? target = some p := by
  rw [contains, Option.isSome_iff_exists]

theorem locate_eq_ok {p : Nat} (hp : d.locate? target = some p) : d.locate target = .ok p := by
  rw [locate, hp]

theorem avoids_locate (h : d.contains target) :
    Avoids .staleHandle (d.locate target) fun p => d.locate? target = some p := by
  obtain ⟨p, hp⟩ := contains_iff.mp h
  rw [locate_eq_ok hp]
  exact hp

namespace WellFormed
variable (w : d.WellFormed)
include w

theorem contains_handleAt {p : Nat} (hp : p < d.length) : d.contains (d.handleAt p) :=
  contains_iff.mpr ⟨p, w.located hp⟩

theorem contains_root : d.contains d.root := w.contains_handleAt w.isQueried_zero.1

theorem lt_length_of_mem_children {p c : Nat} (hp : p < d.length) (hc : c ∈ d.children p) :
    c < d.length := by
  by_cases hcontainer : (d.node p).isContainer
  · rw [w.children_eq hp hcontainer, List.mem_filter, List.mem_range] at hc
    exact hc.1
  · rw [(w.alone hp hcontainer).2] at hc
    cases hc

/-! Cutting out -/

theorem avoids_extract (h : d.contains target) :
    Avoids .staleHandle (d.extract target) Fragment.Complete := by
  have hfound : Avoids .staleHandle (d.extract target) fun _ => True := by
    rw [Document.extract]
    refine (avoids_locate h).bind fun p _ => ?_
    dsimp only
    cases d.node p <;> first | trivial | exact fun he => nomatch he
  exact hfound.mono fun f hf _ => w.complete_extract hf

theorem avoids_detachChildren {p : Nat} (hp : p < d.length) :
    Avoids .staleHandle (d.detachChildren p) Fragment.Complete := by
  refine Avoids.map ((Avoids.mapM fun c hc => ?_).mono fun _ _ => Fragment.complete_join)
  exact w.avoids_extract (w.contains_handleAt (w.lt_length_of_mem_children hp hc))

theorem avoids_contentsOf (target : Handle) :
    Avoids .staleHandle (d.contentsOf target) Fragment.Complete := by
  rw [contentsOf]
  split
  · exact w.complete_contents
  · exact w.complete_contents
  · rename_i p hp
    exact w.avoids_detachChildren (w.lt_length_of_locate? hp)

/-- A copy of a node that is there holds the node that stands for it. -/
theorem avoids_detach (h : d.contains target) (id : Nat) :
    Avoids .staleHandle (d.detach target id) fun made =>
      made.1.WellFormed ∧ made.1.contains made.2 := by
  rw [Document.detach]
  refine (avoids_locate h).bind fun p _ => ?_
  have hcopy : Avoids .staleHandle (d.copySubtree id target) WellFormed := by
    have : Avoids .staleHandle (d.copySubtree id target) fun _ => True :=
      (w.avoids_extract h).bind fun _ _ => trivial
    exact this.mono fun _ hcopy _ => (w.copySubtree hcopy).1
  refine hcopy.bind fun copy wcopy => ?_
  split
  · exact ⟨wcopy, wcopy.contains_root⟩
  · exact ⟨wcopy, wcopy.contains_root⟩
  · rename_i child _ hchildren _
    have hmem : child ∈ copy.children 0 := by simp [hchildren]
    exact ⟨wcopy, wcopy.contains_handleAt
      (wcopy.lt_length_of_mem_children wcopy.isQueried_zero.1 hmem)⟩

/-! Editing -/

theorem avoids_edit {e : Edit Fragment} (hc : ∀ f ∈ e.content?, f.Complete)
    (ht : d.contains e.target) : Avoids .staleHandle (d.edit e) WellFormed := by
  obtain ⟨p, hp⟩ := contains_iff.mp ht
  rw [d.edit_eq, hp]
  by_cases hs : e.supports (d.node p)
  · simp only [hs, if_true]
    exact (w.edited hc hp hs).1
  · simp only [hs]
    exact fun he => nomatch he

theorem avoids_replaceChildren {f : Fragment} (h : d.contains target)
    (hf : f.Complete) : Avoids .staleHandle (d.replaceChildren target f) WellFormed := by
  change Avoids .staleHandle (d.edit (.replaceChildren target f)) _
  exact w.avoids_edit (by simpa [Edit.content?] using hf) h

theorem avoids_setText (h : d.contains target) (text : String) :
    Avoids .staleHandle (d.setText target text) WellFormed := by
  change Avoids .staleHandle (d.edit (.setText target text)) _
  exact w.avoids_edit (by simp [Edit.content?]) h

/-- What comes in front of a target leaves the target where it is. -/
theorem avoids_insertBefore {f : Fragment} (h : d.contains target) (hf : f.Complete) :
    Avoids .staleHandle (d.insertBefore target f) fun d' =>
      d'.WellFormed ∧ d'.contains target := by
  have hedit : Avoids .staleHandle (d.edit (.insertBefore target f)) WellFormed :=
    w.avoids_edit (by simpa [Edit.content?] using hf) h
  refine hedit.mono fun d' hd' wd' => ⟨wd', ?_⟩
  obtain ⟨p, hp, hs, rfl⟩ := d.edit_eq_ok_iff.mp hd'
  refine ((w.follows_edited (w.lt_length_of_locate? hp) hs).resolves hp).mpr ?_
  rintro ⟨_, _, hgone⟩
  exact hgone

theorem avoids_remove (h : d.contains target) :
    Avoids .staleHandle (d.remove target) WellFormed := by
  change Avoids .staleHandle (d.edit (.remove target)) _
  exact w.avoids_edit (by simp [Edit.content?]) h

theorem avoids_substitute (h : d.contains target) {copies : List Document}
    (hcopies : ∀ copy ∈ copies, copy.WellFormed) :
    Avoids .staleHandle (d.substitute target copies) WellFormed := by
  rw [substitute]
  have hfilled : Avoids .staleHandle
      (copies.foldlM (fun d copy => d.insertBefore target copy.contents) d)
      fun d' => d'.WellFormed ∧ d'.contains target :=
    Avoids.foldlM ⟨w, h⟩ fun d' hd' copy hcopy =>
      hd'.1.avoids_insertBefore hd'.2 (hcopies copy hcopy).complete_contents
  exact hfilled.bind fun _ hd' => hd'.1.avoids_remove hd'.2

end WellFormed
end Document

/-! Selections -/

/-- What is selected is a node that queries meet in a well-formed document, or a text. -/
def Item.Sound : Item → Prop
  | .node document position => document.WellFormed ∧ document.IsQueried position
  | .text _ => True

namespace Item
variable {item : Item} {items : List Item}

theorem Sound.avoids_toFragment (h : item.Sound) :
    Avoids .staleHandle item.toFragment Fragment.Complete := by
  cases item with
  | node document position => exact h.1.avoids_extract (h.1.contains_handleAt h.2.1)
  | text value => exact Fragment.complete_ofText value

theorem avoids_gather (h : ∀ item ∈ items, item.Sound) :
    Avoids .staleHandle (gather items) Fragment.Complete := by
  refine Avoids.map ((Avoids.mapM fun item hitem => ?_).mono fun _ _ => Fragment.complete_join)
  exact (h item hitem).avoids_toFragment

theorem Sound.avoids_filling (h : item.Sound) :
    Avoids .staleHandle item.filling Fragment.Complete := by
  cases item with
  | node document position =>
    rw [filling]
    split
    · exact h.1.avoids_detachChildren h.2.1
    · have hitem : (Item.node document position).Sound := h
      exact hitem.avoids_toFragment
  | text value => exact Fragment.complete_ofText value

end Item

namespace Document.WellFormed
variable {d : Document} {target : Handle} (w : d.WellFormed) (h : d.contains target)
include w h

theorem avoids_graft {items : List Item} (hitems : ∀ item ∈ items, item.Sound) :
    Avoids .staleHandle (d.graft target items) WellFormed := by
  rw [graft]
  refine (avoids_locate h).bind fun p _ => ?_
  split
  · exact (Item.avoids_gather hitems).bind fun f hf => w.avoids_replaceChildren h hf
  · exact w.avoids_setText h _

theorem avoids_fill {item : Item} (hitem : item.Sound) :
    Avoids .staleHandle (d.fill target item) WellFormed := by
  rw [fill]
  refine (avoids_locate h).bind fun p _ => ?_
  split
  · exact hitem.avoids_filling.bind fun f hf => w.avoids_replaceChildren h hf
  · exact w.avoids_setText h _

end Document.WellFormed
end MarkupGraft
