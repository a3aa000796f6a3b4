import MarkupGraft.Proofs.Store.Content
import MarkupGraft.Proofs.Store.Splicing

/-!
How handles follow their nodes through an edit: the nodes outside the replaced range keep their
handles, their order, and all but the value that the edit sets.
-/

namespace MarkupGraft

namespace Node

/-- Whether the node has a text of its own. -/
def holdsText (node : Node) : Bool := !node.isContainer && node ≠ .finish

@[simp] theorem kind_withValue (node : Node) (text : String) :
    (node.withValue text).kind = node.kind := by
  cases node <;> rfl

@[simp] theorem name?_withValue (node : Node) (text : String) :
    (node.withValue text).name? = node.name? := by
  cases node <;> rfl

theorem value_withValue {node : Node} (h : node.holdsText) (text : String) :
    (node.withValue text).value = text := by
  cases node <;> first | rfl | simp [holdsText, isContainer] at h

end Node

namespace Edit
variable {α : Type} (d : Document) (p : Nat)

/-- Whether the edit, whose target stands at `p`, discards the node at `q`: it stands in the extent of
an old child, or in the extent of the removed target. -/
def Discards (q : Nat) : Edit α → Prop
  | .replaceChildren _ _ | .setText _ _ => ∃ c ∈ d.children p, c ≤ q ∧ q ≤ d.last c
  | .insertBefore _ _ | .insertAfter _ _ => False
  | .remove _ => p ≤ q ∧ q ≤ d.last p

/-- The text that the edit gives to the leaf at `q`. -/
def textFor? (q : Nat) : Edit α → Option String
  | .setText _ text => if q = p ∧ (d.node q).holdsText then some text else none
  | _ => none

end Edit

theorem Edit.textFor?_of_not_supports {α : Type} {e : Edit α} {d : Document} {p : Nat}
    (h : ¬e.supports (d.node p)) (q : Nat) : e.textFor? d p q = none := by
  cases e with
  | setText target text =>
    simp only [supports, decide_eq_true_eq, not_not] at h
    rw [textFor?, if_neg]
    rintro ⟨rfl, hq⟩
    simp [Node.holdsText, h] at hq
  | _ => rfl

/-- How a document goes on: some nodes are gone, and all others are where they were among them, with
other values at most. -/
structure Document.Follows (d d' : Document) (gone : Handle → Prop)
    (value : Handle → String → String) : Prop where
  id_eq : d'.id = d.id
  nextIdent_le : d.nextIdent ≤ d'.nextIdent
  stale {h : Handle} (hi : h.ident < d.nextIdent) (hd : d.locate? h = none) : d'.locate? h = none
  resolves {h : Handle} {p : Nat} (hp : d.locate? h = some p) :
    (d'.locate? h).isSome ↔ ¬gone h
  node {h : Handle} {p q : Nat} (hp : d.locate? h = some p) (hq : d'.locate? h = some q) :
    (d'.node q).kind = (d.node p).kind ∧ (d'.node q).name? = (d.node p).name? ∧
      (d'.node q).value = value h (d.node p).value
  ordered {h k : Handle} {p p' q q' : Nat} (hp : d.locate? h = some p) (hp' : d.locate? k = some p')
    (hq : d'.locate? h = some q) (hq' : d'.locate? k = some q') (hlt : p < p') : q < q'

namespace Document
variable {d : Document}

namespace Follows

theorem refl (d : Document) : d.Follows d (fun _ => False) (fun _ value => value) where
  id_eq := rfl
  nextIdent_le := Nat.le_refl _
  stale _ hd := hd
  resolves hp := by simp [hp]
  node hp hq := by
    obtain rfl := Option.some.inj (hp.symm.trans hq)
    exact ⟨rfl, rfl, rfl⟩
  ordered hp hp' hq hq' hlt := by
    obtain rfl := Option.some.inj (hp.symm.trans hq)
    obtain rfl := Option.some.inj (hp'.symm.trans hq')
    exact hlt

variable {d' : Document} {gone gone' : Handle → Prop} {value value' : Handle → String → String}

/-- Only what is said of handles that resolve matters. -/
theorem congr (hf : d.Follows d' gone value)
    (hg : ∀ {h p}, d.locate? h = some p → (gone h ↔ gone' h))
    (hv : ∀ {h p}, d.locate? h = some p → value h = value' h) : d.Follows d' gone' value' where
  id_eq := hf.id_eq
  nextIdent_le := hf.nextIdent_le
  stale := hf.stale
  resolves hp := (hf.resolves hp).trans (not_congr (hg hp))
  node hp hq := by
    rw [← hv hp]
    exact hf.node hp hq
  ordered := hf.ordered

end Follows

/-- A handle that resolves has been issued. -/
theorem WellFormed.ident_lt_of_locate? (w : d.WellFormed) {h : Handle} {p : Nat}
    (hp : d.locate? h = some p) : h.ident < d.nextIdent := by
  obtain ⟨-, e, he, hi⟩ := (locate?_eq_some_iff w.nodup).mp hp
  rw [← hi]
  exact w.ident_lt (List.mem_of_getElem? he)

namespace Follows
variable {d₁ d₂ : Document} {gone₁ gone₂ : Handle → Prop} {value₁ value₂ : Handle → String → String}

theorem trans (w : d.WellFormed) (h₁ : d.Follows d₁ gone₁ value₁) (h₂ : d₁.Follows d₂ gone₂ value₂) :
    d.Follows d₂ (fun h => gone₁ h ∨ gone₂ h) (fun h text => value₂ h (value₁ h text)) := by
  have middle {h : Handle} {p q : Nat} (hp : d.locate? h = some p) (hq : d₂.locate? h = some q) :
      ∃ m, d₁.locate? h = some m := by
    cases hm : d₁.locate? h with
    | some m => exact ⟨m, rfl⟩
    | none =>
      have hi := w.ident_lt_of_locate? hp
      have := h₂.stale (Nat.lt_of_lt_of_le hi h₁.nextIdent_le) hm
      rw [this] at hq
      cases hq
  constructor
  case id_eq => exact h₂.id_eq.trans h₁.id_eq
  case nextIdent_le => exact Nat.le_trans h₁.nextIdent_le h₂.nextIdent_le
  case stale =>
    intro h hi hd
    exact h₂.stale (Nat.lt_of_lt_of_le hi h₁.nextIdent_le) (h₁.stale hi hd)
  case resolves =>
    intro h p hp
    have hr := h₁.resolves hp
    cases hm : d₁.locate? h with
    | none =>
      have hi := w.ident_lt_of_locate? hp
      rw [hm] at hr
      simp only [Option.isSome_none, Bool.false_eq_true, false_iff, not_not] at hr
      simp [h₂.stale (Nat.lt_of_lt_of_le hi h₁.nextIdent_le) hm, hr]
    | some m =>
      rw [hm] at hr
      simp only [Option.isSome_some, true_iff] at hr
      simp [h₂.resolves hm, hr]
  case node =>
    intro h p q hp hq
    obtain ⟨m, hm⟩ := middle hp hq
    obtain ⟨hk, hn, hv⟩ := h₁.node hp hm
    obtain ⟨hk', hn', hv'⟩ := h₂.node hm hq
    exact ⟨hk'.trans hk, hn'.trans hn, by rw [hv', hv]⟩
  case ordered =>
    intro h k p p' q q' hp hp' hq hq' hlt
    obtain ⟨m, hm⟩ := middle hp hq
    obtain ⟨m', hm'⟩ := middle hp' hq'
    exact h₂.ordered hm hm' hq hq' (h₁.ordered hp hp' hm hm' hlt)

end Follows

/-! Where a splice moves a position -/

/-- Where the node at a position stands when `count` nodes have come into the place of those from
`start` up to `stop`. -/
def moved? (start stop count position : Nat) : Option Nat :=
  if position < start then some position
  else if position < stop then none
  else some (start + count + (position - stop))

variable {start stop parent : Nat} {f : Fragment}

private theorem entries_splice_eq (d : Document) (start stop : Nat) (f : Fragment) (parent : Nat) :
    ∃ new : List Entry, (d.splice start stop f parent).entries =
        d.entries.take start ++ (new ++ d.entries.drop stop) ∧
      (∀ e ∈ new, d.nextIdent ≤ e.ident) ∧
      (d.splice start stop f parent).nextIdent = d.nextIdent + new.length := by
  let nodes := if f.isEmpty then [] else f.placedUnder (d.scopeAt parent)
  refine ⟨identify d.nextIdent nodes, ?_, fun e he => ?_, ?_⟩
  · rw [splice, List.append_assoc]
  · have := List.mem_map_of_mem (f := Entry.ident) he
    rw [idents_identify, List.mem_range'_1] at this
    exact this.1
  · rw [length_identify]
    rfl

/-- The entry at a position stands where it is moved to. -/
private theorem getElem?_spliced {entries new : List Entry} (hle : start ≤ stop)
    (hstop : stop ≤ entries.length) {p q : Nat} (hq : moved? start stop new.length p = some q) :
    (entries.take start ++ (new ++ entries.drop stop))[q]? = entries[p]? := by
  have hlength : (entries.take start).length = start := by
    rw [List.length_take]
    omega
  unfold moved? at hq
  split at hq
  · rename_i hlt
    obtain rfl := Option.some.inj hq
    rw [List.getElem?_append_left (by omega), List.getElem?_take_of_lt hlt]
  · split at hq
    · cases hq
    · obtain rfl := Option.some.inj hq
      rw [List.getElem?_append_right (by omega), hlength, List.getElem?_append_right (by omega),
        List.getElem?_drop]
      congr 1
      omega

/-- Every entry that has been issued before stands where it has been moved to. -/
private theorem exists_moved {entries new : List Entry} (hle : start ≤ stop)
    (hstop : stop ≤ entries.length) {q next : Nat} {e : Entry} (hi : e.ident < next)
    (hnew : ∀ e ∈ new, next ≤ e.ident)
    (he : (entries.take start ++ (new ++ entries.drop stop))[q]? = some e) :
    ∃ p, moved? start stop new.length p = some q ∧ entries[p]? = some e := by
  have hlength : (entries.take start).length = start := by
    rw [List.length_take]
    omega
  by_cases hq : q < start
  · have hm : moved? start stop new.length q = some q := if_pos hq
    exact ⟨q, hm, by rw [← getElem?_spliced hle hstop hm, he]⟩
  · by_cases hn : q < start + new.length
    · rw [List.getElem?_append_right (by omega), hlength,
        List.getElem?_append_left (by omega)] at he
      have := hnew e (List.mem_of_getElem? he)
      omega
    · have hm : moved? start stop new.length (q - (start + new.length) + stop) = some q := by
        rw [moved?, if_neg (by omega), if_neg (by omega)]
        congr 1
        omega
      exact ⟨_, hm, by rw [← getElem?_spliced hle hstop hm, he]⟩

theorem moved?_lt {count p p' q q' : Nat} (hlt : p < p')
    (hq : moved? start stop count p = some q) (hq' : moved? start stop count p' = some q') :
    q < q' := by
  unfold moved? at hq hq'
  split at hq <;> split at hq' <;> (try split at hq) <;> (try split at hq') <;>
    simp only [Option.some.injEq, reduceCtorEq] at hq hq' <;> omega

namespace WellFormed
variable (w : d.WellFormed)
include w

/-- A splice moves the handles that have been issued with their nodes. -/
theorem locate?_splice (f : Fragment) (parent : Nat) (hle : start ≤ stop) (hstop : stop ≤ d.length) :
    ∃ count, ∀ h : Handle, h.ident < d.nextIdent →
      ((d.splice start stop f parent).locate? h =
          (d.locate? h).bind (moved? start stop count)) ∧
        ∀ p q, d.locate? h = some p → (d.splice start stop f parent).locate? h = some q →
          (d.splice start stop f parent).node q = d.node p := by
  obtain ⟨new, hentries, hnew, -⟩ := entries_splice_eq d start stop f parent
  have hn : ((d.splice start stop f parent).entries.map (·.ident)).Nodup :=
    nodup_splice w.nodup (fun _ => w.ident_lt) hle
  have hstop : stop ≤ d.entries.length := hstop
  have hid : (d.splice start stop f parent).id = d.id := rfl
  refine ⟨new.length, fun h hi => ?_⟩
  have hiff {q : Nat} : (d.splice start stop f parent).locate? h = some q ↔
      ∃ p, d.locate? h = some p ∧ moved? start stop new.length p = some q := by
    rw [locate?_eq_some_iff hn, hid, hentries]
    constructor
    · rintro ⟨hd, e, he, hei⟩
      obtain ⟨p, hm, hp⟩ := exists_moved hle hstop (hei ▸ hi) hnew he
      exact ⟨p, (locate?_eq_some_iff w.nodup).mpr ⟨hd, e, hp, hei⟩, hm⟩
    · rintro ⟨p, hp, hm⟩
      obtain ⟨hd, e, he, hei⟩ := (locate?_eq_some_iff w.nodup).mp hp
      exact ⟨hd, e, (getElem?_spliced hle hstop hm).trans he, hei⟩
  refine ⟨?_, fun p q hp hq => ?_⟩
  · refine Option.ext fun q => ?_
    rw [hiff, Option.bind_eq_some_iff]
  · obtain ⟨p', hp', hm⟩ := hiff.mp hq
    obtain rfl := Option.some.inj (hp.symm.trans hp')
    rw [node, node, nodes, nodes, hentries, List.getD_eq_getElem?_getD, List.getD_eq_getElem?_getD,
      List.getElem?_map, List.getElem?_map, getElem?_spliced hle hstop hm]

theorem follows_splice (hle : start ≤ stop) (hstop : stop ≤ d.length) :
    d.Follows (d.splice start stop f parent)
      (fun h => ∃ q, d.locate? h = some q ∧ start ≤ q ∧ q < stop) (fun _ value => value) := by
  obtain ⟨count, hmoved⟩ := w.locate?_splice f parent hle hstop
  constructor
  case id_eq => rfl
  case nextIdent_le => exact Nat.le_add_right _ _
  case stale =>
    intro h hi hd
    rw [(hmoved h hi).1, hd]
    rfl
  case resolves =>
    intro h p hp
    rw [(hmoved h (w.ident_lt_of_locate? hp)).1, hp, Option.bind_some, moved?]
    simp only [Option.some.injEq, exists_eq_left']
    split
    · simp
      omega
    · split
      · simp
        omega
      · simp
        omega
  case node =>
    intro h p q hp hq
    rw [(hmoved h (w.ident_lt_of_locate? hp)).2 p q hp hq]
    exact ⟨rfl, rfl, rfl⟩
  case ordered =>
    intro h k p p' q q' hp hp' hq hq' hlt
    rw [(hmoved h (w.ident_lt_of_locate? hp)).1, hp] at hq
    rw [(hmoved k (w.ident_lt_of_locate? hp')).1, hp'] at hq'
    exact moved?_lt hlt hq hq'

omit w in
private theorem locate?_setValue (p : Nat) (text : String) (h : Handle) :
    (d.setValue p text).locate? h = d.locate? h := by
  have hidents : (d.setValue p text).entries.map (·.ident) = d.entries.map (·.ident) :=
    idents_setValue text
  have hfind (entries : List Entry) : entries.findIdx? (fun e => e.ident = h.ident) =
      (entries.map (·.ident)).findIdx? (· = h.ident) := by
    rw [List.findIdx?_map]
    rfl
  rw [locate?, locate?, hfind, hfind, hidents]
  rfl

omit w in
private theorem node_setValue (p q : Nat) (text : String) :
    (d.setValue p text).node q = if q = p then (d.node q).withValue text else d.node q := by
  have hentry : (d.setValue p text).entries[q]? = d.entries[q]?.map fun e =>
      if p = q then { e with node := e.node.withValue text } else e := by
    rw [Document.setValue, List.getElem?_modify]
    rfl
  simp only [node, nodes, List.getD_eq_getElem?_getD, List.getElem?_map, hentry, eq_comm (a := p)]
  split <;> cases d.entries[q]? <;> rfl

omit w in
theorem follows_setValue {p : Nat} (hp : (d.node p).holdsText) (text : String) :
    d.Follows (d.setValue p text) (fun _ => False)
      (fun h value => if d.locate? h = some p then text else value) where
  id_eq := rfl
  nextIdent_le := Nat.le_refl _
  stale {h} _ hd := by rw [locate?_setValue, hd]
  resolves {h q} hq := by simp [locate?_setValue, hq]
  node {h q q'} hq hq' := by
    rw [locate?_setValue] at hq'
    obtain rfl := Option.some.inj (hq.symm.trans hq')
    rw [node_setValue, hq]
    by_cases hqp : q = p
    · subst hqp
      rw [if_pos rfl, if_pos rfl]
      exact ⟨Node.kind_withValue _ _, Node.name?_withValue _ _, Node.value_withValue hp text⟩
    · rw [if_neg hqp, if_neg fun h => hqp (Option.some.inj h)]
      exact ⟨rfl, rfl, rfl⟩
  ordered {h k q q' r r'} hq hq' hr hr' hlt := by
    rw [locate?_setValue] at hr hr'
    obtain rfl := Option.some.inj (hq.symm.trans hr)
    obtain rfl := Option.some.inj (hq'.symm.trans hr')
    exact hlt

/-- A splice that takes away what the edit discards. -/
private theorem follows_range {gone : Nat → Prop} {text? : Nat → Option String} (hle : start ≤ stop)
    (hstop : stop ≤ d.length) (hg : ∀ q, gone q ↔ start ≤ q ∧ q < stop) (ht : ∀ q, text? q = none) :
    d.Follows (d.splice start stop f parent) (fun h => ∃ q, d.locate? h = some q ∧ gone q)
      (fun h value => ((d.locate? h).bind text?).getD value) := by
  refine (w.follows_splice hle hstop).congr (fun _ => ?_) fun {h q} hq => ?_
  · simp only [hg]
  · funext value
    rw [hq, Option.bind_some, ht]
    rfl

/-- How a document goes on after a successful edit whose target stands at `p`. -/
theorem follows_edited {e : Edit Fragment} {p : Nat} (hp : p < d.length)
    (hs : e.supports (d.node p)) :
    d.Follows (d.edited e p) (fun h => ∃ q, d.locate? h = some q ∧ e.Discards d p q)
      (fun h value => ((d.locate? h).bind fun q => e.textFor? d p q).getD value) := by
  have hlast : d.last p + 1 ≤ d.length := by
    by_cases hc : (d.node p).isContainer
    · obtain ⟨-, hlt, -⟩ := w.paired hp hc
      exact hlt
    · rw [(w.alone hp hc).1]
      exact hp
  have hle := w.le_last hp
  cases e with
  | replaceChildren target f =>
    exact w.follows_range (w.contentStart_le_last hp hs) (by omega)
      (fun q => w.exists_child_iff hp hs) fun q => rfl
  | setText target text =>
    by_cases hc : (d.node p).isContainer
    · rw [Document.edited, if_pos hc]
      refine w.follows_range (w.contentStart_le_last hp hc) (by omega)
        (fun q => w.exists_child_iff hp hc) fun q => ?_
      rw [Edit.textFor?, if_neg]
      rintro ⟨rfl, hq⟩
      simp [Node.holdsText, hc] at hq
    · have hholds : (d.node p).holdsText := by
        simp only [Edit.supports] at hs
        simp [Node.holdsText, hc, hs]
      rw [Document.edited, if_neg hc]
      refine (follows_setValue hholds text).congr (fun {h q} hq => ?_) fun {h q} hq => ?_
      · simp [Edit.Discards, (w.alone hp hc).2]
      · funext value
        rw [hq, Option.bind_some, Edit.textFor?]
        by_cases hqp : q = p
        · subst hqp
          rw [if_pos rfl, if_pos ⟨rfl, hholds⟩]
          rfl
        · rw [if_neg fun h => hqp (Option.some.inj h), if_neg fun h => hqp h.1]
          rfl
  | insertBefore target f =>
    refine w.follows_range (Nat.le_refl p) (by omega) (fun q => ?_) fun q => rfl
    simp only [Edit.Discards, false_iff]
    omega
  | insertAfter target f =>
    refine w.follows_range (Nat.le_refl _) hlast (fun q => ?_) fun q => rfl
    simp only [Edit.Discards, false_iff]
    omega
  | remove target =>
    refine w.follows_range (by omega) hlast (fun q => ?_) fun q => rfl
    simp only [Edit.Discards]
    omega

end WellFormed

end Document

end MarkupGraft
