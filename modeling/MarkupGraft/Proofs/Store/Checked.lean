import MarkupGraft.Proofs.Query.Walk
import MarkupGraft.Proofs.Store.Counting
import MarkupGraft.Proofs.Store.Grafting

/-!
Edits and extraction with every lookup checked: each fails at a position outside the sequence, on a
range that is none of the sequence, and on a walk along parents that does not go to the front. On
well-formed documents none of them fails, and each does what it does without the checks.
-/

namespace MarkupGraft

theorem foldlM_eq_some {α β : Type} {f : β → α → Option β} {g : β → α → β} {l : List α}
    (h : ∀ b, ∀ a ∈ l, f b a = some (g b a)) (b : β) : l.foldlM f b = some (l.foldl g b) := by
  induction l generalizing b with
  | nil => rfl
  | cons a l ih =>
    rw [List.foldlM_cons, h b a List.mem_cons_self, List.foldl_cons]
    exact ih (fun b a ha => h b a (List.mem_cons_of_mem _ ha)) (g b a)

theorem Node.isContainer_of_isElement {node : Node} (h : node.isElement) : node.isContainer := by
  cases node <;> simp [isElement, isContainer] at h ⊢

namespace Document
variable (d : Document) {position : Nat}

def node? (position : Nat) : Option Node := d.nodes[position]?

def place? (position : Nat) : Option Place := d.outline[position]?

@[simp] theorem parent?_place : (d.place position).parent? = d.parent? position := rfl

@[simp] theorem last_place : (d.place position).last = d.last position := rfl

@[simp] theorem children_place : (d.place position).children = d.children position := rfl

variable {d} in
theorem node?_eq (h : position < d.length) : d.node? position = some (d.node position) := by
  have h : position < d.nodes.length := by rwa [length_nodes]
  rw [node?, node, List.getD_eq_getElem _ _ h, List.getElem?_eq_getElem h]

variable {d} in
theorem place?_eq (h : position < d.length) : d.place? position = some (d.place position) := by
  have h : position < d.outline.length := by rwa [length_outline]
  rw [place?, place, List.getD_eq_getElem _ _ h, List.getElem?_eq_getElem h]

/-! Walks -/

/-- The position of the first node that is no attribute. -/
def scanAttributes? (position : Nat) : List Node → Option Nat
  | [] => none
  | node :: nodes =>
    if node.isAttribute then scanAttributes? (position + 1) nodes else some position

def contentStart? (position : Nat) : Option Nat :=
  scanAttributes? (position + 1) (d.nodes.drop (position + 1))

def attributes? (position : Nat) : Option (List Nat) := do
  if (← d.node? position).isElement then
    cut? (position + 1) (← d.contentStart? position) (List.range d.length)
  else cut? position position (List.range d.length)

def declare? (s : Scope) (position : Nat) : Option Scope := do
  (← d.attributes? position).foldlM (fun s p => (d.node? p).map fun
    | .attribute name value =>
      match name.declares? with
      | some mark => s.insert mark value
      | none => s
    | _ => s) s

/-- The positions that a walk along parents meets. -/
def climb? (position : Nat) : Option (List Nat) :=
  match d.place? position with
  | none => none
  | some place =>
    match place.parent? with
    | none => some [position]
    | some parent => if parent < position then (climb? parent).map (position :: ·) else none
termination_by position

def scopeAt? (position : Nat) : Option Scope := do
  (← d.climb? position).reverse.foldlM (fun s p => do
    if (← d.node? p).isElement then d.declare? s p else pure s) (Scope.base.override d.inherited)

/-! Edits -/

/-- The document itself, if every container of it is closed. -/
def reindex? : Option Document := if Outline.openedFrom [] 0 d.nodes = [] then some d else none

/-- The nodes of a fragment inside the container at `parent`. -/
def nodesInside? (f : Fragment) (parent : Nat) : Option (List Node) :=
  if f.isEmpty then some [] else (d.scopeAt? parent).bind f.placedUnder?

def splice? (start stop : Nat) (f : Fragment) (parent : Nat) : Option Document := do
  let nodes ← d.nodesInside? f parent
  let _ ← cut? start stop d.entries
  reindex?
    { d with
      entries := d.entries.take start ++ identify d.nextIdent nodes ++ d.entries.drop stop
      nextIdent := d.nextIdent + nodes.length }

def replaceContent? (position : Nat) (f : Fragment) : Option Document := do
  d.splice? (← d.contentStart? position) (← d.place? position).last f position

def edited? (e : Edit Fragment) (position : Nat) : Option Document := do
  match e with
  | .replaceChildren _ f => d.replaceContent? position f
  | .setText _ text =>
    if (← d.node? position).isContainer then d.replaceContent? position (.ofContent text)
    else pure (d.setValue position text)
  | .insertBefore _ f =>
    d.splice? position position f ((← d.place? position).parent?.getD 0)
  | .insertAfter _ f =>
    let place ← d.place? position
    d.splice? (place.last + 1) (place.last + 1) f (place.parent?.getD 0)
  | .remove _ => d.splice? position ((← d.place? position).last + 1) {} 0

def edit? (e : Edit Fragment) : Option (Except StoreError Document) :=
  match d.locate? e.target with
  | none => some (.error .staleHandle)
  | some position => do
    let node ← d.node? position
    if e.supports node then pure (.ok (← d.edited? e position))
    else pure (.error (.invalidKind e.operation node.kind))

/-! Extraction -/

def contents? : Option Fragment :=
  if 0 < d.length then (cut? 1 (d.length - 1) d.nodes).map (⟨·, d.inherited⟩) else none

/-- All content at the top, what stands around it taken off at both ends. -/
def intoContents? : Option Fragment :=
  if 0 < d.length then
    match d.nodes.take (d.length - 1) with
    | [] => none
    | _ :: nodes => some ⟨nodes, d.inherited⟩
  else none

/-- The bindings around a node, given its parent, the base bindings apart. -/
def around? (parent? : Option Nat) : Option Scope :=
  match parent? with
  | some parent => (d.scopeAt? parent).map (·.without .base)
  | none => some d.inherited

def extract? (target : Handle) : Option (Except StoreError Fragment) :=
  match d.locate? target with
  | none => some (.error .staleHandle)
  | some position => do
    let place ← d.place? position
    match ← d.node? position with
    | .document => pure (.ok ⟨← cut? 1 place.last d.nodes, d.inherited⟩)
    | .attribute _ value => pure (.ok (.ofText value))
    | .finish => pure (.error (.invalidKind .extract .finish))
    | _ =>
      let scope ← d.around? place.parent?
      pure (.ok ⟨← cut? position (place.last + 1) d.nodes, scope⟩)

def copySubtree? (id : Nat) (target : Handle) : Option (Except StoreError Document) := do
  match ← d.extract? target with
  | .error e => pure (.error e)
  | .ok f => pure (.ok (← { ofFragment id f with mode := d.mode }.reindex?))

/-! What the walks meet -/

theorem scanAttributes?_eq_some {nodes : List Node} (position : Nat)
    (h : (nodes.takeWhile Node.isAttribute).length < nodes.length) :
    scanAttributes? position nodes =
      some (position + (nodes.takeWhile Node.isAttribute).length) := by
  induction nodes generalizing position with
  | nil => exact absurd h (Nat.lt_irrefl _)
  | cons node nodes ih =>
    by_cases hn : node.isAttribute = true
    · rw [List.takeWhile_cons_of_pos hn, List.length_cons, List.length_cons] at h
      rw [scanAttributes?, if_pos hn, ih _ (by omega), List.takeWhile_cons_of_pos hn,
        List.length_cons]
      congr 1
      omega
    · rw [scanAttributes?, if_neg hn, List.takeWhile_cons_of_neg hn]
      rfl

variable {d}

namespace WellFormed
variable (w : d.WellFormed)
include w

/-- The content of a container begins behind it, and not behind its end marker. -/
theorem contentStart_spec (hp : position < d.length) (hc : (d.node position).isContainer) :
    position < d.contentStart position ∧ d.contentStart position ≤ d.last position ∧
      d.last position < d.length := by
  refine ⟨?_, w.contentStart_le_last hp hc, (w.paired hp hc).2.1⟩
  rw [contentStart]
  omega

theorem contentStart?_eq (hp : position < d.length) (hc : (d.node position).isContainer) :
    d.contentStart? position = some (d.contentStart position) := by
  obtain ⟨-, hle, hlast⟩ := w.contentStart_spec hp hc
  refine scanAttributes?_eq_some (position + 1) ?_
  rw [contentStart] at hle
  rw [List.length_drop, length_nodes]
  omega

-- Where no end marker stands behind the attributes, the scan leaves the sequence.
omit w in
example : (ofNodes 0 .xml [.document, .attribute ⟨"", "k"⟩ ""]).contentStart? 0 = none := by decide

theorem attributes?_eq (hp : position < d.length) :
    d.attributes? position = some (d.attributes position) := by
  rw [attributes?, node?_eq hp, Document.attributes]
  simp only [Option.bind_eq_bind, Option.bind_some]
  split
  · rename_i helement
    have hc := Node.isContainer_of_isElement helement
    obtain ⟨hlt, hle, hlast⟩ := w.contentStart_spec hp hc
    rw [w.contentStart?_eq hp hc, Option.bind_some,
      cut?_eq_some hlt (by rw [List.length_range]; omega), List.take_range,
      Nat.min_eq_left (by omega)]
  · rw [cut?_eq_some (Nat.le_refl _) (by rw [List.length_range]; omega)]
    simp

theorem lt_of_mem_attributes (hp : position < d.length) {a : Nat}
    (h : a ∈ d.attributes position) : position < a ∧ a < d.length := by
  rw [Document.attributes] at h
  split at h
  · rename_i helement
    obtain ⟨-, hle, hlast⟩ := w.contentStart_spec hp (Node.isContainer_of_isElement helement)
    rw [List.range_eq_range', List.drop_range', List.mem_range'_1] at h
    omega
  · cases h

theorem declare?_eq (hp : position < d.length) (s : Scope) :
    d.declare? s position = some (d.declare s position) := by
  rw [declare?, w.attributes?_eq hp, declare]
  refine foldlM_eq_some (fun s a ha => ?_) s
  rw [node?_eq (w.lt_of_mem_attributes hp ha).2]
  rfl

/-- A walk along parents meets the ancestors, and ends at the front. -/
theorem climb?_eq (hp : position < d.length) :
    d.climb? position = some (position :: d.ancestors position) ∧
      (position :: d.ancestors position).getLast? = some 0 ∧
      ∀ p ∈ d.ancestors position, p < position := by
  induction position using Nat.strongRecOn with
  | ind position ih =>
    rw [climb?, place?_eq hp, ancestors]
    simp only [parent?_place]
    rcases Nat.eq_zero_or_pos position with rfl | hpos
    · simp [w.parent_zero]
    · obtain ⟨parent, hparent⟩ := w.exists_parent hp hpos
      have hlt := (w.parent_spec hp hparent).1
      obtain ⟨hclimb, hlast, hmem⟩ := ih parent hlt (by omega)
      simp only [hparent, hlt, if_true, hclimb]
      refine ⟨rfl, List.getLast?_cons_cons.trans hlast, fun p hm => ?_⟩
      rcases List.mem_cons.mp hm with rfl | hm
      · exact hlt
      · exact Nat.lt_trans (hmem p hm) hlt

theorem scopeAt?_eq (hp : position < d.length) :
    d.scopeAt? position = some (d.scopeAt position) := by
  obtain ⟨hclimb, -, hmem⟩ := w.climb?_eq hp
  rw [scopeAt?, hclimb, scopeAt]
  refine foldlM_eq_some (fun s p hm => ?_) _
  have hlt : p < d.length := by
    rcases List.mem_cons.mp (List.mem_reverse.mp hm) with rfl | hm
    · exact hp
    · exact Nat.lt_trans (hmem p hm) hp
  rw [node?_eq hlt, w.declare?_eq hlt]
  simp only [Option.bind_eq_bind, Option.bind_some]
  split <;> rfl

/-- What stands beside a node goes into its parent, and into the document where it has none. -/
theorem parent_lt (hp : position < d.length) : (d.parent? position).getD 0 < d.length := by
  cases hparent : d.parent? position with
  | none => exact w.length_pos
  | some parent => exact Nat.lt_trans (w.parent_spec hp hparent).1 hp

/-! Edits -/

theorem reindex?_eq : d.reindex? = some d := by
  refine if_pos ?_
  rw [w.nodes_eq, Outline.openedFrom, Outline.openedFrom_append, Outline.openedFrom_listingAll]
  rfl

theorem splice?_eq {start stop parent : Nat} {f : Fragment} (hf : f.Complete)
    (hparent : parent < d.length) (hle : start ≤ stop) (hstop : stop ≤ d.length)
    (hw : (d.splice start stop f parent).WellFormed) :
    d.splice? start stop f parent = some (d.splice start stop f parent) := by
  have hnodes : d.nodesInside? f parent =
      some (if f.isEmpty then [] else f.placedUnder (d.scopeAt parent)) := by
    rw [nodesInside?]
    split
    · rfl
    · rw [w.scopeAt?_eq hparent]
      exact hf.placedUnder?_eq _
  rw [splice?, hnodes, cut?_eq_some hle hstop]
  exact hw.reindex?_eq

theorem last_lt (hp : position < d.length) : d.last position < d.length := by
  by_cases hc : (d.node position).isContainer
  · exact (w.paired hp hc).2.1
  · rwa [(w.alone hp hc).1]

theorem replaceContent?_eq {f : Fragment} (hf : f.Complete) (hp : position < d.length)
    (hc : (d.node position).isContainer)
    (hw : (d.splice (d.contentStart position) (d.last position) f position).WellFormed) :
    d.replaceContent? position f =
      some (d.splice (d.contentStart position) (d.last position) f position) := by
  rw [replaceContent?, w.contentStart?_eq hp hc, place?_eq hp]
  obtain ⟨-, hle, hlast⟩ := w.contentStart_spec hp hc
  exact w.splice?_eq hf hp hle (Nat.le_of_lt hlast) hw

theorem edited?_eq {e : Edit Fragment} (hf : ∀ f ∈ e.content?, f.Complete)
    (hp : d.locate? e.target = some position) (hlt : position < d.length)
    (hs : e.supports (d.node position)) : d.edited? e position = some (d.edited e position) := by
  have hw := (w.edited hf hp hs).1
  have hparent := w.parent_lt hlt
  have hlast := w.last_lt hlt
  have hle := w.le_last hlt
  cases e with
  | replaceChildren target f => exact w.replaceContent?_eq (hf f rfl) hlt hs hw
  | setText target text =>
    rw [Document.edited] at hw
    rw [edited?, node?_eq hlt, Document.edited, Option.bind_eq_bind, Option.bind_some]
    split
    · rename_i hc
      rw [if_pos hc] at hw
      exact w.replaceContent?_eq (Fragment.complete_ofContent text) hlt hc hw
    · rfl
  | insertBefore target f =>
    rw [edited?, place?_eq hlt]
    exact w.splice?_eq (hf f rfl) hparent (Nat.le_refl _) (Nat.le_of_lt hlt) hw
  | insertAfter target f =>
    rw [edited?, place?_eq hlt]
    exact w.splice?_eq (hf f rfl) hparent (Nat.le_refl _) hlast hw
  | remove target =>
    rw [edited?, place?_eq hlt]
    exact w.splice?_eq Fragment.complete_empty w.length_pos (Nat.le_succ_of_le hle) hlast hw

/-- An edit with every lookup checked is the edit. -/
theorem edit?_eq {e : Edit Fragment} (hf : ∀ f ∈ e.content?, f.Complete) :
    d.edit? e = some (d.edit e) := by
  rw [edit?, edit_eq]
  cases hp : d.locate? e.target with
  | none => rfl
  | some p =>
    have hlt := w.lt_length_of_locate? hp
    simp only [node?_eq hlt, Option.bind_eq_bind, Option.bind_some]
    split
    · rename_i hs
      rw [w.edited?_eq hf hp hlt hs]
      rfl
    · rfl

/-! Extraction -/

theorem contents?_eq : d.contents? = some d.contents := by
  have hlast := w.last_root
  have hpos := (w.paired w.length_pos w.isContainer_zero).1
  have hcut : cut? 1 (d.length - 1) d.nodes = some (d.slice 1 (d.length - 1)) :=
    cut?_eq_some (by omega) (by rw [length_nodes]; omega)
  rw [contents?, if_pos w.length_pos, hcut]
  rfl

theorem intoContents?_eq : d.intoContents? = some d.contents := by
  have hlast := w.last_root
  have hpos := (w.paired w.length_pos w.isContainer_zero).1
  rw [intoContents?, if_pos w.length_pos, contents, slice]
  cases hkept : d.nodes.take (d.length - 1) with
  | nil =>
    have := congrArg List.length hkept
    rw [List.length_take, length_nodes, List.length_nil] at this
    omega
  | cons node nodes => rfl

theorem extract?_eq (target : Handle) : d.extract? target = some (d.extract target) := by
  rw [extract?]
  cases hp : d.locate? target with
  | none =>
    rw [extract, locate, hp]
    rfl
  | some p =>
    have hlt := w.lt_length_of_locate? hp
    have hlast := w.last_lt hlt
    have hle := w.le_last hlt
    have hextent : cut? p (d.last p + 1) d.nodes = some (d.extent p) :=
      cut?_eq_some (by omega) (by rwa [length_nodes])
    have haround : d.around? (d.parent? p) = some (match d.parent? p with
        | some parent => (d.scopeAt parent).without .base
        | none => d.inherited) := by
      cases hparent : d.parent? p with
      | none => rfl
      | some parent =>
        have hlt : parent < d.length := Nat.lt_trans (w.parent_spec hlt hparent).1 hlt
        rw [around?, w.scopeAt?_eq hlt, Option.map_some]
    rw [extract_eq hp]
    simp only [place?_eq hlt, node?_eq hlt, Option.bind_eq_bind, Option.bind_some, parent?_place,
      last_place]
    cases hn : d.node p with
    | document =>
      have hcontainer : (d.node p).isContainer := by
        rw [hn]
        rfl
      have hpos := (w.paired hlt hcontainer).1
      have hcut : cut? 1 (d.last p) d.nodes = some (d.slice 1 (d.last p)) :=
        cut?_eq_some (by omega) (by rw [length_nodes]; omega)
      simp only [hcut]
      rfl
    | «attribute» | finish => rfl
    | _ =>
      simp only [haround, hextent]
      rfl

theorem copySubtree?_eq (id : Nat) (target : Handle) :
    d.copySubtree? id target = some (d.copySubtree id target) := by
  rw [copySubtree?, w.extract?_eq]
  cases hf : d.extract target with
  | error e =>
    rw [Document.copySubtree, hf]
    rfl
  | ok f =>
    have hcopy : d.copySubtree id target = .ok { ofFragment id f with mode := d.mode } := by
      rw [Document.copySubtree, hf]
      rfl
    have hw := (w.copySubtree hcopy).1
    simp only [Option.bind_eq_bind, Option.bind_some, hw.reindex?_eq, hcopy]
    rfl

end WellFormed
end Document
end MarkupGraft
