import MarkupGraft.Proofs.Store.Grafting
import MarkupGraft.Proofs.Template.Content

/-!
The guard of a mapping. A mapping that is for empty targets only is held back when one of its targets
has a child. What it would have done itself is left out then, but what stands inside is not: unless
the mapping repeats, that is executed in its place.
-/

namespace MarkupGraft
open Work

/-- Whether its guard holds a mapping back at a node of a template: a target that it finds from there
has a child. -/
def Mapping.HeldBack (m : Mapping) (d : Document) (node : Handle) : Prop :=
  m.onlyIfEmpty ∧ ∃ target p found, m.target? = some target ∧ d.locate? node = some p ∧
    target.select d.view p = .ok found ∧ ∃ q ∈ found, ∃ c ∈ d.children q, ¬ (d.node c).isDoctype

/-- Whether its guard finds at a node of a template that no target of a mapping has a child. -/
def Mapping.LetThrough (m : Mapping) (d : Document) (node : Handle) : Prop :=
  ∀ target, m.target? = some target → ∃ p found, d.locate? node = some p ∧
    target.select d.view p = .ok found ∧ ∀ q ∈ found, ∀ c ∈ d.children q, (d.node c).isDoctype

/-- Whether an instruction does nothing at a node of a template, whatever the source is: it is a mapping
that its guard holds back, and so are all those inside that are not for copies. -/
inductive Instruction.Idle (d : Document) (node : Handle) : Instruction → Prop
  | repeats {m : Mapping} {body : List Instruction} :
    m.HeldBack d node → m.repeats → Idle d node (.map m body)
  | inside {m : Mapping} {body : List Instruction} :
    m.HeldBack d node → (∀ i ∈ body, Idle d node i) → Idle d node (.map m body)

namespace Mapping
variable {m : Mapping} {node : Handle} {w : Workspace}

theorem outcome_isFilled {target : Query} {p : Nat} {found : List Nat}
    (hp : w.template.locate? node = some p)
    (hfound : target.select w.template.view p = .ok found) :
    outcome (isFilled target node) w =
      (.ok (found.any fun q => !(w.template.view.children q).isEmpty), w) := by
  rw [isFilled, outcome_bind, outcome_template]
  dsimp only
  rw [outcome_bind, outcome_find target hp, hfound]
  rfl

theorem HeldBack.contains (h : m.HeldBack w.template node) : w.template.contains node := by
  obtain ⟨-, -, p, -, -, hp, -⟩ := h
  exact Document.contains_iff.mpr ⟨p, hp⟩

variable {env : Environment} {fills : Bool} {body : Body} {f : Frame}

theorem perform_heldBack (h : m.HeldBack w.template node) :
    outcome (m.perform env fills body f node) w = (.ok (), w) := by
  obtain ⟨honly, target, p, found, htarget, hp, hfound, q, hq, c, hc, hdoctype⟩ := h
  have hfilled : (found.any fun q => !(w.template.view.children q).isEmpty) = true := by
    refine List.any_eq_true.mpr ⟨q, hq, ?_⟩
    rw [Document.view_children, Bool.not_eq_true', List.isEmpty_eq_false_iff_exists_mem]
    exact ⟨c, List.mem_filter.mpr ⟨hc, by simpa using hdoctype⟩⟩
  rw [perform, honly, htarget]
  dsimp only
  rw [outcome_bind, outcome_isFilled hp hfound, hfilled]
  rfl

/-- A guard that does not hold a mapping back makes no difference. -/
theorem perform_letThrough (h : m.LetThrough w.template node) :
    outcome (m.perform env fills body f node) w =
      outcome ({ m with onlyIfEmpty := false }.perform env fills body f node) w := by
  cases honly : m.onlyIfEmpty with
  | false => rw [← honly]
  | true =>
    cases htarget : m.target? with
    | none =>
      simp only [perform, honly, htarget]
      rfl
    | some target =>
      obtain ⟨p, found, hp, hfound, hchildren⟩ := h target htarget
      have hempty : (found.any fun q => !(w.template.view.children q).isEmpty) = false := by
        refine List.any_eq_false.mpr fun q hq => ?_
        rw [Document.view_children]
        simpa using hchildren q hq
      simp only [perform, honly, htarget]
      rw [outcome_bind, outcome_isFilled hp hfound, hempty, outcome_bind]
      rfl

end Mapping

namespace Program
variable {env : Environment} {f : Frame} {node : Handle} {w : Workspace} {m : Mapping}
  {body : List Instruction}

theorem executeAll_unchanged {instructions : List Instruction}
    (h : ∀ i ∈ instructions, outcome (execute env f node i) w = (.ok (), w)) :
    outcome (executeAll env f node instructions) w = (.ok (), w) := by
  induction instructions with
  | nil => rfl
  | cons i instructions ih =>
    rw [executeAll, outcome_bind, h i List.mem_cons_self]
    exact ih fun j hj => h j (List.mem_cons_of_mem i hj)

/-- A mapping that is held back leaves what stands inside to be executed in its place. -/
theorem execute_map_heldBack (h : m.HeldBack w.template node) :
    outcome (execute env f node (.map m body)) w =
      if m.repeats then (.ok (), w) else outcome (executeAll env f node body) w := by
  rw [execute, outcome_bind, outcome_template]
  dsimp only
  rw [if_pos h.contains, outcome_bind, Mapping.perform_heldBack h]
  cases m.repeats <;> rfl

/-- A mapping that its guard lets through does what it does without one. -/
theorem execute_map_letThrough (h : m.LetThrough w.template node) :
    outcome (execute env f node (.map m body)) w =
      outcome (execute env f node (.map { m with onlyIfEmpty := false } body)) w := by
  rw [execute, execute, outcome_bind, outcome_bind, outcome_template]
  dsimp only
  split
  · rw [outcome_bind, outcome_bind, Mapping.perform_letThrough h]
    rfl
  · rfl

theorem execute_idle {i : Instruction} (h : i.Idle w.template node) :
    outcome (execute env f node i) w = (.ok (), w) := by
  induction h with
  | repeats h hrepeats => rw [execute_map_heldBack h, if_pos hrepeats]
  | inside h _ ih =>
    rw [execute_map_heldBack h, executeAll_unchanged ih]
    exact ite_self _

/-- A mapping that its guard holds back does nothing if it repeats, whatever stands inside, and
otherwise no more and no less than what stands inside does in its place: so nothing if all of that is
held back as well, at any depth. -/
theorem execute_heldBack (env : Environment) (f : Frame) (body : List Instruction)
    (h : m.HeldBack w.template node) :
    (m.repeats → outcome (execute env f node (.map m body)) w = (.ok (), w)) ∧
      (¬ m.repeats → outcome (execute env f node (.map m body)) w =
        outcome (executeAll env f node body) w) ∧
      ((∀ i ∈ body, i.Idle w.template node) →
        outcome (execute env f node (.map m body)) w = (.ok (), w)) := by
  refine ⟨fun hrepeats => ?_, fun hrepeats => ?_, fun hbody => execute_idle (.inside h hbody)⟩
  · rw [execute_map_heldBack h, if_pos hrepeats]
  · rw [execute_map_heldBack h, if_neg hrepeats]

/-- The mapping inside overwrites what the guard around it is there for. -/
theorem execute_heldBack_overwritten :
    let child (name : String) : Query := ⟨name, .path .context [.mk .child (.name name) []]⟩
    let inner : Mapping := ⟨some (child "a"), some (child "p"), none, none, .graft, false⟩
    let m : Mapping := { inner with onlyIfEmpty := true }
    let env : Environment := { load := fun path => .error (.notFound path) }
    let source : Document :=
      .ofTrees 0 [.element (.plain "r") [] [.element (.plain "a") [] [.text "x"]]]
    let template : Document :=
      .ofTrees 1 [.element (.plain "t") [] [.element (.plain "p") [] [.text "default"]]]
    let f : Frame := ⟨source, source.contextNode, ""⟩
    let w : Workspace := { template, nextId := 2 }
    let node := template.handleAt template.contextNode
    let made := outcome (execute env f node (.map m [.map inner []])) w
    m.HeldBack w.template node ∧ made = outcome (executeAll env f node [.map inner []]) w ∧
      made.1 = .ok () ∧
      made.2.template.trees = [.element (.plain "t") [] [.element (.plain "p") []
        [.element (.plain "a") [] [.text "x"]]]] ∧
      outcome (execute env f node (.map m [.map m []])) w = (.ok (), w) := by
  intro child inner m env source template f w node made
  have hfound : (child "p").select template.view 1 = .ok [2] := by cbv
  have hchildren : template.children 2 = [3] := by cbv
  have hnode : template.node 3 = .text "default" := by cbv
  have h : m.HeldBack w.template node :=
    ⟨rfl, child "p", 1, [2], rfl, by cbv, hfound, 2, by simp, 3, by simp [w, hchildren],
      by simp [w, hnode, Node.isDoctype]⟩
  have hresult : (outcome (execute env f node (.map m [.map inner []])) w).1 = .ok () := by cbv
  have htrees : (outcome (execute env f node (.map m [.map inner []])) w).2.template.trees =
      [.element (.plain "t") [] [.element (.plain "p") []
        [.element (.plain "a") [] [.text "x"]]]] := by cbv
  have hinside : ∀ i ∈ [Instruction.map m []], i.Idle w.template node := by
    rintro _ (_ | ⟨_, ⟨⟩⟩)
    exact .inside h (by simp)
  exact ⟨h, (execute_heldBack env f [.map inner []] h).2.1 (by decide), hresult, htrees,
    (execute_heldBack env f [.map m []] h).2.2 hinside⟩

end Program
end MarkupGraft
