import MarkupGraft.Proofs.Query.NodeSet

/-!
Steps from unions. A step begins anew at each node that it is taken from: positions count among what
that node alone leads to. So it reaches the same nodes from a union as from its two sides, and fails
from the one just when it fails from the other.
-/

namespace MarkupGraft.Query

open Markup (bind_eq_ok_iff map_eq_ok_iff)

variable {v : View}

/-- Nodes in document order, each once, are determined by which nodes they are. -/
theorem eq_of_pairwise_of_mem_iff {l r : List Nat} (hl : l.Pairwise (· < ·))
    (hr : r.Pairwise (· < ·)) (h : ∀ m, m ∈ l ↔ m ∈ r) : l = r := by
  have hperm : l.Perm r :=
    (List.perm_ext_iff_of_nodup (hl.imp Nat.ne_of_lt) (hr.imp Nat.ne_of_lt)).mpr h
  exact hperm.eq_of_pairwise (fun _ _ _ _ hab hba => absurd hba (Nat.lt_asymm hab)) hl hr

theorem exists_mapM_iff {ε α β : Type} {f : α → Except ε β} {l : List α} :
    (∃ bs, l.mapM f = .ok bs) ↔ ∀ a ∈ l, ∃ b, f a = .ok b := by
  induction l with
  | nil => exact iff_of_true ⟨[], rfl⟩ fun a ha => nomatch ha
  | cons a l ih =>
    rw [List.mapM_cons, List.forall_mem_cons, ← ih]
    constructor
    · rintro ⟨bs, h⟩
      obtain ⟨b, hb, h⟩ := bind_eq_ok_iff.mp h
      obtain ⟨rest, hrest, -⟩ := bind_eq_ok_iff.mp h
      exact ⟨⟨b, hb⟩, rest, hrest⟩
    · rintro ⟨⟨b, hb⟩, rest, hrest⟩
      exact ⟨b :: rest, bind_eq_ok_iff.mpr ⟨b, hb, bind_eq_ok_iff.mpr ⟨rest, hrest, rfl⟩⟩⟩

theorem exists_mem_of_mapM {ε α β : Type} {f : α → Except ε β} {l : List α} {bs : List β}
    (h : l.mapM f = .ok bs) {a : α} (ha : a ∈ l) {b : β} (hb : f a = .ok b) : b ∈ bs := by
  induction l generalizing bs with
  | nil => cases ha
  | cons c l ih =>
    rw [List.mapM_cons] at h
    obtain ⟨first, hfirst, h⟩ := bind_eq_ok_iff.mp h
    obtain ⟨rest, hrest, h⟩ := bind_eq_ok_iff.mp h
    cases h
    rcases List.mem_cons.mp ha with rfl | ha
    · rw [hfirst] at hb
      cases hb
      exact List.mem_cons_self
    · exact List.mem_cons_of_mem first (ih hrest ha)

/-! Steps -/

namespace Step
variable {s : Step}

/-- What a step reaches from a single node, along its axis. -/
def reach (v : View) (n : Nat) : Step → Except QueryError (List Nat)
  | .mk axis test predicates =>
    filterAll v predicates ((v.collect axis n).filter (v.passes axis test))

theorem follow_eq (s : Step) (nodes : List Nat) : s.follow v nodes =
    (nodes.mapM fun n => s.reach v n).map fun all => inDocumentOrder all.flatten := by
  cases s with
  | mk axis test predicates =>
    rw [follow]
    rfl

/-- A step succeeds when it does so from each node, and reaches what it reaches from any of them. -/
theorem follow_eq_ok_iff {nodes found : List Nat} :
    s.follow v nodes = .ok found ↔ found.Pairwise (· < ·) ∧
      (∀ n ∈ nodes, ∃ kept, s.reach v n = .ok kept) ∧
      ∀ m, m ∈ found ↔ ∃ n ∈ nodes, ∃ kept, s.reach v n = .ok kept ∧ m ∈ kept := by
  have hmem {all : List (List Nat)} (h : nodes.mapM (fun n => s.reach v n) = .ok all) (m : Nat) :
      m ∈ inDocumentOrder all.flatten ↔ ∃ n ∈ nodes, ∃ kept, s.reach v n = .ok kept ∧ m ∈ kept := by
    rw [mem_inDocumentOrder, List.mem_flatten]
    constructor
    · rintro ⟨kept, hkept, hm⟩
      obtain ⟨n, hn, hreach⟩ := mem_of_mapM h hkept
      exact ⟨n, hn, kept, hreach, hm⟩
    · rintro ⟨n, hn, kept, hreach, hm⟩
      exact ⟨kept, exists_mem_of_mapM h hn hreach, hm⟩
  rw [follow_eq, map_eq_ok_iff, ← exists_mapM_iff]
  constructor
  · rintro ⟨all, hall, rfl⟩
    exact ⟨pairwise_inDocumentOrder _, ⟨all, hall⟩, hmem hall⟩
  · rintro ⟨hordered, ⟨all, hall⟩, hfound⟩
    refine ⟨all, hall, eq_of_pairwise_of_mem_iff (pairwise_inDocumentOrder _) hordered fun m => ?_⟩
    rw [hfound, hmem hall]

/-- A step from two sets of nodes together. -/
theorem follow_union_eq_ok_iff {l r found : List Nat} :
    s.follow v (inDocumentOrder (l ++ r)) = .ok found ↔
      ∃ f g, s.follow v l = .ok f ∧ s.follow v r = .ok g ∧ found = inDocumentOrder (f ++ g) := by
  simp only [follow_eq_ok_iff, mem_inDocumentOrder, List.mem_append, or_imp, forall_and, or_and_right,
    exists_or]
  constructor
  · rintro ⟨hordered, ⟨hl, hr⟩, hfound⟩
    -- What is found splits by the side that it is reached from.
    have hside {nodes : List Nat} (h : ∀ n ∈ nodes, ∃ kept, s.reach v n = .ok kept) :
        ∃ f, s.follow v nodes = .ok f := by
      rw [follow_eq]
      obtain ⟨all, hall⟩ := exists_mapM_iff.mpr h
      exact ⟨_, map_eq_ok_iff.mpr ⟨all, hall, rfl⟩⟩
    obtain ⟨f, hf⟩ := hside hl
    obtain ⟨g, hg⟩ := hside hr
    have hf := follow_eq_ok_iff.mp hf
    have hg := follow_eq_ok_iff.mp hg
    refine ⟨f, g, hf, hg, eq_of_pairwise_of_mem_iff hordered (pairwise_inDocumentOrder _) fun m => ?_⟩
    rw [hfound, mem_inDocumentOrder, List.mem_append, hf.2.2, hg.2.2]
  · rintro ⟨f, g, ⟨-, hl, hf⟩, ⟨-, hr, hg⟩, rfl⟩
    refine ⟨pairwise_inDocumentOrder _, ⟨hl, hr⟩, fun m => ?_⟩
    rw [mem_inDocumentOrder, List.mem_append, hf, hg]

end Step

/-! Expressions -/

theorem followSteps_append (steps more : List Step) (nodes : List Nat) :
    followSteps v (steps ++ more) nodes = followSteps v steps nodes >>= followSteps v more := by
  induction steps generalizing nodes with
  | nil => rfl
  | cons s steps ih =>
    rw [List.cons_append, followSteps, followSteps, bind_assoc]
    exact bind_congr fun next => ih next

namespace Expression
variable {context : Context} {a b : Expression} {s : Step} {value : Value}

/-- Steps that are appended to a path are taken from what the path finds. -/
theorem evaluate_extendPath (e : Expression) (s : Step) :
    (extendPath e [s]).evaluate v context = (path (.nodes e) [s]).evaluate v context := by
  cases e with
  | path origin steps =>
    change (path origin (steps ++ [s])).evaluate v context = _
    rw [evaluate, evaluate, Origin.evaluate, evaluate]
    simp only [bind_assoc, followSteps_append, pure_bind]
  | _ => rfl

theorem evaluate_extendPath_eq_ok_iff :
    (extendPath a [s]).evaluate v context = .ok value ↔
      ∃ nodes found, a.evaluate v context = .ok (.nodes nodes) ∧ s.follow v nodes = .ok found ∧
        value = .nodes found := by
  rw [evaluate_extendPath, evaluate, Origin.evaluate, bind_assoc, bind_eq_ok_iff]
  constructor
  · rintro ⟨start, hstart, h⟩
    cases start with
    | nodes nodes =>
      rw [pure_bind, followSteps] at h
      obtain ⟨found, hfound, h⟩ := bind_eq_ok_iff.mp h
      obtain ⟨next, hnext, hfound⟩ := bind_eq_ok_iff.mp hfound
      cases hfound
      cases h
      exact ⟨nodes, found, hstart, hnext, rfl⟩
    | _ => cases h
  · rintro ⟨nodes, found, hnodes, hfound, rfl⟩
    refine ⟨.nodes nodes, hnodes, ?_⟩
    rw [pure_bind, followSteps, bind_assoc, hfound]
    rfl

theorem evaluate_union_eq_ok_iff :
    (binary .union a b).evaluate v context = .ok value ↔
      ∃ l r, a.evaluate v context = .ok (.nodes l) ∧ b.evaluate v context = .ok (.nodes r) ∧
        value = .nodes (inDocumentOrder (l ++ r)) := by
  rw [evaluate, bind_eq_ok_iff]
  constructor
  · rintro ⟨left, hleft, h⟩
    obtain ⟨right, hright, h⟩ := bind_eq_ok_iff.mp h
    simp only [applyOperator] at h
    split at h
    · cases h
      exact ⟨_, _, hleft, hright, rfl⟩
    · cases h
  · rintro ⟨l, r, hl, hr, rfl⟩
    refine ⟨.nodes l, hl, bind_eq_ok_iff.mpr ⟨.nodes r, hr, rfl⟩⟩

/-- A step, whatever its axis, its test and its predicates are, distributes over a union: taken from
the union it finds the nodes that it finds when it is taken from both sides first, and one way fails
just when the other does. -/
theorem evaluate_union_step (v : View) (context : Context) (a b : Expression) (s : Step) :
    (∀ found, (extendPath (binary .union a b) [s]).evaluate v context = .ok (.nodes found) ↔
        (binary .union (extendPath a [s]) (extendPath b [s])).evaluate v context =
          .ok (.nodes found)) ∧
      ((∃ e, (extendPath (binary .union a b) [s]).evaluate v context = .error e) ↔
        ∃ e, (binary .union (extendPath a [s]) (extendPath b [s])).evaluate v context = .error e) := by
  have hvalue (value : Value) : (extendPath (binary .union a b) [s]).evaluate v context = .ok value ↔
      (binary .union (extendPath a [s]) (extendPath b [s])).evaluate v context = .ok value := by
    simp only [evaluate_extendPath_eq_ok_iff, evaluate_union_eq_ok_iff]
    constructor
    · rintro ⟨_, found, ⟨l, r, hl, hr, ⟨⟩⟩, hfound, rfl⟩
      obtain ⟨f, g, hf, hg, rfl⟩ := Step.follow_union_eq_ok_iff.mp hfound
      exact ⟨f, g, ⟨l, f, hl, hf, rfl⟩, ⟨r, g, hr, hg, rfl⟩, rfl⟩
    · rintro ⟨f, g, ⟨l, _, hl, hf, ⟨⟩⟩, ⟨r, _, hr, hg, ⟨⟩⟩, rfl⟩
      exact ⟨_, _, ⟨l, r, hl, hr, rfl⟩, Step.follow_union_eq_ok_iff.mpr ⟨f, g, hf, hg, rfl⟩, rfl⟩
  have herror (result : Except QueryError Value) :
      (∃ e, result = .error e) ↔ ¬ ∃ value, result = .ok value := by
    cases result <;> simp
  refine ⟨fun found => hvalue (.nodes found), ?_⟩
  rw [herror, herror]
  exact not_congr (exists_congr hvalue)

end Expression
end MarkupGraft.Query
