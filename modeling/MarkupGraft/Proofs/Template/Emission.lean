import MarkupGraft.Proofs.Template.Atomicity

/-!
The keys that a run emits. They are selected from the source alone, but what is inside a mapping is
passed over once the node that the run stands for is gone from the template, and with it the sorting
instructions there. So the keys depend on the template in one respect only: on how many mappings the
run goes into.
-/

namespace MarkupGraft
open Work

/-- A sorting instruction by itself. -/
structure Sorting where
  order : SortOrder
  select : Query
  format? : Option Format

namespace Instruction

mutual

/-- The sorting instructions that are not inside of a repetition, in the order of the program. -/
def sortings : Instruction → List Sorting
  | .sort order select format? => [⟨order, select, format?⟩]
  | .map m body => if m.repeats then [] else sortingsAll body

def sortingsAll : List Instruction → List Sorting
  | [] => []
  | i :: instructions => sortings i ++ sortingsAll instructions

end

mutual

/-- How many mappings there are that are not inside of a repetition. -/
def mapCount : Instruction → Nat
  | .sort _ _ _ => 0
  | .map m body => if m.repeats then 1 else mapCountAll body + 1

def mapCountAll : List Instruction → Nat
  | [] => 0
  | i :: instructions => mapCount i + mapCountAll instructions

end

mutual

/-- What is left of an instruction without the mappings behind the first `n`, in the order of the
program and without those inside of repetitions. -/
def firstMaps (n : Nat) : Instruction → List Instruction
  | .sort order select format? => [.sort order select format?]
  | .map m body =>
    match n with
    | 0 => []
    | n + 1 => [.map m (if m.repeats then body else firstMapsAll n body)]

def firstMapsAll (n : Nat) : List Instruction → List Instruction
  | [] => []
  | i :: instructions => firstMaps n i ++ firstMapsAll (n - mapCount i) instructions

end

theorem sortingsAll_append (instructions others : List Instruction) :
    sortingsAll (instructions ++ others) = sortingsAll instructions ++ sortingsAll others := by
  induction instructions with
  | nil => rw [List.nil_append, sortingsAll, List.nil_append]
  | cons i instructions ih => rw [List.cons_append, sortingsAll, sortingsAll, ih, List.append_assoc]

mutual

theorem firstMaps_of_le {n : Nat} (i : Instruction) (h : i.mapCount ≤ n) : i.firstMaps n = [i] := by
  match i, n with
  | .sort _ _ _, _ => rw [firstMaps]
  | .map m body, 0 =>
    rw [mapCount] at h
    split at h <;> cases h
  | .map m body, n + 1 =>
    rw [firstMaps]
    split
    · rfl
    · rename_i hrepeats
      rw [mapCount, if_neg hrepeats] at h
      rw [firstMapsAll_of_le body (Nat.le_of_succ_le_succ h)]

theorem firstMapsAll_of_le {n : Nat} (instructions : List Instruction)
    (h : mapCountAll instructions ≤ n) : firstMapsAll n instructions = instructions := by
  match instructions with
  | [] => rw [firstMapsAll]
  | i :: instructions =>
    rw [mapCountAll] at h
    rw [firstMapsAll, firstMaps_of_le i (by omega), firstMapsAll_of_le instructions (by omega)]
    rfl

end

end Instruction

/-! Emitting keys -/

/-- The key that a sorting instruction emits, unless it is empty. -/
def Frame.key? (f : Frame) (env : Environment) (s : Sorting) :
    Except TemplateError (Option SortKey) := do
  match ← f.sortKey? env s.select s.format? with
  | some key => pure (if key = "" then none else some ⟨s.order, key⟩)
  | none => pure none

/-- The keys that sorting instructions emit one after the other. -/
def Frame.keys (f : Frame) (env : Environment) (sortings : List Sorting) :
    Except TemplateError SortKeys := do
  let keys ← sortings.mapM (f.key? env)
  pure ⟨keys.reduceOption⟩

/-- Whether some keys have been added to others by sorting instructions. -/
def Frame.Emits (f : Frame) (env : Environment) (sortings : List Sorting) (k k' : SortKeys) : Prop :=
  ∃ keys, f.keys env sortings = .ok keys ∧ k' = ⟨k.keys ++ keys.keys⟩

namespace Frame.Emits
variable {f : Frame} {env : Environment} {sortings sortings' : List Sorting} {k k' k'' : SortKeys}

theorem nil : f.Emits env [] k k := ⟨{}, rfl, by simp⟩

theorem append (h : f.Emits env sortings k k') (h' : f.Emits env sortings' k' k'') :
    f.Emits env (sortings ++ sortings') k k'' := by
  obtain ⟨keys, hkeys, rfl⟩ := h
  obtain ⟨keys', hkeys', rfl⟩ := h'
  obtain ⟨emitted, hemitted, hpure⟩ := Markup.bind_eq_ok_iff.mp hkeys
  obtain ⟨emitted', hemitted', hpure'⟩ := Markup.bind_eq_ok_iff.mp hkeys'
  cases hpure
  cases hpure'
  refine ⟨⟨(emitted ++ emitted').reduceOption⟩, ?_, by simp [List.reduceOption_append]⟩
  rw [keys, List.mapM_append, hemitted, hemitted']
  rfl

end Frame.Emits

namespace Mapping
variable {m : Mapping} {env : Environment} {fills : Bool} {body : Body} {f : Frame} {node : Handle}
  {γ : Type} {part : Workspace → γ}

theorem leaves_find (target : Query) : Leaves part (find target node) :=
  Leaves.template.bind fun _ => (Leaves.lift _).bind fun _ => Leaves.lift _

theorem leaves_forTargets (target : Query) {step : Handle → Work Unit}
    (hstep : ∀ target, Leaves part (step target)) : Leaves part (forTargets target node step) := by
  refine (leaves_find target).bind fun _ => Leaves.template.bind fun _ => Leaves.forM fun found _ => ?_
  refine Leaves.template.bind fun t => ?_
  split
  · exact hstep found
  · exact Leaves.pure _

/-- No mapping emits keys, apart from what stands inside of it. -/
theorem leaves_perform : Leaves Workspace.keys (m.perform env fills body f node) := by
  have hedit (change : Document → Except StoreError Document) :
      Leaves Workspace.keys (edit change) := Leaves.edit change fun _ _ => rfl
  have hcopies {α β : Type} {x : α → Work (β × SortKeys)} (hx : ∀ a, Leaves Workspace.made (x a))
      (l : List α) : Leaves Workspace.keys (l.mapM x) :=
    Leaves.mapM fun a _ w => congrArg Prod.snd (hx a w)
  have hfilled (target : Query) : Leaves Workspace.keys (isFilled target node) :=
    Leaves.template.bind fun _ => (leaves_find target).bind fun _ => Leaves.pure _
  rw [perform]
  split
  case' h_1 => refine (hfilled _).bind fun skipped => ?_
  case' h_2 => refine (Leaves.pure false).bind fun skipped => ?_
  all_goals
    dsimp only
    split
    · exact Leaves.pure _
    refine (Leaves.lift _).bind fun selection? => ?_
    split
    · exact Leaves.pure _
    · exact (hcopies leaves_contentFor _).bind fun _ => (Leaves.lift _).bind fun _ => hedit _
    · refine leaves_forTargets _ fun target => ?_
      exact (hcopies (leaves_copyFor fills) _).bind fun _ => (Leaves.lift _).bind fun _ => hedit _
    · exact leaves_forTargets _ fun target => hedit _
    · exact Leaves.pure _

/-- What stands inside of a mapping that does not repeat is not looked at by the mapping itself. -/
theorem perform_eq_of_not_repeats (h : ¬ m.repeats) (fills' : Bool) (body' : Body) :
    m.perform env fills body f node = m.perform env fills' body' f node := by
  have hdispatch : m.dispatch = .graft := by simpa [repeats] using h
  rw [perform, perform, hdispatch]
  split
  all_goals
    refine bind_congr fun skipped => ?_
    dsimp only
    split
    · rfl
    refine bind_congr fun selection? => ?_
    rcases selection? with _ | _ | ⟨item, items⟩ <;> cases m.target? <;> rfl

end Mapping

namespace Program
open Instruction
variable {env : Environment} {f : Frame} {node : Handle} {w w' : Workspace} {m : Mapping}
  {body instructions : List Instruction}

theorem outcome_executeAll_append (instructions others : List Instruction) (w : Workspace) :
    outcome (executeAll env f node (instructions ++ others)) w =
      outcome (executeAll env f node instructions >>= fun _ => executeAll env f node others) w := by
  induction instructions generalizing w with
  | nil => rfl
  | cons i instructions ih =>
    rw [List.cons_append, executeAll, executeAll, outcome_bind, outcome_bind, outcome_bind]
    rcases outcome (execute env f node i) w with ⟨_ | _, w₁⟩
    · rfl
    · dsimp only
      rw [ih, outcome_bind]

theorem outcome_executeAll_singleton (i : Instruction) (w : Workspace) :
    outcome (executeAll env f node [i]) w = outcome (execute env f node i) w := by
  rw [executeAll, outcome_bind]
  rcases outcome (execute env f node i) w with ⟨_ | _, _⟩ <;> rfl

/-- Nothing is done with a mapping when the node it stands for is gone. -/
theorem outcome_execute_map_of_not_contains (h : ¬ w.template.contains node) :
    outcome (execute env f node (.map m body)) w = (.ok (), w) := by
  rw [execute, outcome_bind, outcome_template]
  dsimp only
  rw [if_neg h]
  rfl

theorem outcome_execute_map (hrepeats : ¬ m.repeats) (h : w.template.contains node) :
    outcome (execute env f node (.map m body)) w =
      outcome (m.perform env true (fun _ _ => pure ()) f node >>= fun _ =>
        executeAll env f node body) w := by
  rw [execute, outcome_bind, outcome_template]
  dsimp only
  rw [if_pos h, Mapping.perform_eq_of_not_repeats hrepeats true fun _ _ => pure ()]
  simp [hrepeats]

/-- What stands inside of a mapping that repeats emits keys for the copies. -/
theorem leaves_execute_map_of_repeats (hrepeats : m.repeats) :
    Leaves Workspace.keys (execute env f node (.map m body)) := by
  rw [execute]
  refine Leaves.template.bind fun t => ?_
  split
  · refine Mapping.leaves_perform.bind fun _ => ?_
    simpa [hrepeats] using Leaves.pure ()
  · exact Leaves.pure _

theorem leaves_execute_sort (order : SortOrder) (select : Query) (format? : Option Format) :
    Leaves Workspace.template (execute env f node (.sort order select format?)) := by
  rw [execute]
  refine (Leaves.lift _).bind fun key? => ?_
  split
  · exact Leaves.modify fun _ => rfl
  · exact Leaves.pure _

/-- Without its mappings a program leaves the template as it is. -/
theorem leaves_executeAll_firstMaps_zero (instructions : List Instruction) :
    Leaves Workspace.template (executeAll env f node (firstMapsAll 0 instructions)) := by
  induction instructions with
  | nil =>
    rw [firstMapsAll]
    exact Leaves.pure _
  | cons i instructions ih =>
    rw [firstMapsAll, Nat.zero_sub]
    cases i with
    | sort order select format? =>
      rw [firstMaps, List.singleton_append, executeAll]
      exact (leaves_execute_sort order select format?).bind fun _ => ih
    | map m body =>
      rw [firstMaps]
      exact ih

mutual

/-- The mappings behind the first `n` make no difference unless the node that is stood for is still
there behind those. -/
theorem contains_or_outcome_firstMaps (n : Nat) (i : Instruction) (w : Workspace) :
    (outcome (executeAll env f node (i.firstMaps n)) w).2.template.contains node ∨
      outcome (executeAll env f node (i.firstMaps n)) w = outcome (execute env f node i) w := by
  match i, n with
  | .sort order select format?, n =>
    rw [firstMaps, outcome_executeAll_singleton]
    exact .inr rfl
  | .map m body, 0 =>
    rw [firstMaps]
    by_cases hnode : w.template.contains node
    · exact .inl hnode
    · exact .inr (outcome_execute_map_of_not_contains hnode).symm
  | .map m body, n + 1 =>
    rw [firstMaps, outcome_executeAll_singleton]
    split
    · exact .inr rfl
    rename_i hrepeats
    by_cases hnode : w.template.contains node
    · rw [outcome_execute_map hrepeats hnode, outcome_execute_map hrepeats hnode, outcome_bind,
        outcome_bind]
      rcases outcome (m.perform env true (fun _ _ => pure ()) f node) w with ⟨_ | _, w₁⟩
      · exact .inr rfl
      · exact contains_or_outcome_firstMapsAll n body w₁
    · rw [outcome_execute_map_of_not_contains hnode, outcome_execute_map_of_not_contains hnode]
      exact .inr rfl

theorem contains_or_outcome_firstMapsAll (n : Nat) (instructions : List Instruction)
    (w : Workspace) :
    (outcome (executeAll env f node (firstMapsAll n instructions)) w).2.template.contains node ∨
      outcome (executeAll env f node (firstMapsAll n instructions)) w =
        outcome (executeAll env f node instructions) w := by
  match instructions with
  | [] =>
    rw [firstMapsAll]
    exact .inr rfl
  | i :: instructions =>
    have hi : outcome (executeAll env f node (i.firstMaps n)) w = outcome (execute env f node i) w ∨
        (outcome (executeAll env f node (i.firstMaps n)) w).2.template.contains node ∧
          n - i.mapCount = 0 := by
      by_cases hcount : i.mapCount ≤ n
      · rw [firstMaps_of_le i hcount, outcome_executeAll_singleton]
        exact .inl rfl
      · exact (contains_or_outcome_firstMaps n i w).symm.imp_right fun h => ⟨h, by omega⟩
    rw [firstMapsAll, outcome_executeAll_append, outcome_bind, executeAll, outcome_bind]
    rcases hi with hi | ⟨hcontains, hzero⟩
    · rw [hi]
      rcases outcome (execute env f node i) w with ⟨_ | _, w₁⟩
      · exact .inr rfl
      · exact contains_or_outcome_firstMapsAll _ instructions w₁
    · rcases houtcome : outcome (executeAll env f node (i.firstMaps n)) w with ⟨_ | _, w₁⟩ <;>
        rw [houtcome] at hcontains
      · exact .inl hcontains
      · have htemplate := @leaves_executeAll_firstMaps_zero env f node instructions w₁
        rw [hzero]
        dsimp only
        rw [htemplate]
        exact .inl hcontains

end

theorem emits_of_execute_sort {order : SortOrder} {select : Query} {format? : Option Format}
    (h : outcome (execute env f node (.sort order select format?)) w = (.ok (), w')) :
    f.Emits env [⟨order, select, format?⟩] w.keys w'.keys := by
  rw [execute, outcome_bind, outcome_lift] at h
  cases hkey : f.sortKey? env select format? with
  | error e =>
    rw [hkey] at h
    cases h
  | ok key? =>
    have hkeys : f.key? env ⟨order, select, format?⟩ =
        .ok (key?.bind fun key => if key = "" then none else some ⟨order, key⟩) := by
      rw [Frame.key?, hkey]
      cases key? <;> rfl
    refine ⟨⟨[key?.bind fun key => if key = "" then none else some ⟨order, key⟩].reduceOption⟩, ?_, ?_⟩
    · rw [Frame.keys, List.mapM_cons, hkeys]
      rfl
    · rw [hkey] at h
      cases key? with
      | none =>
        cases h
        simp [List.reduceOption]
      | some key =>
        cases h
        by_cases hempty : key = "" <;> simp [SortKeys.push, hempty, List.reduceOption]

mutual

/-- When the node that is stood for is there in front of each of the first `n` mappings, the keys
emitted are those of the sorting instructions that are left without the mappings behind. -/
theorem emits_of_firstMaps {n : Nat} (i : Instruction) {w w' : Workspace}
    (h : outcome (executeAll env f node (i.firstMaps n)) w = (.ok (), w'))
    (hthere : ∀ k < n,
      (outcome (executeAll env f node (i.firstMaps k)) w).2.template.contains node) :
    f.Emits env (sortingsAll (i.firstMaps n)) w.keys w'.keys := by
  match i, n with
  | .sort order select format?, n =>
    rw [firstMaps, outcome_executeAll_singleton] at h
    rw [firstMaps, sortingsAll, sortingsAll, sortings, List.append_nil]
    exact emits_of_execute_sort h
  | .map m body, 0 =>
    rw [firstMaps] at h ⊢
    cases h
    rw [sortingsAll]
    exact .nil
  | .map m body, n + 1 =>
    have hnode : w.template.contains node := by
      have hzero := hthere 0 (Nat.succ_pos n)
      rwa [firstMaps] at hzero
    rw [firstMaps, outcome_executeAll_singleton] at h
    rw [firstMaps, sortingsAll, sortingsAll, sortings, List.append_nil]
    by_cases hrepeats : m.repeats
    · rw [if_pos hrepeats] at h ⊢
      rw [(leaves_execute_map_of_repeats hrepeats).eq h]
      exact .nil
    · rw [if_neg hrepeats] at h ⊢
      rw [if_neg hrepeats]
      rw [outcome_execute_map hrepeats hnode] at h
      obtain ⟨_, w₁, hperform, hbody⟩ := bind_eq_ok_iff.mp h
      rw [← Mapping.leaves_perform.eq hperform]
      refine emits_of_firstMapsAll body hbody fun k hk => ?_
      have hk' := hthere (k + 1) (by omega)
      rw [firstMaps, if_neg hrepeats, outcome_executeAll_singleton, outcome_execute_map hrepeats hnode,
        outcome_bind, hperform] at hk'
      exact hk'

theorem emits_of_firstMapsAll {n : Nat} (instructions : List Instruction) {w w' : Workspace}
    (h : outcome (executeAll env f node (firstMapsAll n instructions)) w = (.ok (), w'))
    (hthere : ∀ k < n,
      (outcome (executeAll env f node (firstMapsAll k instructions)) w).2.template.contains node) :
    f.Emits env (sortingsAll (firstMapsAll n instructions)) w.keys w'.keys := by
  match instructions with
  | [] =>
    rw [firstMapsAll] at h ⊢
    cases h
    rw [sortingsAll]
    exact .nil
  | i :: instructions =>
    rw [firstMapsAll, outcome_executeAll_append] at h
    obtain ⟨_, w₁, hhead, htail⟩ := bind_eq_ok_iff.mp h
    rw [firstMapsAll, sortingsAll_append]
    refine (emits_of_firstMaps i hhead fun k hk => ?_).append
      (emits_of_firstMapsAll instructions htail fun k hk => ?_)
    · have hmin : i.firstMaps k = i.firstMaps (min k i.mapCount) := by
        rcases Nat.le_total k i.mapCount with hle | hle
        · rw [Nat.min_eq_left hle]
        · rw [Nat.min_eq_right hle, firstMaps_of_le i hle, firstMaps_of_le i le_rfl]
      have hk' := hthere (min k i.mapCount) (by omega)
      rw [firstMapsAll, Nat.sub_eq_zero_of_le (Nat.min_le_right _ _), outcome_executeAll_append,
        outcome_bind, ← hmin] at hk'
      rcases houtcome : outcome (executeAll env f node (i.firstMaps k)) w with ⟨_ | _, w₂⟩ <;>
        rw [houtcome] at hk'
      · exact hk'
      · dsimp only at hk'
        rwa [leaves_executeAll_firstMaps_zero instructions w₂] at hk'
    · have hk' := hthere (i.mapCount + k) (by omega)
      rw [firstMaps_of_le i (by omega)] at hhead
      rw [firstMapsAll, firstMaps_of_le i (by omega), Nat.add_sub_cancel_left,
        outcome_executeAll_append, outcome_bind, hhead] at hk'
      exact hk'

end

/-! Runs -/

/-- The sorting instructions of a program that are not inside of a repetition, in its order. -/
def sortings (p : Program) : List Sorting := sortingsAll p.instructions

/-- How many mappings of a program are not inside of a repetition. -/
def mapCount (p : Program) : Nat := mapCountAll p.instructions

/-- A program without the mappings behind the first `n` that are not inside of a repetition. -/
def firstMaps (p : Program) (n : Nat) : Program := ⟨firstMapsAll n p.instructions⟩

/-- Whether the node that a run stands for is in the template that the run leaves. -/
def KeepsContext (p : Program) (env : Environment) (source : Document) (path : String)
    (template : Document) : Prop :=
  (p.run env source path template).2.contains (template.handleAt template.contextNode)

/-- Whether a run goes into the first `n` mappings that are not inside of a repetition, and into no
others: the last of them takes away the node that the run stands for, or there are no more. -/
structure GoesInto (p : Program) (env : Environment) (source : Document) (path : String)
    (template : Document) (n : Nat) : Prop where
  le : n ≤ p.mapCount
  there : ∀ k < n, (p.firstMaps k).KeepsContext env source path template
  last : n = p.mapCount ∨ ¬ (p.firstMaps n).KeepsContext env source path template

variable {p : Program} {source template : Document} {path : String} {keys : SortKeys}
  {last : Document} {n : Nat}

theorem run_eq (p : Program) (env : Environment) (source : Document) (path : String)
    (template : Document) :
    p.run env source path template =
      let done := outcome (executeAll env ⟨source, source.contextNode, path⟩
        (template.handleAt template.contextNode) p.instructions)
          { template, nextId := max source.id template.id + 1 }
      (done.1.map fun _ => done.2.keys, done.2.template) := rfl

theorem exists_outcome_of_run (h : p.run env source path template = (.ok keys, last)) :
    ∃ w, outcome (executeAll env ⟨source, source.contextNode, path⟩
        (template.handleAt template.contextNode) p.instructions)
          { template, nextId := max source.id template.id + 1 } = (.ok (), w) ∧ w.keys = keys := by
  rw [run_eq] at h
  rcases houtcome : outcome (executeAll env ⟨source, source.contextNode, path⟩
    (template.handleAt template.contextNode) p.instructions)
      { template, nextId := max source.id template.id + 1 } with ⟨_ | _, w⟩ <;> rw [houtcome] at h
  · cases h
  · cases h
    exact ⟨w, rfl, rfl⟩

theorem firstMaps_mapCount : p.firstMaps p.mapCount = p :=
  congrArg Program.mk (firstMapsAll_of_le p.instructions le_rfl)

theorem keepsContext_or_run_firstMaps (n : Nat) :
    (p.firstMaps n).KeepsContext env source path template ∨
      (p.firstMaps n).run env source path template = p.run env source path template := by
  rcases contains_or_outcome_firstMapsAll n p.instructions
    { template, nextId := max source.id template.id + 1 } with h | h
  · exact .inl h
  · refine .inr ?_
    rw [run_eq, run_eq, firstMaps, h]

theorem exists_goesInto (p : Program) (env : Environment) (source : Document) (path : String)
    (template : Document) : ∃ n, p.GoesInto env source path template n := by
  classical
  by_cases h : ∃ n < p.mapCount, ¬ (p.firstMaps n).KeepsContext env source path template
  · obtain ⟨hlt, hlast⟩ := Nat.find_spec h
    refine ⟨Nat.find h, hlt.le, fun k hk => ?_, .inr hlast⟩
    by_contra hlost
    exact Nat.find_min h hk ⟨hk.trans hlt, hlost⟩
  · push Not at h
    exact ⟨p.mapCount, le_rfl, h, .inl rfl⟩

theorem GoesInto.unique {n' : Nat} (h : p.GoesInto env source path template n)
    (h' : p.GoesInto env source path template n') : n' = n := by
  rcases Nat.lt_trichotomy n n' with hlt | rfl | hlt
  · have := h.last.resolve_right (not_not.mpr (h'.there n hlt))
    have := h'.le
    omega
  · rfl
  · have := h'.last.resolve_right (not_not.mpr (h.there n' hlt))
    have := h.le
    omega

theorem GoesInto.run_firstMaps (h : p.GoesInto env source path template n) :
    (p.firstMaps n).run env source path template = p.run env source path template := by
  rcases h.last with rfl | hlost
  · rw [firstMaps_mapCount]
  · exact (keepsContext_or_run_firstMaps n).resolve_left hlost

theorem GoesInto.keys_eq (h : p.GoesInto env source path template n)
    (hrun : p.run env source path template = (.ok keys, last)) :
    Frame.keys ⟨source, source.contextNode, path⟩ env (p.firstMaps n).sortings = .ok keys := by
  rw [← h.run_firstMaps] at hrun
  obtain ⟨w, houtcome, rfl⟩ := exists_outcome_of_run hrun
  obtain ⟨emitted, hemitted, hkeys⟩ := emits_of_firstMapsAll p.instructions houtcome h.there
  rw [sortings, firstMaps, hemitted]
  exact congrArg Except.ok hkeys.symm

theorem GoesInto.eq_mapCount (h : p.GoesInto env source path template n)
    (hkeeps : p.KeepsContext env source path template) : n = p.mapCount := by
  refine h.last.resolve_right (not_not.mpr ?_)
  rwa [KeepsContext, h.run_firstMaps]

/-- The keys of a run that succeeds are those of the sorting instructions outside of all repetitions, in
the order of the program and selected from where the run selects, apart from those inside of mappings
that it does not go into, for the node it stands for is gone. So whatever the templates are, two runs
that go into the same mappings give the same keys, and so do two that leave the nodes they stand for
in place. -/
theorem run_keys {template' last' : Document} {keys' : SortKeys}
    (h : p.run env source path template = (.ok keys, last))
    (h' : p.run env source path template' = (.ok keys', last')) :
    let f : Frame := ⟨source, source.contextNode, path⟩
    (∃! n, p.GoesInto env source path template n) ∧
      (∀ n, p.GoesInto env source path template n →
        f.keys env (p.firstMaps n).sortings = .ok keys) ∧
      (∀ n, p.GoesInto env source path template n → p.GoesInto env source path template' n →
        keys = keys') ∧
      (p.KeepsContext env source path template → p.KeepsContext env source path template' →
        keys = keys' ∧ f.keys env p.sortings = .ok keys) := by
  intro f
  have hsame (n : Nat) (hn : p.GoesInto env source path template n)
      (hn' : p.GoesInto env source path template' n) : keys = keys' :=
    Except.ok.inj ((hn.keys_eq h).symm.trans (hn'.keys_eq h'))
  obtain ⟨n, hn⟩ := p.exists_goesInto env source path template
  obtain ⟨n', hn'⟩ := p.exists_goesInto env source path template'
  refine ⟨⟨n, hn, fun _ => hn.unique⟩, fun _ hn => hn.keys_eq h, hsame, fun hkeeps hkeeps' => ?_⟩
  cases hn.eq_mapCount hkeeps
  cases hn'.eq_mapCount hkeeps'
  refine ⟨hsame _ hn hn', ?_⟩
  have hkeys := hn.keys_eq h
  rwa [firstMaps_mapCount] at hkeys

/-- A key is emitted inside of a mapping that has a target in one template and none in the other. -/
theorem run_keys_without_target :
    let child (name : String) : Query := ⟨name, .path .context [.mk .child (.name name) []]⟩
    let p : Program := ⟨[.map ⟨some (child "a"), some (child "p"), none, none, .graft, false⟩
      [.sort .ascending (child "a") none]]⟩
    let env : Environment := { load := fun path => .error (.notFound path) }
    let source : Document :=
      .ofTrees 0 [.element (.plain "r") [] [.element (.plain "a") [] [.text "k"]]]
    let template (inside : List Tree) : Document := .ofTrees 1 [.element (.plain "t") [] inside]
    let keys : SortKeys := ⟨[⟨.ascending, "k"⟩]⟩
    let filled := template [.element (.plain "p") [] []]
    let f : Frame := ⟨source, source.contextNode, "s.xml"⟩
    ((p.run env source "s.xml" filled).1 = .ok keys ∧ p.KeepsContext env source "s.xml" filled) ∧
      ((p.run env source "s.xml" (template [])).1 = .ok keys ∧
        p.KeepsContext env source "s.xml" (template [])) ∧
      f.keys env p.sortings = .ok keys := by
  intro child p env source template keys filled f
  have hruns : ((p.run env source "s.xml" filled).1 = .ok keys ∧
        p.KeepsContext env source "s.xml" filled) ∧
      (p.run env source "s.xml" (template [])).1 = .ok keys ∧
        p.KeepsContext env source "s.xml" (template []) := by
    revert child
    exact ⟨⟨by cbv, by rw [KeepsContext]; cbv⟩, by cbv, by rw [KeepsContext]; cbv⟩
  obtain ⟨⟨hfilled, hkeeps⟩, hempty, hkeeps'⟩ := hruns
  have hrun (d : Document) (h : (p.run env source "s.xml" d).1 = .ok keys) :
      p.run env source "s.xml" d = (.ok keys, (p.run env source "s.xml" d).2) := Prod.ext h rfl
  obtain ⟨-, -, -, hkeys⟩ := run_keys (hrun _ hfilled) (hrun _ hempty)
  exact ⟨⟨hfilled, hkeeps⟩, ⟨hempty, hkeeps'⟩, (hkeys hkeeps hkeeps').2⟩

/-- A repetition of the only node of a template takes away what the run stands for, and with it the
key that is emitted inside of the next mapping. -/
theorem run_keys_context_replaced :
    let step (axis : Query.Axis) (test : Query.NodeTest) : Query :=
      ⟨"", .path .context [.mk axis test []]⟩
    let a := step .child (.name "a")
    let p : Program := ⟨[.map ⟨some a, some (step .self (.name "x")), none, none, .multiple, false⟩ [],
      .map ⟨some a, some (step .child (.name "p")), none, none, .graft, false⟩
        [.sort .ascending a none]]⟩
    let env : Environment := { load := fun path => .error (.notFound path) }
    let source : Document :=
      .ofTrees 0 [.element (.plain "r") [] [.element (.plain "a") [] [.text "k"]]]
    let template (name : String) : Document := .ofTrees 1 [.element (.plain name) [] []]
    let f : Frame := ⟨source, source.contextNode, "s.xml"⟩
    (p.run env source "s.xml" (template "x")).1 = .ok {} ∧
      (p.run env source "s.xml" (template "y")).1 = .ok ⟨[⟨.ascending, "k"⟩]⟩ ∧
      f.keys env p.sortings = .ok ⟨[⟨.ascending, "k"⟩]⟩ :=
  ⟨by cbv, by cbv, by cbv⟩

end Program
end MarkupGraft
