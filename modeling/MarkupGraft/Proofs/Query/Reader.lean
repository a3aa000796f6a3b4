import MarkupGraft.Proofs.Query.Phrase

/-!
The readers of nested phrases, each told by one equivalence: what it finds in terms of what the
readers that it calls find.
-/

namespace MarkupGraft.Query

open Reader

namespace Reader
variable {α : Type} {r : Reader α} {input rest : List Char}

theorem spaced_eq_some_iff {a : α} : spaced r input = some (a, rest) ↔
    ∃ behind, r (skipBlank input) = some (a, behind) ∧ rest = skipBlank behind := by
  rw [spaced, Option.bind_eq_bind, Option.bind_eq_some_iff]
  constructor
  · rintro ⟨⟨_, behind⟩, hr, h⟩
    cases h
    exact ⟨behind, hr, rfl⟩
  · rintro ⟨behind, hr, rfl⟩
    exact ⟨(a, behind), hr, rfl⟩

theorem orElse_eq_some_iff {s : Reader α} {found : α × List Char} :
    orElse r s input = some found ↔ r input = some found ∨ r input = none ∧ s input = some found := by
  rw [orElse, Option.or_eq_some_iff]

theorem many_of_none (h : r input = none) : many r input = ([], input) := by
  rw [many, h]

theorem many_of_some {a : α} (h : r input = some (a, rest)) (hlt : rest.length < input.length) :
    many r input = (a :: (many r rest).1, (many r rest).2) := by
  rw [many, h]
  exact if_pos hlt

/-- What holds of the items that are read, from the last one to the first. -/
theorem many_induction {P : List α → List Char → List Char → Prop} (nil : ∀ input, P [] input input)
    (cons : ∀ a items input behind rest, r input = some (a, behind) → P items behind rest →
      P (a :: items) input rest) (input : List Char) : P (many r input).1 input (many r input).2 := by
  induction hk : input.length using Nat.strongRecOn generalizing input with
  | ind k ih =>
    cases hr : r input with
    | none =>
      rw [many_of_none hr]
      exact nil input
    | some found =>
      obtain ⟨a, behind⟩ := found
      by_cases hlt : behind.length < input.length
      · rw [many_of_some hr hlt]
        exact cons _ _ _ _ _ hr (ih behind.length (by omega) behind rfl)
      · rw [many, hr]
        simp only [hlt, if_false]
        exact nil input

/-- Where items have been read none can be read any more. -/
theorem many_snd (hr : ∀ input a rest, r input = some (a, rest) → rest.length < input.length)
    (input : List Char) : r (many r input).2 = none := by
  induction hk : input.length using Nat.strongRecOn generalizing input with
  | ind k ih =>
    cases hfound : r input with
    | none => rwa [many_of_none hfound]
    | some found =>
      obtain ⟨a, behind⟩ := found
      have hlt := hr input a behind hfound
      rw [many_of_some hfound hlt]
      exact ih behind.length (by omega) behind rfl

end Reader

variable {expression : Reader Expression} {input rest : List Char} {e : Expression}

/-! Steps -/

/-- An expression between brackets. -/
private theorem bracketed_eq_some_iff {opening closing : String} : (do
      let (_, rest) ← spaced (mark opening) input
      let (e, rest) ← expression rest
      let (_, rest) ← spaced (mark closing) rest
      pure (e, rest)) = some (e, rest) ↔
    ∃ inner last behind, skipBlank input = opening.toList ++ inner ∧
      expression (skipBlank inner) = some (e, last) ∧ skipBlank last = closing.toList ++ behind ∧
      rest = skipBlank behind := by
  constructor
  · intro h
    obtain ⟨⟨_, _⟩, hopened, h⟩ := Option.bind_eq_some_iff.mp h
    obtain ⟨inner, hinner, rfl⟩ := spaced_mark_eq_some_iff.mp hopened
    obtain ⟨⟨_, last⟩, hnested, h⟩ := Option.bind_eq_some_iff.mp h
    obtain ⟨⟨_, _⟩, hclosed, h⟩ := Option.bind_eq_some_iff.mp h
    obtain ⟨behind, hbehind, rfl⟩ := spaced_mark_eq_some_iff.mp hclosed
    cases h
    exact ⟨inner, last, behind, hinner, hnested, hbehind, rfl⟩
  · rintro ⟨inner, last, behind, hinner, hnested, hbehind, rfl⟩
    refine Option.bind_eq_some_iff.mpr
      ⟨((), skipBlank inner), spaced_mark_eq_some_iff.mpr ⟨inner, hinner, rfl⟩, ?_⟩
    refine Option.bind_eq_some_iff.mpr ⟨(e, last), hnested, ?_⟩
    exact Option.bind_eq_some_iff.mpr
      ⟨((), skipBlank behind), spaced_mark_eq_some_iff.mpr ⟨behind, hbehind, rfl⟩, rfl⟩

theorem predicate_eq_some_iff : predicate expression input = some (e, rest) ↔
    ∃ inner last behind, skipBlank input = '[' :: inner ∧
      expression (skipBlank inner) = some (e, last) ∧ skipBlank last = ']' :: behind ∧
      rest = skipBlank behind := bracketed_eq_some_iff

theorem fullStep_eq_some_iff {s : Step} : fullStep expression input = some (s, rest) ↔
    ∃ axis test behind, stepHead input = some ((axis, test), behind) ∧
      s = .mk axis test (many (predicate expression) behind).1 ∧
      rest = (many (predicate expression) behind).2 := by
  rw [fullStep, Option.bind_eq_bind, Option.bind_eq_some_iff]
  constructor
  · rintro ⟨⟨⟨axis, test⟩, behind⟩, hhead, h⟩
    cases h
    exact ⟨axis, test, behind, hhead, rfl, rfl⟩
  · rintro ⟨axis, test, behind, hhead, rfl, rfl⟩
    exact ⟨((axis, test), behind), hhead, rfl⟩

theorem step_eq_some_iff {s : Step} : step expression input = some (s, rest) ↔
    (∃ text, Longest dots text s input rest) ∨
      oneOf dots input = none ∧ fullStep expression input = some (s, rest) :=
  orElse_eq_some_iff.trans (or_congr_left (oneOf_eq_some_iff ordered_dots))

theorem step_eq_none_iff : step expression input = none ↔
    (∀ text s behind, ¬Longest dots text s input behind) ∧
      ∀ axis test behind, ¬Head (· = ·) axis test input behind := by
  have hdots : oneOf dots input = none ↔ ∀ text s behind, ¬Longest dots text s input behind := by
    rw [Option.eq_none_iff_forall_ne_some]
    exact ⟨fun h text s behind hd => h (s, behind) ((oneOf_eq_some_iff ordered_dots).mpr ⟨text, hd⟩),
      fun h (s, behind) hs => by
        obtain ⟨text, hd⟩ := (oneOf_eq_some_iff ordered_dots).mp hs
        exact h text s behind hd⟩
  have hfull : fullStep expression input = none ↔ stepHead input = none := by
    rw [fullStep, Option.bind_eq_bind, Option.bind_eq_none_iff]
    refine ⟨fun h => Option.eq_none_iff_forall_ne_some.mpr fun found hf => ?_, fun h => ?_⟩
    · cases h found hf
    · simp [h]
  rw [← hdots, ← stepHead_eq_none_iff, ← hfull]
  exact Option.or_eq_none_iff

/-- The step behind one or two slashes, with the steps that these abbreviate. -/
theorem nextStep_eq_some_iff {found : List Step} : nextStep expression input = some (found, rest) ↔
    ∃ text between behind s, Longest slashes text between input behind ∧
      step expression behind = some (s, rest) ∧ found = between ++ [s] := by
  constructor
  · intro h
    obtain ⟨⟨between, behind⟩, hslash, h⟩ := Option.bind_eq_some_iff.mp h
    obtain ⟨text, hslash⟩ := (oneOf_eq_some_iff ordered_slashes).mp hslash
    obtain ⟨⟨s, last⟩, hstep, h⟩ := Option.bind_eq_some_iff.mp h
    cases h
    exact ⟨text, between, behind, s, hslash, hstep, rfl⟩
  · rintro ⟨text, between, behind, s, hslash, hstep, rfl⟩
    exact Option.bind_eq_some_iff.mpr ⟨(between, behind),
      (oneOf_eq_some_iff ordered_slashes).mpr ⟨text, hslash⟩,
      Option.bind_eq_some_iff.mpr ⟨(s, rest), hstep, rfl⟩⟩

theorem nextSteps_eq : nextSteps expression input =
    ((many (nextStep expression) input).1.flatten, (many (nextStep expression) input).2) := rfl

/-! Paths -/

private theorem pathStart_eq : pathStart expression input =
    match oneOf slashes input with
    | some (between, behind) =>
      match step expression behind with
      | some (s, rest) => some ((.root, between ++ [s]), rest)
      | none => if between = [] then some ((.root, []), behind) else none
    | none => (step expression input).map fun (s, rest) => ((.context, [s]), rest) := by
  rw [pathStart, slashes, oneOf_cons, oneOf_cons, oneOf_nil, Option.or_none]
  cases mark "//" input with
  | some found =>
    obtain ⟨_, behind⟩ := found
    cases hs : step expression behind <;> simp [hs]
  | none =>
    cases mark "/" input with
    | some found =>
      obtain ⟨_, behind⟩ := found
      cases hs : step expression behind <;> simp [hs]
    | none => cases step expression input <;> simp

theorem pathStart_eq_some_iff {origin : Origin} {steps : List Step} :
    pathStart expression input = some ((origin, steps), rest) ↔
      (∃ between behind s, oneOf slashes input = some (between, behind) ∧
        step expression behind = some (s, rest) ∧ origin = .root ∧ steps = between ++ [s]) ∨
      (oneOf slashes input = some ([], rest) ∧ step expression rest = none ∧
        origin = .root ∧ steps = []) ∨
      oneOf slashes input = none ∧ ∃ s, step expression input = some (s, rest) ∧
        origin = .context ∧ steps = [s] := by
  rw [pathStart_eq]
  cases oneOf slashes input with
  | none => cases step expression input <;> grind
  | some found =>
    obtain ⟨between, behind⟩ := found
    cases step expression behind <;> grind

theorem locationPath_eq_some_iff : locationPath expression input = some (e, rest) ↔
    ∃ origin steps behind, pathStart expression input = some ((origin, steps), behind) ∧
      e = .path origin (steps ++ (nextSteps expression behind).1) ∧
      rest = (nextSteps expression behind).2 := by
  rw [locationPath, Option.bind_eq_bind, Option.bind_eq_some_iff]
  constructor
  · rintro ⟨⟨⟨origin, steps⟩, behind⟩, hstart, h⟩
    cases h
    exact ⟨origin, steps, behind, hstart, rfl, rfl⟩
  · rintro ⟨origin, steps, behind, hstart, rfl, rfl⟩
    exact ⟨((origin, steps), behind), hstart, rfl⟩

/-! Operands -/

/-- The arguments of a call. -/
abbrev callArguments (expression : Reader Expression) (input : List Char) :
    List Expression × List Char :=
  separated (spaced (mark ",")) expression input

/-- An argument behind a comma. -/
abbrev furtherArgument (expression : Reader Expression) : Reader Expression := fun input => do
  let (_, rest) ← spaced (mark ",") input
  expression rest

theorem furtherArgument_eq_some_iff : furtherArgument expression input = some (e, rest) ↔
    ∃ inner, skipBlank input = ',' :: inner ∧ expression (skipBlank inner) = some (e, rest) := by
  rw [furtherArgument, Option.bind_eq_bind, Option.bind_eq_some_iff]
  constructor
  · rintro ⟨⟨_, _⟩, hcomma, h⟩
    obtain ⟨inner, hinner, rfl⟩ := spaced_mark_eq_some_iff.mp hcomma
    exact ⟨inner, hinner, h⟩
  · rintro ⟨inner, hinner, h⟩
    exact ⟨((), skipBlank inner), spaced_mark_eq_some_iff.mpr ⟨inner, hinner, rfl⟩, h⟩

theorem callArguments_of_none (h : expression input = none) :
    callArguments expression input = ([], input) := by
  rw [callArguments, separated, h]

theorem callArguments_of_some (h : expression input = some (e, rest)) :
    callArguments expression input =
      (e :: (many (furtherArgument expression) rest).1,
        (many (furtherArgument expression) rest).2) := by
  rw [callArguments, separated, h]

theorem call_eq_some_iff : call expression input = some (e, rest) ↔
    ∃ whole base behind inner last, Name whole base input behind ∧
      skipBlank behind = '(' :: inner ∧ kindTests.lookup (String.ofList whole) = none ∧
      skipBlank (callArguments expression inner).2 = ')' :: last ∧
      e = .call (String.ofList whole) (callArguments expression inner).1 ∧ rest = skipBlank last := by
  constructor
  · intro h
    obtain ⟨⟨⟨whole, base⟩, behind⟩, hname, h⟩ := Option.bind_eq_some_iff.mp h
    obtain ⟨⟨_, inner⟩, hopened, h⟩ := Option.bind_eq_some_iff.mp h
    dsimp only at h
    split at h
    · cases h
    · rename_i hkind
      obtain ⟨⟨_, _⟩, hclosed, h⟩ := Option.bind_eq_some_iff.mp h
      obtain ⟨last, hlast, rfl⟩ := spaced_mark_eq_some_iff.mp hclosed
      cases h
      exact ⟨whole, base, behind, inner, last, qualifiedName_eq_some_iff.mp hname,
        mark_eq_some_iff.mp hopened, Option.not_isSome_iff_eq_none.mp hkind, hlast, rfl, rfl⟩
  · rintro ⟨whole, base, behind, inner, last, hname, hopened, hkind, hclosed, rfl, rfl⟩
    refine Option.bind_eq_some_iff.mpr
      ⟨((whole, base), behind), qualifiedName_eq_some_iff.mpr hname, ?_⟩
    refine Option.bind_eq_some_iff.mpr ⟨((), inner), mark_eq_some_iff.mpr hopened, ?_⟩
    dsimp only
    rw [if_neg (Option.not_isSome_iff_eq_none.mpr hkind)]
    exact Option.bind_eq_some_iff.mpr
      ⟨((), skipBlank last), spaced_mark_eq_some_iff.mpr ⟨last, hclosed, rfl⟩, rfl⟩

theorem parenthesized_eq_some_iff : parenthesized expression input = some (e, rest) ↔
    ∃ inner last behind, skipBlank input = '(' :: inner ∧
      expression (skipBlank inner) = some (e, last) ∧ skipBlank last = ')' :: behind ∧
      rest = skipBlank behind := bracketed_eq_some_iff

theorem primary_eq_some_iff : primary expression input = some (e, rest) ↔
    ∃ behind, (Numeral e (skipBlank input) behind ∨
      number (skipBlank input) = none ∧ (Quotation e (skipBlank input) behind ∨
        literal (skipBlank input) = none ∧ (call expression (skipBlank input) = some (e, behind) ∨
          call expression (skipBlank input) = none ∧
            parenthesized expression (skipBlank input) = some (e, behind)))) ∧
      rest = skipBlank behind := by
  rw [primary, spaced_eq_some_iff]
  simp only [orElse_eq_some_iff, number_eq_some_iff, literal_eq_some_iff]

theorem pathExpression_eq_some_iff : pathExpression expression input = some (e, rest) ↔
    ∃ head behind, orElse (primary expression) (locationPath expression) input = some (head, behind) ∧
      e = extendPath head (nextSteps expression behind).1 ∧
      rest = (nextSteps expression behind).2 := by
  rw [pathExpression, Option.bind_eq_bind, Option.bind_eq_some_iff]
  constructor
  · rintro ⟨⟨head, behind⟩, hhead, h⟩
    cases h
    exact ⟨head, behind, hhead, rfl, rfl⟩
  · rintro ⟨head, behind, hhead, rfl, rfl⟩
    exact ⟨(head, behind), hhead, rfl⟩

/-! Operators -/

/-- An operator of one level and its right operand. -/
abbrev chainItem (operators : List (String × Operator)) (operand : Reader Expression) :
    Reader (Operator × Expression) := fun input => do
  let (operator, rest) ← spaced (oneOf operators) input
  let (right, rest) ← operand rest
  pure ((operator, right), rest)

/-- Operands put together from the left. -/
abbrev joinLeft (first : Expression) (others : List (Operator × Expression)) : Expression :=
  others.foldl (fun left (operator, right) => .binary operator left right) first

variable {operators : List (String × Operator)} {operand : Reader Expression}

theorem chainItem_eq_some_iff (h : Ordered operators) {operator : Operator} {right : Expression} :
    chainItem operators operand input = some ((operator, right), rest) ↔
      ∃ text behind, Longest operators text operator (skipBlank input) behind ∧
        operand (skipBlank behind) = some (right, rest) := by
  rw [chainItem, Option.bind_eq_bind, Option.bind_eq_some_iff]
  constructor
  · rintro ⟨⟨_, _⟩, hspaced, hr⟩
    obtain ⟨behind, hone, rfl⟩ := spaced_eq_some_iff.mp hspaced
    obtain ⟨text, hmark⟩ := (oneOf_eq_some_iff h).mp hone
    obtain ⟨⟨_, last⟩, hright, hr⟩ := Option.bind_eq_some_iff.mp hr
    cases hr
    exact ⟨text, behind, hmark, hright⟩
  · rintro ⟨text, behind, hmark, hright⟩
    exact ⟨(operator, skipBlank behind),
      spaced_eq_some_iff.mpr ⟨behind, (oneOf_eq_some_iff h).mpr ⟨text, hmark⟩, rfl⟩,
      Option.bind_eq_some_iff.mpr ⟨(right, rest), hright, rfl⟩⟩

theorem chain_eq_some_iff : chain operators operand input = some (e, rest) ↔
    ∃ first behind, operand input = some (first, behind) ∧
      e = joinLeft first (many (chainItem operators operand) behind).1 ∧
      rest = (many (chainItem operators operand) behind).2 := by
  rw [chain, Option.bind_eq_bind, Option.bind_eq_some_iff]
  constructor
  · rintro ⟨⟨first, behind⟩, hfirst, h⟩
    cases h
    exact ⟨first, behind, hfirst, rfl, rfl⟩
  · rintro ⟨first, behind, hfirst, rfl, rfl⟩
    exact ⟨(first, behind), hfirst, rfl⟩

theorem unaryLevel_eq_some_iff : unaryLevel expression input = some (e, rest) ↔
    ∃ operand, unionLevel expression (many (spaced (mark "-")) input).2 = some (operand, rest) ∧
      e = (many (spaced (mark "-")) input).1.foldl (fun e _ => .negate e) operand := by
  rw [unaryLevel, Option.bind_eq_bind, Option.bind_eq_some_iff]
  constructor
  · rintro ⟨⟨operand, last⟩, hoperand, h⟩
    cases h
    exact ⟨operand, hoperand, rfl⟩
  · rintro ⟨operand, hoperand, rfl⟩
    exact ⟨(operand, rest), hoperand, rfl⟩

end MarkupGraft.Query
