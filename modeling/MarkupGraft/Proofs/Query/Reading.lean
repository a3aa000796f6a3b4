import MarkupGraft.Proofs.Query.Reader

/-!
What the parser reads is a phrase of the grammar. The readers of nested expressions are taken for
granted; the depth of nesting is the induction.
-/

namespace MarkupGraft.Query

open Reader

/-! Levels -/

namespace Rank

/-- The reader of operands of a rank. -/
def level (expression : Reader Expression) : Rank → Reader Expression
  | .path => pathExpression expression
  | .unary => unaryLevel expression
  | .chain operators operand => Query.chain operators (operand.level expression)

def Ordered : Rank → Prop
  | .path | .unary => True
  | .chain operators operand => Query.Ordered operators ∧ operand.Ordered

theorem ordered_union : union.Ordered := ⟨by decide, trivial⟩

theorem ordered_any : any.Ordered :=
  ⟨by decide, by decide, by decide, by decide, by decide, by decide, trivial⟩

end Rank

/-! Lengths -/

theorem Phrase.length_le {p : Part} {value : p.Value} {input rest : List Char}
    (h : Phrase .read p value input rest) : rest.length + p.least ≤ input.length :=
  (h.takes .of_eq).length_le

/-! What is read -/

section
variable {expression : Reader Expression} {input rest : List Char} {e : Expression}

theorem oneOf_slashes_eq_none_iff :
    oneOf slashes input = none ↔ ∀ c ∈ input.head?, c ≠ '/' := by
  constructor
  · rintro h c hc rfl
    obtain ⟨more, rfl⟩ := List.head?_eq_some_iff.mp hc
    exact oneOf_eq_none_iff.mp h ("/", []) (by simp [slashes]) ⟨more, rfl⟩
  · intro h
    refine Option.eq_none_iff_forall_ne_some.mpr ?_
    rintro ⟨between, rest⟩ hs
    obtain ⟨text, hslash⟩ := (oneOf_eq_some_iff ordered_slashes).mp hs
    obtain ⟨more, rfl⟩ := hslash.exists_cons_slash
    exact h '/' rfl rfl

/-- Behind a single slash there is no other one. -/
theorem Longest.head?_ne_slash {text : String} (h : Longest slashes text [] input rest) :
    ∀ c ∈ rest.head?, c ≠ '/' := by
  rintro c hc rfl
  obtain ⟨more, rfl⟩ := List.head?_eq_some_iff.mp hc
  have htext : ∀ m ∈ slashes, m.2 = [] → m.1 = "/" := by
    simp [slashes]
  obtain rfl : text = "/" := htext _ h.mem rfl
  have := h.longest ("//", [.anyNode .descendantOrSelf]) (by simp [slashes]) ⟨more, h.eq.symm⟩
  revert this
  decide

theorem nextStep_eq_none (h : ∀ c ∈ input.head?, c ≠ '/') : nextStep expression input = none := by
  have hone := oneOf_slashes_eq_none_iff.mpr h
  rw [slashes] at hone
  rw [nextStep, hone]
  rfl

/-- What is found of nested expressions is right. -/
def Sound (expression : Reader Expression) : Prop :=
  ∀ {input rest e}, expression input = some (e, rest) → Phrase .read (.operand .any) e input rest

variable (hs : Sound expression)
include hs

theorem predicates_read (input : List Char) : Phrase .read .predicates
    (many (predicate expression) input).1 input (many (predicate expression) input).2 := by
  refine many_induction (P := Phrase .read .predicates) (fun _ => .noPredicates) ?_ input
  intro e more input behind rest hr ih
  obtain ⟨inner, last, behind, hopened, hnested, hclosed, rfl⟩ := predicate_eq_some_iff.mp hr
  exact .predicates hopened (hs hnested) hclosed ih

theorem step_read {s : Step} (h : step expression input = some (s, rest)) :
    Phrase .read .step s input rest := by
  rcases step_eq_some_iff.mp h with ⟨text, hdots⟩ | ⟨-, hfull⟩
  · exact .dots hdots
  · obtain ⟨axis, test, behind, hhead, rfl, rfl⟩ := fullStep_eq_some_iff.mp hfull
    exact .full (head_of_stepHead hhead) (predicates_read hs behind)

theorem nextSteps_read (input : List Char) : Phrase .read .steps
    (nextSteps expression input).1 input (nextSteps expression input).2 := by
  refine many_induction (P := fun items => Phrase .read .steps items.flatten)
    (fun _ => .noSteps) ?_ input
  intro found items input behind rest hr ih
  obtain ⟨text, between, start, s, hslash, hstep, rfl⟩ := nextStep_eq_some_iff.mp hr
  rw [List.flatten_cons, List.append_assoc]
  exact .steps rfl hslash rfl (step_read hs hstep) ih

theorem length_nextStep {found : List Step} (h : nextStep expression input = some (found, rest)) :
    rest.length < input.length := by
  obtain ⟨text, between, start, s, hslash, hstep, -⟩ := nextStep_eq_some_iff.mp h
  have := hslash.takes_slash.length_le
  have := (step_read hs hstep).length_le
  omega

theorem locationPath_read (h : locationPath expression input = some (e, rest)) :
    Phrase .read .location e input rest := by
  obtain ⟨origin, steps, behind, hstart, rfl, rfl⟩ := locationPath_eq_some_iff.mp h
  have hfurther := nextSteps_read hs behind
  rcases pathStart_eq_some_iff.mp hstart with ⟨between, start, s, hone, hstep, rfl, rfl⟩ |
    ⟨hone, hnone, rfl, rfl⟩ | ⟨hone, s, hstep, rfl, rfl⟩
  · obtain ⟨text, hslash⟩ := (oneOf_eq_some_iff ordered_slashes).mp hone
    rw [List.append_assoc]
    exact .absolute rfl hslash rfl (step_read hs hstep) hfurther
  · obtain ⟨text, hslash⟩ := (oneOf_eq_some_iff ordered_slashes).mp hone
    have hno : nextStep expression behind = none := nextStep_eq_none hslash.head?_ne_slash
    rw [nextSteps_eq, many_of_none hno]
    exact .root rfl hslash (step_eq_none_iff.mp hnone)
  · exact .relative rfl (step_read hs hstep) hfurther

theorem callArguments_read (input : List Char) : Phrase .read .arguments
    (callArguments expression input).1 input (callArguments expression input).2 := by
  cases he : expression input with
  | none =>
    rw [callArguments_of_none he]
    exact .noArguments
  | some found =>
    rw [callArguments_of_some he]
    refine .arguments (hs he) ?_
    refine many_induction (P := Phrase .read .furtherArguments) (fun _ => .noFurther) ?_ found.2
    intro e more input behind rest hr ih
    obtain ⟨inner, hcomma, hnext⟩ := furtherArgument_eq_some_iff.mp hr
    exact .further hcomma (hs hnext) ih

theorem primary_read (h : primary expression input = some (e, rest)) :
    Phrase .read .primary e input rest := by
  obtain ⟨behind, hcore, rfl⟩ := primary_eq_some_iff.mp h
  rcases hcore with h | ⟨-, h | ⟨-, h | ⟨-, h⟩⟩⟩
  · exact .number h
  · exact .literal h
  · obtain ⟨whole, base, start, inner, last, hname, hopened, hkind, hclosed, rfl, rfl⟩ :=
      call_eq_some_iff.mp h
    rw [skipBlank_skipBlank]
    exact .call hname hkind hopened (callArguments_read hs inner) hclosed
  · obtain ⟨inner, last, start, hopened, hnested, hclosed, rfl⟩ := parenthesized_eq_some_iff.mp h
    rw [skipBlank_skipBlank] at hopened ⊢
    exact .parenthesized hopened (hs hnested) hclosed

theorem pathExpression_read (h : pathExpression expression input = some (e, rest)) :
    Phrase .read (.operand .path) e input rest := by
  obtain ⟨head, behind, hhead, rfl, rfl⟩ := pathExpression_eq_some_iff.mp h
  rcases orElse_eq_some_iff.mp hhead with hprimary | ⟨-, hlocation⟩
  · exact .filtered (primary_read hs hprimary) (nextSteps_read hs behind)
  · -- A location path has taken all steps already.
    obtain ⟨origin, steps, start, -, -, rfl⟩ := locationPath_eq_some_iff.mp hlocation
    have hno : nextStep expression (nextSteps expression start).2 = none :=
      many_snd (fun input found rest => length_nextStep hs) start
    rw [nextSteps_eq, many_of_none hno]
    exact .located (locationPath_read hs hlocation)

omit hs in
theorem chain_read {operators : List (String × Operator)} {operand : Rank}
    {level : Reader Expression} (ho : Ordered operators)
    (hl : ∀ {input rest e}, level input = some (e, rest) → Phrase .read (.operand operand) e input rest)
    (h : chain operators level input = some (e, rest)) :
    Phrase .read (.operand (.chain operators operand)) e input rest := by
  obtain ⟨first, behind, hfirst, rfl, rfl⟩ := chain_eq_some_iff.mp h
  -- What has been joined so far is a phrase, to which the next operand is joined.
  refine many_induction (P := fun others behind rest => ∀ left input,
    Phrase .read (.operand (.chain operators operand)) left input behind →
    Phrase .read (.operand (.chain operators operand)) (joinLeft left others) input rest)
    (fun _ _ _ h => h) ?_ behind first input (.single (hl hfirst))
  intro ⟨operator, right⟩ others input behind rest hr ih left start hleft
  obtain ⟨text, last, hmark, hright⟩ := (chainItem_eq_some_iff ho).mp hr
  exact ih _ _ (.joined hleft hmark (fun _ => trivial) (hl hright))

theorem unaryLevel_read (h : unaryLevel expression input = some (e, rest)) :
    Phrase .read (.operand .unary) e input rest := by
  obtain ⟨operand, hoperand, rfl⟩ := unaryLevel_eq_some_iff.mp h
  have hunion : Phrase .read (.operand .union) operand _ rest :=
    chain_read (by decide) (pathExpression_read hs) hoperand
  -- From the last sign to the first: what is behind a sign is a phrase.
  refine many_induction (P := fun signs input behind => ∀ e,
    Phrase .read (.operand .unary) e behind rest →
    Phrase .read (.operand .unary) (signs.foldl (fun e _ => .negate e) e) input rest)
    (fun _ _ h => h) ?_ input operand (.unsigned hunion)
  intro _ signs input behind last hr ih e he
  obtain ⟨start, hsign, rfl⟩ := spaced_mark_eq_some_iff.mp hr
  rw [List.foldl_cons, List.foldl_hom Expression.negate fun _ _ => rfl]
  exact .negated hsign (ih e he)

theorem level_read {rank : Rank} (ho : rank.Ordered)
    (h : rank.level expression input = some (e, rest)) :
    Phrase .read (.operand rank) e input rest := by
  induction rank generalizing input rest e with
  | path => exact pathExpression_read hs h
  | unary => exact unaryLevel_read hs h
  | chain operators operand ih => exact chain_read ho.1 (ih ho.2) h

omit hs in
/-- Every expression that is read is a phrase. -/
theorem sound_expression (depth : Nat) : Sound (Query.expression depth) := by
  induction depth with
  | zero =>
    intro input rest e h
    cases h
  | succ depth ih =>
    intro input rest e h
    exact level_read ih Rank.ordered_any h

end

end MarkupGraft.Query
