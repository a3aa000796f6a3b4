import MarkupGraft.Proofs.Query.Following

/-!
Phrases of the grammar are read, up to where their readers stop. There is one lemma for each way to
put a phrase together. What is nested in brackets is shorter than the input, so that a reader which
may go as deep as the input is long never goes too deep.
-/

namespace MarkupGraft.Query

open Reader

/-! Readers of phrases -/

/-- The reader of phrases of a kind. -/
def Part.reader (expression : Reader Expression) : (p : Part) → Reader p.Value
  | .operand rank => rank.level expression
  | .primary => Query.primary expression
  | .arguments => fun input => some (callArguments expression input)
  | .furtherArguments => fun input => some (many (furtherArgument expression) input)
  | .location => locationPath expression
  | .steps => fun input => some (nextSteps expression input)
  | .step => Query.step expression
  | .predicates => fun input => some (many (Query.predicate expression) input)

/-- What is read where a phrase has been found: operands joined by operators go on with what follows,
all others end. -/
def Part.found (expression : Reader Expression) :
    (p : Part) → p.Value → List Char → Option (p.Value × List Char)
  | .operand (.chain operators inner), left, rest =>
    let (others, rest) := many (chainItem operators (inner.level expression)) rest
    some (joinLeft left others, rest)
  | _, value, rest => some (value, rest)

/-- What must stand behind a phrase so that it is read so far. -/
def Part.Settled : Part → List Char → Prop
  | .operand (.chain _ inner), rest => inner.Stops rest
  | p, rest => p.Stops rest

def Part.Regular : Part → Prop
  | .operand rank => rank.Ordered ∧ rank.Apart
  | _ => True

/-- How deep expressions may be nested in a phrase. -/
def Part.depth : Part → List Char → Nat
  | .arguments, input => input.length + 1
  | _, input => input.length

def Complete (p : Part) (value : p.Value) (input rest : List Char) : Prop :=
  p.Regular → p.Settled rest → ∀ depth, p.depth input ≤ depth →
    p.reader (expression depth) input = p.found (expression depth) value rest

theorem regular_any : (Part.operand .any).Regular := ⟨Rank.ordered_any, Rank.apart_any⟩

section
variable {e : Expression} {input rest : List Char} {depth : Nat}

theorem chainItem_eq_none {operators : List (String × Operator)} {operand : Reader Expression}
    (h : Unjoined operators rest) : chainItem operators operand rest = none := by
  rw [chainItem, spaced, oneOf_eq_none_iff.mpr h]
  rfl

theorem Complete.operand {rank : Rank} (h : Complete (.operand rank) e input rest)
    (hr : (Part.operand rank).Regular) (hs : rank.Stops rest) (hd : input.length ≤ depth) :
    rank.level (expression depth) input = some (e, rest) := by
  cases rank with
  | path | unary => exact h hr hs depth hd
  | chain operators operand =>
    refine (h hr hs.1 depth hd).trans ?_
    rw [Part.found, many_of_none (chainItem_eq_none hs.2)]
    rfl

theorem Complete.nested (h : Complete (.operand .any) e input rest) (hs : Rank.any.Stops rest)
    (hd : input.length < depth) : expression depth input = some (e, rest) := by
  cases depth with
  | zero => omega
  | succ depth => exact h.operand regular_any hs (by omega)

theorem Complete.arguments {arguments : List Expression}
    (h : Complete .arguments arguments input rest) (hs : ')' ∈ (skipBlank rest).head?)
    (hd : input.length < depth) : callArguments (expression depth) input = (arguments, rest) :=
  Option.some.inj (h trivial hs depth hd)

theorem Complete.furtherArguments {more : List Expression}
    (h : Complete .furtherArguments more input rest) (hs : ')' ∈ (skipBlank rest).head?)
    (hd : input.length ≤ depth) :
    many (furtherArgument (expression depth)) input = (more, rest) :=
  Option.some.inj (h trivial hs depth hd)

theorem Complete.predicates {predicates : List Expression}
    (h : Complete .predicates predicates input rest) (hs : Ends stepMarks rest)
    (hd : input.length ≤ depth) :
    many (Query.predicate (expression depth)) input = (predicates, rest) :=
  Option.some.inj (h trivial hs depth hd)

theorem Complete.step {s : Step} (h : Complete .step s input rest) (hs : Ends stepMarks rest)
    (hd : input.length ≤ depth) : Query.step (expression depth) input = some (s, rest) :=
  h trivial hs depth hd

theorem Complete.steps {steps : List Step} (h : Complete .steps steps input rest)
    (hs : Ends pathMarks rest) (hd : input.length ≤ depth) :
    nextSteps (expression depth) input = (steps, rest) :=
  Option.some.inj (h trivial hs depth hd)

end

section
variable {e : Expression} {input behind inner last rest : List Char}

/-! Primary expressions -/

theorem complete_call {whole base : List Char} {arguments : List Expression}
    (name : Name whole base (skipBlank input) behind)
    (noKind : kindTests.lookup (String.ofList whole) = none)
    (opened : skipBlank behind = '(' :: inner) (nested : Complete .arguments arguments inner last)
    (closed : skipBlank last = ')' :: rest) :
    Complete .primary (.call (String.ofList whole) arguments) input (skipBlank rest) := by
  intro _ _ depth (hd : input.length ≤ depth)
  have htakes : Takes 2 input inner :=
    (takes_skipBlank input).trans (name.takes.trans (takes_of_skipBlank opened))
  have hclosed : ')' ∈ (skipBlank last).head? := by rw [closed]; rfl
  have hnested := nested.arguments hclosed (Nat.lt_of_lt_of_le (by have := htakes.length_le; omega) hd)
  have hcall : call (expression depth) (skipBlank input) =
      some (.call (String.ofList whole) arguments, skipBlank rest) := by
    refine call_eq_some_iff.mpr ⟨whole, base, behind, inner, rest, name, opened, noKind, ?_⟩
    rw [hnested]
    exact ⟨closed, rfl, rfl⟩
  exact primary_eq_some_iff.mpr ⟨skipBlank rest, .inr ⟨number_eq_none_of_name name,
    .inr ⟨literal_eq_none_of_name name, .inl hcall⟩⟩, (skipBlank_skipBlank rest).symm⟩

theorem complete_parenthesized (opened : skipBlank input = '(' :: inner)
    (nested : Complete (.operand .any) e (skipBlank inner) last)
    (closed : skipBlank last = ')' :: rest) : Complete .primary e input (skipBlank rest) := by
  intro _ _ depth (hd : input.length ≤ depth)
  have htakes : Takes 1 input (skipBlank inner) :=
    (takes_of_skipBlank opened).trans (takes_skipBlank inner)
  have hnested := nested.nested (stops_any_of_closed closed (by decide))
    (Nat.lt_of_lt_of_le htakes.length_le hd)
  have hparenthesized : parenthesized (expression depth) (skipBlank input) =
      some (e, skipBlank rest) := by
    rw [parenthesized_eq_some_iff, skipBlank_skipBlank]
    exact ⟨inner, last, rest, opened, hnested, closed, rfl⟩
  have hnumber : number (skipBlank input) = none := by
    rw [opened]
    exact number_eq_none (by rintro c ⟨⟩; decide)
  have hliteral : literal (skipBlank input) = none := by
    rw [opened]
    exact literal_eq_none (by rintro c ⟨⟩; decide)
  have hcall : call (expression depth) (skipBlank input) = none := by
    rw [opened]
    exact call_eq_none (by rintro c ⟨⟩; decide)
  exact primary_eq_some_iff.mpr ⟨skipBlank rest, .inr ⟨hnumber, .inr ⟨hliteral,
    .inr ⟨hcall, hparenthesized⟩⟩⟩, (skipBlank_skipBlank rest).symm⟩

/-! Arguments and predicates -/

theorem complete_arguments {more : List Expression}
    (first : Phrase .read (.operand .any) e input behind)
    (further : Phrase .read .furtherArguments more behind rest)
    (readFirst : Complete (.operand .any) e input behind)
    (readFurther : Complete .furtherArguments more behind rest) :
    Complete .arguments (e :: more) input rest := by
  intro _ hs depth (hd : input.length + 1 ≤ depth)
  have hfirst := first.length_le
  have he := readFirst.nested (further.stops_further hs) hd
  have hmore : many (furtherArgument (expression depth)) behind = (more, rest) :=
    readFurther.furtherArguments hs (by omega)
  refine congrArg some ((callArguments_of_some he).trans ?_)
  rw [hmore]

theorem complete_further {more : List Expression} (comma : skipBlank input = ',' :: inner)
    (next : Phrase .read (.operand .any) e (skipBlank inner) behind)
    (further : Phrase .read .furtherArguments more behind rest)
    (readNext : Complete (.operand .any) e (skipBlank inner) behind)
    (readFurther : Complete .furtherArguments more behind rest) :
    Complete .furtherArguments (e :: more) input rest := by
  intro _ hs depth (hd : input.length ≤ depth)
  have htakes := ((takes_of_skipBlank comma).trans (takes_skipBlank inner)).length_le
  have hnext := next.length_le
  have hitem : furtherArgument (expression depth) input = some (e, behind) :=
    furtherArgument_eq_some_iff.mpr
      ⟨inner, comma, readNext.nested (further.stops_further hs) (by omega)⟩
  have hmore : many (furtherArgument (expression depth)) behind = (more, rest) :=
    readFurther.furtherArguments hs (by omega)
  refine congrArg some ((many_of_some hitem (by omega)).trans ?_)
  rw [hmore]

theorem complete_predicates {more : List Expression} (opened : skipBlank input = '[' :: inner)
    (nested : Phrase .read (.operand .any) e (skipBlank inner) last)
    (closed : skipBlank last = ']' :: behind)
    (readNested : Complete (.operand .any) e (skipBlank inner) last)
    (readFurther : Complete .predicates more (skipBlank behind) rest) :
    Complete .predicates (e :: more) input rest := by
  intro _ hs depth (hd : input.length ≤ depth)
  have hinner := ((takes_of_skipBlank opened).trans (takes_skipBlank inner)).length_le
  have hnested := nested.length_le
  have hbehind := ((takes_of_skipBlank closed).trans (takes_skipBlank behind)).length_le
  have hitem : predicate (expression depth) input = some (e, skipBlank behind) :=
    predicate_eq_some_iff.mpr ⟨inner, last, behind, opened,
      readNested.nested (stops_any_of_closed closed (by decide)) (by omega), closed, rfl⟩
  have hmore : many (predicate (expression depth)) (skipBlank behind) = (more, rest) :=
    readFurther.predicates hs (by omega)
  refine congrArg some ((many_of_some hitem (by omega)).trans ?_)
  rw [hmore]

/-! Steps -/

theorem complete_full {axis : Axis} {test : NodeTest} {predicates : List Expression}
    (head : Head (· = ·) axis test input behind)
    (filtered : Phrase .read .predicates predicates behind rest)
    (readFiltered : Complete .predicates predicates behind rest) :
    Complete .step (.mk axis test predicates) input rest := by
  intro _ hs depth (hd : input.length ≤ depth)
  have hhead := (head.takes .of_eq).length_le
  have hpredicates : many (predicate (expression depth)) behind = (predicates, rest) :=
    readFiltered.predicates hs (by omega)
  have hdots : oneOf dots input = none := by
    obtain ⟨c, more, rfl, hbegins⟩ := head.exists_cons
    refine oneOf_dots_eq_none ?_
    rintro _ ⟨⟩ rfl
    exact absurd hbegins (by decide)
  refine step_eq_some_iff.mpr (.inr ⟨hdots, fullStep_eq_some_iff.mpr ⟨axis, test, behind,
    stepHead_eq_some_of_head head (filtered.head?_predicates hs), ?_⟩⟩)
  rw [hpredicates]
  exact ⟨rfl, rfl⟩

theorem complete_steps {text : String} {between : List Step} {s : Step} {more : List Step}
    (slash : Longest slashes text between input inner) (first : Phrase .read .step s inner last)
    (further : Phrase .read .steps more last rest) (readStep : Complete .step s inner last)
    (readFurther : Complete .steps more last rest) :
    Complete .steps (between ++ s :: more) input rest := by
  intro _ hs depth (hd : input.length ≤ depth)
  have hslash := slash.takes_slash.length_le
  have hfirst := first.length_le
  have hitem : nextStep (expression depth) input = some (between ++ [s], last) :=
    nextStep_eq_some_iff.mpr ⟨text, between, inner, s, slash,
      readStep.step (further.ends_steps hs) (by omega), rfl⟩
  have hmore : nextSteps (expression depth) last = (more, rest) :=
    readFurther.steps hs (by omega)
  refine congrArg some ?_
  rw [nextSteps_eq] at hmore ⊢
  rw [many_of_some hitem (by omega), List.flatten_cons, List.append_assoc]
  rw [Prod.mk.injEq] at hmore ⊢
  rw [hmore.1, hmore.2]
  exact ⟨rfl, rfl⟩

/-! Paths -/

theorem complete_relative {s : Step} {more : List Step} (first : Phrase .read .step s input behind)
    (further : Phrase .read .steps more behind rest) (readStep : Complete .step s input behind)
    (readFurther : Complete .steps more behind rest) :
    Complete .location (.path .context (s :: more)) input rest := by
  intro _ hs depth (hd : input.length ≤ depth)
  have hfirst := first.length_le
  have hmore : nextSteps (expression depth) behind = (more, rest) :=
    readFurther.steps hs (by omega)
  have hslash : oneOf slashes input = none := by
    obtain ⟨c, hc, hbegins⟩ := first.opens
    refine oneOf_slashes_eq_none_iff.mpr ?_
    rintro d hd rfl
    cases hc.symm.trans hd
    exact absurd hbegins (by decide)
  have hstart := pathStart_eq_some_iff.mpr
    (.inr (.inr ⟨hslash, s, readStep.step (further.ends_steps hs) hd, rfl, rfl⟩))
  refine locationPath_eq_some_iff.mpr ⟨.context, [s], behind, hstart, ?_⟩
  rw [hmore]
  exact ⟨rfl, rfl⟩

theorem complete_root {text : String} (slash : Longest slashes text [] input rest)
    (alone : Lexis.read.alone rest) : Complete .location (.path .root []) input rest := by
  intro _ _ depth _
  have hno : nextStep (expression depth) rest = none := nextStep_eq_none slash.head?_ne_slash
  have hstep : step (expression depth) rest = none := step_eq_none_iff.mpr alone
  have hstart := pathStart_eq_some_iff.mpr (.inr (.inl
    ⟨(oneOf_eq_some_iff ordered_slashes).mpr ⟨text, slash⟩, hstep, rfl, rfl⟩))
  refine locationPath_eq_some_iff.mpr ⟨.root, [], rest, hstart, ?_⟩
  rw [nextSteps_eq, many_of_none hno]
  exact ⟨rfl, rfl⟩

theorem complete_absolute {text : String} {between : List Step} {s : Step} {more : List Step}
    (slash : Longest slashes text between input inner) (first : Phrase .read .step s inner last)
    (further : Phrase .read .steps more last rest) (readStep : Complete .step s inner last)
    (readFurther : Complete .steps more last rest) :
    Complete .location (.path .root (between ++ s :: more)) input rest := by
  intro _ hs depth (hd : input.length ≤ depth)
  have hslash := slash.takes_slash.length_le
  have hfirst := first.length_le
  have hmore : nextSteps (expression depth) last = (more, rest) :=
    readFurther.steps hs (by omega)
  have hread : step (expression depth) inner = some (s, last) :=
    readStep.step (further.ends_steps hs) (by omega)
  have hstart := pathStart_eq_some_iff.mpr (.inl ⟨between, inner, s,
    (oneOf_eq_some_iff ordered_slashes).mpr ⟨text, slash⟩, hread, rfl, rfl⟩)
  refine locationPath_eq_some_iff.mpr ⟨.root, between ++ [s], last, hstart, ?_⟩
  rw [hmore, List.append_assoc]
  exact ⟨rfl, rfl⟩

theorem complete_filtered {more : List Step} (primary : Phrase .read .primary e input behind)
    (readPrimary : Complete .primary e input behind)
    (readFurther : Complete .steps more behind rest) :
    Complete (.operand .path) (extendPath e more) input rest := by
  intro _ hs depth (hd : input.length ≤ depth)
  have hprimary := primary.length_le
  have hmore : nextSteps (expression depth) behind = (more, rest) :=
    readFurther.steps hs (by omega)
  refine pathExpression_eq_some_iff.mpr
    ⟨e, behind, orElse_eq_some_iff.mpr (.inl (readPrimary trivial trivial depth hd)), ?_⟩
  rw [hmore]
  exact ⟨rfl, rfl⟩

theorem complete_located (location : Phrase .read .location e input rest)
    (readLocation : Complete .location e input rest) :
    Complete (.operand .path) e input rest := by
  intro _ hs depth hd
  have hno : nextStep (expression depth) rest = none :=
    nextStep_eq_none (Ends.head?_ne_raw hs (by decide) (by decide))
  refine pathExpression_eq_some_iff.mpr ⟨e, rest, orElse_eq_some_iff.mpr
    (.inr ⟨primary_eq_none_of_location location hs, readLocation trivial hs depth hd⟩), ?_⟩
  rw [nextSteps_eq, many_of_none hno]
  exact ⟨rfl, rfl⟩

/-! Operators -/

theorem complete_negated (sign : skipBlank input = '-' :: behind)
    (readOperand : Complete (.operand .unary) e (skipBlank behind) rest) :
    Complete (.operand .unary) (.negate e) input rest := by
  intro _ hs depth (hd : input.length ≤ depth)
  have hsign := ((takes_of_skipBlank sign).trans (takes_skipBlank behind)).length_le
  have hinner : unaryLevel (expression depth) (skipBlank behind) = some (e, rest) :=
    readOperand.operand ⟨trivial, trivial⟩ hs (by omega)
  obtain ⟨operand, hoperand, rfl⟩ := unaryLevel_eq_some_iff.mp hinner
  have hitem : spaced (mark "-") input = some ((), skipBlank behind) :=
    spaced_mark_eq_some_iff.mpr ⟨behind, sign, rfl⟩
  have hmany := many_of_some hitem (by omega)
  refine unaryLevel_eq_some_iff.mpr ⟨operand, ?_, ?_⟩
  · rw [hmany]
    exact hoperand
  · rw [hmany, List.foldl_cons, List.foldl_hom Expression.negate fun _ _ => rfl]

theorem complete_unsigned (operand : Phrase .read (.operand .union) e input rest)
    (readOperand : Complete (.operand .union) e input rest) :
    Complete (.operand .unary) e input rest := by
  intro _ hs depth hd
  have hno : spaced (mark "-") input = none := by
    refine Option.eq_none_iff_forall_ne_some.mpr fun (_, rest) hsign => ?_
    obtain ⟨behind, hsign, -⟩ := spaced_mark_eq_some_iff.mp hsign
    exact operand.head?_ne (c := '-') (by decide) (fun _ => rfl) '-' (by rw [hsign]; rfl) rfl
  refine unaryLevel_eq_some_iff.mpr ⟨e, ?_, ?_⟩ <;> rw [many_of_none hno]
  · exact readOperand.operand ⟨Rank.ordered_union, Rank.apart_union⟩ hs hd
  · rfl

theorem complete_single {operators : List (String × Operator)} {operand : Rank}
    (readOnly : Complete (.operand operand) e input rest) :
    Complete (.operand (.chain operators operand)) e input rest := by
  intro hr hs depth hd
  exact chain_eq_some_iff.mpr
    ⟨e, rest, readOnly.operand ⟨hr.1.2, hr.2.2⟩ hs hd, rfl, rfl⟩

theorem complete_joined {operators : List (String × Operator)} {operand : Rank} {text : String}
    {operator : Operator} {left right : Expression}
    (first : Phrase .read (.operand (.chain operators operand)) left input last)
    (mark : Longest operators text operator (skipBlank last) behind)
    (second : Phrase .read (.operand operand) right (skipBlank behind) rest)
    (readFirst : Complete (.operand (.chain operators operand)) left input last)
    (readSecond : Complete (.operand operand) right (skipBlank behind) rest) :
    Complete (.operand (.chain operators operand)) (.binary operator left right) input rest := by
  intro hr hs depth (hd : input.length ≤ depth)
  have hfirst : last.length + 1 ≤ input.length := first.length_le
  have hmark := ((takes_skipBlank last).trans (mark.takes.trans (takes_skipBlank behind))).length_le
  have hsecond : rest.length + 1 ≤ (skipBlank behind).length := second.length_le
  have hitem : chainItem operators (operand.level (expression depth)) last =
      some ((operator, right), rest) := (chainItem_eq_some_iff hr.1.1).mpr
    ⟨text, behind, mark, readSecond.operand ⟨hr.1.2, hr.2.2⟩ hs (by omega)⟩
  -- The chain read so far goes on with this operator.
  refine (readFirst hr (Rank.stops_of_clear (hr.2.1 _ mark.mem) mark.eq) depth hd).trans ?_
  rw [Part.found, Part.found, many_of_some hitem (by omega)]
  rfl

end

/-- Every phrase is read, up to where its reader stops. The induction is on the phrase: what it is
put together from is read up to where the next part begins. -/
theorem complete_of_phrase {p : Part} {value : p.Value} {input rest : List Char}
    (h : Phrase .read p value input rest) : Complete p value input rest := by
  induction h with
  | number numeral =>
    intro _ _ depth _
    exact primary_eq_some_iff.mpr ⟨_, .inl numeral, rfl⟩
  | literal quotation =>
    intro _ _ depth _
    exact primary_eq_some_iff.mpr
      ⟨_, .inr ⟨number_eq_none_of_quotation quotation, .inl quotation⟩, rfl⟩
  | call name noKind opened _ closed ih => exact complete_call name noKind opened ih closed
  | parenthesized opened _ closed ih => exact complete_parenthesized opened ih closed
  | noArguments =>
    intro _ hs depth _
    exact congrArg some (callArguments_of_none (expression_eq_none hs depth))
  | arguments first further ihFirst ihFurther =>
    exact complete_arguments first further ihFirst ihFurther
  | noFurther =>
    intro _ hs depth _
    exact congrArg some (many_of_none (furtherArgument_eq_none hs))
  | further comma next further ihNext ihFurther =>
    exact complete_further comma next further ihNext ihFurther
  | noPredicates =>
    intro _ hs depth _
    exact congrArg some (many_of_none (predicate_eq_none (hs.head?_ne (by decide))))
  | predicates opened nested closed _ ihNested ihFurther =>
    exact complete_predicates opened nested closed ihNested ihFurther
  | dots dots =>
    intro _ _ depth _
    exact step_eq_some_iff.mpr (.inl ⟨_, dots⟩)
  | full head filtered ih => exact complete_full head filtered ih
  | @noSteps input =>
    intro _ hs depth _
    have hno : nextStep (expression depth) input = none :=
      nextStep_eq_none (hs.head?_ne_raw (by decide) (by decide))
    refine congrArg some ?_
    rw [nextSteps_eq, many_of_none hno]
    rfl
  | steps before slash after step further ihStep ihFurther =>
    subst before after
    exact complete_steps slash step further ihStep ihFurther
  | relative before step further ihStep ihFurther =>
    subst before
    exact complete_relative step further ihStep ihFurther
  | root before slash alone =>
    subst before
    exact complete_root slash alone
  | absolute before slash after step further ihStep ihFurther =>
    subst before after
    exact complete_absolute slash step further ihStep ihFurther
  | filtered primary _ ihPrimary ihFurther => exact complete_filtered primary ihPrimary ihFurther
  | located location ih => exact complete_located location ih
  | negated sign _ ih => exact complete_negated sign ih
  | unsigned operand ih => exact complete_unsigned operand ih
  | single _ ih => exact complete_single ih
  | joined first mark _ second ihFirst ihSecond =>
    exact complete_joined first mark second ihFirst ihSecond

end MarkupGraft.Query
