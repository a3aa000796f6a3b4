import MarkupGraft.Proofs.Query.Lexeme

/-!
The grammar of queries as a relation: what a phrase means, the input that it begins and the rest
behind it. Operators are grouped from the left, the looser ones around the tighter ones. What blanks
may stand inside paths, and what may follow a word, is left open, so that the language a reader of
queries has in mind and the one that the parser takes are two cases of one grammar.
-/

namespace MarkupGraft.Query

open Reader

/-- What a grammar leaves open. -/
structure Lexis where
  /-- What may be left out between the tokens of a path. -/
  gap : List Char → List Char → Prop
  /-- What may stand behind a slash that is a path by itself. -/
  alone : List Char → Prop
  /-- What may stand behind an operator that is a word. -/
  ends : List Char → Prop

/-- The levels of operands, from the tightest outward. -/
inductive Rank where
  | path
  | unary
  | chain (operators : List (String × Operator)) (operand : Rank)

namespace Rank

/-- Paths and their unions, the operands of a minus sign. -/
def union : Rank := .chain [("|", .union)] .path

/-- All expressions. -/
def any : Rank := binaryLevels.foldl (fun operand operators => .chain operators operand) .unary

end Rank

/-- The kinds of phrases. -/
inductive Part where
  | operand (rank : Rank)
  | primary
  | arguments
  | furtherArguments
  | location
  | steps
  | step
  | predicates

/-- What a phrase means. -/
@[reducible] def Part.Value : Part → Type
  | .operand _ | .primary | .location => Expression
  | .arguments | .furtherArguments | .predicates => List Expression
  | .steps => List Step
  | .step => Step

/-- Abbreviations of steps. -/
def dots : List (String × Step) := [("..", .anyNode .parent), (".", .anyNode .self)]

/-- What stands between two steps, with the steps that it abbreviates. -/
def slashes : List (String × List Step) := [("//", [.anyNode .descendantOrSelf]), ("/", [])]

theorem ordered_dots : Ordered dots := by decide

theorem ordered_slashes : Ordered slashes := by decide

theorem Longest.exists_cons_dot {text : String} {s : Step} {input rest : List Char}
    (h : Longest dots text s input rest) : ∃ more, input = '.' :: more := by
  have hfirst : ∀ m ∈ dots, m.1.toList.head?.any (· = '.') := by decide
  obtain ⟨c, more, he, hc⟩ := h.exists_cons hfirst
  exact ⟨more, by rw [he, of_decide_eq_true hc]⟩

theorem Longest.exists_cons_slash {text : String} {between : List Step} {input rest : List Char}
    (h : Longest slashes text between input rest) : ∃ more, input = '/' :: more := by
  have hfirst : ∀ m ∈ slashes, m.1.toList.head?.any (· = '/') := by decide
  obtain ⟨c, more, he, hc⟩ := h.exists_cons hfirst
  exact ⟨more, by rw [he, of_decide_eq_true hc]⟩

theorem Longest.takes_slash {text : String} {between : List Step} {input rest : List Char}
    (h : Longest slashes text between input rest) : Takes 1 input rest := h.takes_one (by decide)

/-- An operator that is read as a word. -/
def IsKeyword (text : String) : Prop := ∀ c ∈ text.toList, isNameStart c

inductive Phrase (L : Lexis) : (p : Part) → p.Value → List Char → List Char → Prop
  /- Primary expressions, between blanks -/
  | number {e : Expression} {input behind : List Char}
    (numeral : Numeral e (skipBlank input) behind) :
    Phrase L .primary e input (skipBlank behind)
  | literal {e : Expression} {input behind : List Char}
    (quotation : Quotation e (skipBlank input) behind) :
    Phrase L .primary e input (skipBlank behind)
  | call {whole base input behind inner last rest : List Char} {arguments : List Expression}
    (name : Name whole base (skipBlank input) behind)
    (noKind : kindTests.lookup (String.ofList whole) = none)
    (opened : skipBlank behind = '(' :: inner) (nested : Phrase L .arguments arguments inner last)
    (closed : skipBlank last = ')' :: rest) :
    Phrase L .primary (.call (String.ofList whole) arguments) input (skipBlank rest)
  | parenthesized {e : Expression} {input inner last rest : List Char}
    (opened : skipBlank input = '(' :: inner)
    (nested : Phrase L (.operand .any) e (skipBlank inner) last)
    (closed : skipBlank last = ')' :: rest) : Phrase L .primary e input (skipBlank rest)
  | noArguments {input : List Char} : Phrase L .arguments [] input input
  | arguments {e : Expression} {more : List Expression} {input behind rest : List Char}
    (first : Phrase L (.operand .any) e input behind)
    (further : Phrase L .furtherArguments more behind rest) :
    Phrase L .arguments (e :: more) input rest
  | noFurther {input : List Char} : Phrase L .furtherArguments [] input input
  | further {e : Expression} {more : List Expression} {input inner behind rest : List Char}
    (comma : skipBlank input = ',' :: inner)
    (next : Phrase L (.operand .any) e (skipBlank inner) behind)
    (further : Phrase L .furtherArguments more behind rest) :
    Phrase L .furtherArguments (e :: more) input rest
  /- Steps -/
  | noPredicates {input : List Char} : Phrase L .predicates [] input input
  | predicates {e : Expression} {more : List Expression} {input inner last behind rest : List Char}
    (opened : skipBlank input = '[' :: inner)
    (nested : Phrase L (.operand .any) e (skipBlank inner) last)
    (closed : skipBlank last = ']' :: behind)
    (further : Phrase L .predicates more (skipBlank behind) rest) :
    Phrase L .predicates (e :: more) input rest
  | dots {text : String} {s : Step} {input rest : List Char}
    (dots : Longest dots text s input rest) : Phrase L .step s input rest
  | full {axis : Axis} {test : NodeTest} {predicates : List Expression}
    {input behind rest : List Char} (head : Head L.gap axis test input behind)
    (filtered : Phrase L .predicates predicates behind rest) :
    Phrase L .step (.mk axis test predicates) input rest
  | noSteps {input : List Char} : Phrase L .steps [] input input
  | steps {text : String} {between : List Step} {s : Step} {more : List Step}
    {input start behind inner last rest : List Char} (before : L.gap input start)
    (slash : Longest slashes text between start behind) (after : L.gap behind inner)
    (step : Phrase L .step s inner last) (further : Phrase L .steps more last rest) :
    Phrase L .steps (between ++ s :: more) input rest
  /- Paths -/
  | relative {s : Step} {more : List Step} {input start behind rest : List Char}
    (before : L.gap input start) (step : Phrase L .step s start behind)
    (further : Phrase L .steps more behind rest) :
    Phrase L .location (.path .context (s :: more)) input rest
  | root {text : String} {input start rest : List Char} (before : L.gap input start)
    (slash : Longest slashes text [] start rest) (alone : L.alone rest) :
    Phrase L .location (.path .root []) input rest
  | absolute {text : String} {between : List Step} {s : Step} {more : List Step}
    {input start behind inner last rest : List Char} (before : L.gap input start)
    (slash : Longest slashes text between start behind) (after : L.gap behind inner)
    (step : Phrase L .step s inner last) (further : Phrase L .steps more last rest) :
    Phrase L .location (.path .root (between ++ s :: more)) input rest
  | filtered {e : Expression} {more : List Step} {input behind rest : List Char}
    (primary : Phrase L .primary e input behind) (further : Phrase L .steps more behind rest) :
    Phrase L (.operand .path) (extendPath e more) input rest
  | located {e : Expression} {input rest : List Char} (location : Phrase L .location e input rest) :
    Phrase L (.operand .path) e input rest
  /- Operators -/
  | negated {e : Expression} {input behind rest : List Char} (sign : skipBlank input = '-' :: behind)
    (operand : Phrase L (.operand .unary) e (skipBlank behind) rest) :
    Phrase L (.operand .unary) (.negate e) input rest
  | unsigned {e : Expression} {input rest : List Char}
    (operand : Phrase L (.operand .union) e input rest) : Phrase L (.operand .unary) e input rest
  | single {operators : List (String × Operator)} {operand : Rank} {e : Expression}
    {input rest : List Char} (only : Phrase L (.operand operand) e input rest) :
    Phrase L (.operand (.chain operators operand)) e input rest
  | joined {operators : List (String × Operator)} {operand : Rank} {text : String}
    {operator : Operator} {left right : Expression} {input last behind rest : List Char}
    (first : Phrase L (.operand (.chain operators operand)) left input last)
    (mark : Longest operators text operator (skipBlank last) behind)
    (ends : IsKeyword text → L.ends behind)
    (second : Phrase L (.operand operand) right (skipBlank behind) rest) :
    Phrase L (.operand (.chain operators operand)) (.binary operator left right) input rest

/-- How much of the input a phrase takes at least. -/
def Part.least : Part → Nat
  | .arguments | .furtherArguments | .steps | .predicates => 0
  | _ => 1

theorem Phrase.takes {L : Lexis} (hgap : ∀ {input rest}, L.gap input rest → Takes 0 input rest)
    {p : Part} {value : p.Value} {input rest : List Char} (h : Phrase L p value input rest) :
    Takes p.least input rest := by
  induction h with
  | number numeral =>
    exact (takes_skipBlank _).trans (numeral.takes.trans (takes_skipBlank _))
  | literal quotation =>
    exact (takes_skipBlank _).trans (quotation.takes.trans (takes_skipBlank _))
  | call name _ opened _ closed ih =>
    exact ((takes_skipBlank _).trans (name.takes.trans ((takes_of_skipBlank opened).trans
      (ih.trans ((takes_of_skipBlank closed).trans (takes_skipBlank _)))))).mono (by decide)
  | parenthesized opened _ closed ih =>
    exact ((takes_of_skipBlank opened).trans ((takes_skipBlank _).trans
      (ih.trans ((takes_of_skipBlank closed).trans (takes_skipBlank _))))).mono (by decide)
  | noArguments | noFurther | noPredicates | noSteps => exact .refl _
  | arguments _ _ first further => exact (first.trans further).mono (Nat.zero_le _)
  | further comma _ _ next further =>
    exact ((takes_of_skipBlank comma).trans ((takes_skipBlank _).trans
      (next.trans further))).mono (Nat.zero_le _)
  | predicates opened _ closed _ nested further =>
    exact ((takes_of_skipBlank opened).trans ((takes_skipBlank _).trans (nested.trans
      ((takes_of_skipBlank closed).trans ((takes_skipBlank _).trans further))))).mono
        (Nat.zero_le _)
  | dots dots => exact dots.takes_one (by decide)
  | full head _ filtered => exact (head.takes hgap).trans filtered
  | steps before slash after _ _ step further =>
    exact ((hgap before).trans (slash.takes_slash.trans ((hgap after).trans
      (step.trans further)))).mono (Nat.zero_le _)
  | relative before _ _ step further => exact (hgap before).trans (step.trans further)
  | root before slash => exact (hgap before).trans slash.takes_slash
  | absolute before slash after _ _ step further =>
    exact ((hgap before).trans (slash.takes_slash.trans ((hgap after).trans
      (step.trans further)))).mono (by decide)
  | filtered _ _ primary further => exact primary.trans further
  | located _ location => exact location
  | negated sign _ operand =>
    exact ((takes_of_skipBlank sign).trans ((takes_skipBlank _).trans operand)).mono
      (Nat.le_add_right 1 _)
  | unsigned _ operand => exact operand
  | single _ only => exact only
  | joined _ mark _ _ first second =>
    exact (first.trans ((takes_skipBlank _).trans (mark.takes.trans
      ((takes_skipBlank _).trans second)))).mono (Nat.le_add_right 1 _)

/-- A text that is an expression as a whole. -/
def Sentence (L : Lexis) (e : Expression) (text : List Char) : Prop :=
  Phrase L (.operand .any) e text []

/-! Lexes -/

namespace Lexis

/-- Whether a character begins a step. -/
def BeginsStep (c : Char) : Prop := c = '.' ∨ c = '@' ∨ c = '*' ∨ isNameStart c

instance : DecidablePred BeginsStep := fun _ => inferInstanceAs (Decidable (_ ∨ _ ∨ _ ∨ _))

/-- Blanks may stand between any two tokens, each of which is the longest that can be read. A slash
before a token that begins a step is not a path by itself. -/
def loose : Lexis where
  gap input rest := ∃ blanks, input = blanks ++ rest ∧ ∀ c ∈ blanks, Text.isMarkupBlank c
  alone rest := ∀ c ∈ (skipBlank rest).head?, ¬BeginsStep c
  ends rest := ∀ c ∈ rest.head?, ¬isNameCharacter c

/-- What is read: blanks stand around operators, brackets and commas and nowhere inside paths, a
slash is a path by itself where no step can be read behind it, and an operator that is a word need
not end. -/
def read : Lexis where
  gap := (· = ·)
  alone rest := (∀ text s behind, ¬Longest dots text s rest behind) ∧
    ∀ axis test behind, ¬Head (· = ·) axis test rest behind
  ends _ := True

/-- The tokens of a path stand side by side, and each token is the longest that can be read. -/
def tight : Lexis where
  gap := (· = ·)
  alone := loose.alone
  ends := loose.ends

/-- What one grammar leaves open another leaves open too. -/
structure Within (L M : Lexis) : Prop where
  gap {input rest : List Char} : L.gap input rest → M.gap input rest
  alone {rest : List Char} : L.alone rest → M.alone rest
  ends {rest : List Char} : L.ends rest → M.ends rest

end Lexis

theorem Head.mono {gap gap' : List Char → List Char → Prop}
    (h : ∀ {input rest}, gap input rest → gap' input rest) {axis : Axis} {test : NodeTest}
    {input rest : List Char} (hh : Head gap axis test input rest) :
    Head gap' axis test input rest := by
  cases hh with
  | sign hafter htest => exact .sign (h hafter) htest
  | named hname hbefore hafter htest => exact .named hname (h hbefore) (h hafter) htest
  | plain hunnamed htest => exact .plain hunnamed htest

variable {L M : Lexis}

theorem Phrase.mono (h : L.Within M) {p : Part} {value : p.Value} {input rest : List Char}
    (hp : Phrase L p value input rest) : Phrase M p value input rest := by
  induction hp with
  | number numeral => exact .number numeral
  | literal quotation => exact .literal quotation
  | call name noKind opened _ closed ih => exact .call name noKind opened ih closed
  | parenthesized opened _ closed ih => exact .parenthesized opened ih closed
  | noArguments => exact .noArguments
  | arguments _ _ first further => exact .arguments first further
  | noFurther => exact .noFurther
  | further comma _ _ next further => exact .further comma next further
  | noPredicates => exact .noPredicates
  | predicates opened _ closed _ nested further => exact .predicates opened nested closed further
  | dots dots => exact .dots dots
  | full head _ filtered => exact .full (head.mono h.gap) filtered
  | noSteps => exact .noSteps
  | steps before slash after _ _ step further =>
    exact .steps (h.gap before) slash (h.gap after) step further
  | relative before _ _ step further => exact .relative (h.gap before) step further
  | root before slash alone => exact .root (h.gap before) slash (h.alone alone)
  | absolute before slash after _ _ step further =>
    exact .absolute (h.gap before) slash (h.gap after) step further
  | filtered _ _ primary further => exact .filtered primary further
  | located _ location => exact .located location
  | negated sign _ operand => exact .negated sign operand
  | unsigned _ operand => exact .unsigned operand
  | single _ only => exact .single only
  | joined _ mark ends _ first second => exact .joined first mark (h.ends ∘ ends) second

theorem within_loose_tight : Lexis.tight.Within .loose where
  gap h := ⟨[], h, by simp⟩
  alone h := h
  ends h := h

theorem within_read_tight : Lexis.tight.Within .read where
  gap h := h
  alone := by
    intro rest h
    have hblank {c : Char} (hc : Lexis.BeginsStep c) : ¬Text.isMarkupBlank c := by
      rcases hc with rfl | rfl | rfl | hc
      · decide
      · decide
      · decide
      · exact not_isMarkupBlank_of_isNameCharacter (isNameCharacter_of_isNameStart hc)
    have hno {c : Char} {more : List Char} (hc : Lexis.BeginsStep c) (he : rest = c :: more) :
        False := by
      rw [he] at h
      exact h c (by rw [skipBlank_cons (hblank hc)]; rfl) hc
    refine ⟨fun text s behind hd => ?_, fun axis test behind hh => ?_⟩
    · obtain ⟨more, he⟩ := hd.exists_cons_dot
      exact hno (.inl rfl) he
    · obtain ⟨c, more, he, hc⟩ := hh.exists_cons
      exact hno (.inr hc) he
  ends _ := trivial

end MarkupGraft.Query
