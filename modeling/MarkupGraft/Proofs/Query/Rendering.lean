import Mathlib.Data.Bool.AllAny
import MarkupGraft.Proofs.Query.Lexeme

/-!
The written form of queries. Every step is written in full, with its axis, its test and its
predicates, and an operand stands in parentheses only where it binds less tightly than its place
asks. Numbers are written as they are given, by digits that denote them.
-/

namespace MarkupGraft.Query

open Reader

/-! Precedence -/

/-- How tightly an operator binds its operands. -/
def Operator.precedence : Operator → Nat
  | .or => 1
  | .and => 2
  | .equal | .notEqual => 3
  | .less | .lessOrEqual | .greater | .greaterOrEqual => 4
  | .plus | .minus => 5
  | .times | .divide | .modulo => 6
  | .union => 8

/-- How tightly the parts of an expression are bound. Minus signs stand between multiplication and
union; nothing is tighter than a primary expression. -/
def Expression.precedence : Expression → Nat
  | .binary operator _ _ => operator.precedence
  | .negate _ => 7
  | .path _ _ => 9
  | .literal _ | .number _ | .call _ _ => 10

/-! Marks and names -/

def Operator.spelling : Operator → String
  | .or => "or"
  | .and => "and"
  | .equal => "="
  | .notEqual => "!="
  | .less => "<"
  | .lessOrEqual => "<="
  | .greater => ">"
  | .greaterOrEqual => ">="
  | .plus => "+"
  | .minus => "-"
  | .times => "*"
  | .divide => "div"
  | .modulo => "mod"
  | .union => "|"

def Axis.spelling : Axis → String
  | .child => "child"
  | .descendant => "descendant"
  | .descendantOrSelf => "descendant-or-self"
  | .attribute => "attribute"
  | .parent => "parent"
  | .ancestor => "ancestor"
  | .ancestorOrSelf => "ancestor-or-self"
  | .self => "self"
  | .followingSibling => "following-sibling"
  | .precedingSibling => "preceding-sibling"
  | .following => "following"
  | .preceding => "preceding"

def NodeTest.spelling : NodeTest → String
  | .name base => base
  | .any => "*"
  | .text => "text()"
  | .node => "node()"
  | .comment => "comment()"
  | .instruction => "processing-instruction()"

/-- Single quotes, unless the text holds one. -/
def quoteFor (value : List Char) : Char := if '\'' ∈ value then '"' else '\''

/-! Trees -/

/-- The text of an operand whose place asks for a precedence, by its text without parentheses. -/
def operandText (least : Nat) (e : Expression) (text : List Char) : List Char :=
  if least ≤ e.precedence then text else '(' :: (text ++ [')'])

section
variable (numeral : Float → List Char)

mutual

/-- The text of an expression whose numbers are written by `numeral`. -/
def Expression.text : Expression → List Char
  | .literal value => quoteFor value.toList :: (value.toList ++ [quoteFor value.toList])
  | .number x => numeral x
  | .path .context [] => []
  | .path .context (s :: more) => s.text ++ stepsText more
  | .path .root [] => ['/']
  | .path .root steps => stepsText steps
  | .path (.nodes e) steps => operandText 10 e e.text ++ stepsText steps
  | .call function arguments => function.toList ++ '(' :: (argumentsText arguments ++ [')'])
  | .binary operator left right =>
    operandText operator.precedence left left.text ++ ' ' :: (operator.spelling.toList ++
      ' ' :: operandText (operator.precedence + 1) right right.text)
  | .negate e => '-' :: operandText 7 e e.text

def Step.text : Step → List Char
  | .mk axis test predicates =>
    axis.spelling.toList ++ ':' :: ':' :: (test.spelling.toList ++ predicatesText predicates)

def argumentsText : List Expression → List Char
  | [] => []
  | e :: more => e.text ++ furtherText more

def furtherText : List Expression → List Char
  | [] => []
  | e :: more => ',' :: ' ' :: (e.text ++ furtherText more)

def predicatesText : List Expression → List Char
  | [] => []
  | e :: more => '[' :: (e.text ++ ']' :: predicatesText more)

/-- Steps with a slash in front of each. -/
def stepsText : List Step → List Char
  | [] => []
  | s :: more => '/' :: (s.text ++ stepsText more)

end

end

/-! What can be written -/

/-- A text that is a name without a prefix. -/
structure IsWord (text : List Char) : Prop where
  start : ∃ c ∈ text.head?, isNameStart c
  all : ∀ c ∈ text, isNameCharacter c

/-- A text that is a name, with a prefix or without one. -/
inductive IsName : List Char → Prop
  | plain {w : List Char} (word : IsWord w) : IsName w
  | prefixed {p w : List Char} (first : IsWord p) (second : IsWord w) : IsName (p ++ ':' :: w)

/-- Digits, or digits around a point with at least one of them, and the number that they denote. -/
inductive Denotes : List Char → Float → Prop
  | whole {w : List Char} (digits : ∀ c ∈ w, c.isDigit) (filled : w ≠ []) :
    Denotes w (Decimal.ofDigits w [])
  | pointed {w f : List Char} (digits : ∀ c ∈ w, c.isDigit) (fraction : ∀ c ∈ f, c.isDigit)
    (filled : ¬(w = [] ∧ f = [])) : Denotes (w ++ '.' :: f) (Decimal.ofDigits w f)

def NodeTest.Writable : NodeTest → Prop
  | .name base => IsWord base.toList
  | _ => True

def Step.test : Step → NodeTest
  | .mk _ test _ => test

def Step.predicates : Step → List Expression
  | .mk _ _ predicates => predicates

/-- Expressions with a text of their own, where `numeral` writes the numbers. -/
inductive Expression.Writable (numeral : Float → List Char) : Expression → Prop
  | literal {value : String} (quotable : ¬('\'' ∈ value.toList ∧ '"' ∈ value.toList)) :
    Writable numeral (.literal value)
  | number {x : Float} (denotes : Denotes (numeral x) x) : Writable numeral (.number x)
  | relative {steps : List Step} (filled : steps ≠ []) (tests : ∀ s ∈ steps, s.test.Writable)
    (predicates : ∀ s ∈ steps, ∀ e ∈ s.predicates, Writable numeral e) :
    Writable numeral (.path .context steps)
  | absolute {steps : List Step} (tests : ∀ s ∈ steps, s.test.Writable)
    (predicates : ∀ s ∈ steps, ∀ e ∈ s.predicates, Writable numeral e) :
    Writable numeral (.path .root steps)
  | filtered {e : Expression} {steps : List Step} (head : Writable numeral e)
    (noPath : ∀ origin steps, e ≠ .path origin steps) (filled : steps ≠ [])
    (tests : ∀ s ∈ steps, s.test.Writable)
    (predicates : ∀ s ∈ steps, ∀ e ∈ s.predicates, Writable numeral e) :
    Writable numeral (.path (.nodes e) steps)
  | call {function : String} {arguments : List Expression} (name : IsName function.toList)
    (noKind : kindTests.lookup function = none)
    (each : ∀ e ∈ arguments, Writable numeral e) :
    Writable numeral (.call function arguments)
  | binary {operator : Operator} {left right : Expression} (first : Writable numeral left)
    (second : Writable numeral right) : Writable numeral (.binary operator left right)
  | negate {e : Expression} (operand : Writable numeral e) : Writable numeral (.negate e)

/-! Ends of texts -/

/-- The code points of white space. -/
theorem mem_of_isBlank {c : Char} (h : Text.isBlank c) :
    c.toNat ∈ [9, 10, 11, 12, 13, 32, 133, 160, 5760, 8192, 8193, 8194, 8195, 8196, 8197, 8198, 8199,
      8200, 8201, 8202, 8232, 8233, 8239, 8287, 12288] := by
  simp only [Text.isBlank, Bool.or_eq_true, Bool.and_eq_true, decide_eq_true_eq] at h
  simp only [List.mem_cons, List.not_mem_nil, or_false]
  omega

theorem not_isBlank_of_isNameCharacter {c : Char} (h : isNameCharacter c) : ¬Text.isBlank c := by
  have hno : ∀ n ∈ [9, 10, 11, 12, 13, 32, 133, 160, 5760, 8192, 8193, 8194, 8195, 8196, 8197, 8198,
      8199, 8200, 8201, 8202, 8232, 8233, 8239, 8287, 12288], ¬isNameCharacter (Char.ofNat n) := by
    decide +kernel
  intro hb
  exact hno _ (mem_of_isBlank hb) (by rwa [Char.ofNat_toNat])

/-- A text that trimming leaves as it is. -/
structure Trimmed (text : List Char) : Prop where
  first : ∃ c ∈ text.head?, ¬Text.isBlank c
  last : ∃ c ∈ text.getLast?, ¬Text.isBlank c

namespace Trimmed
variable {text first last inner : List Char}

theorem append (hf : ∃ c ∈ first.head?, ¬Text.isBlank c)
    (hl : ∃ c ∈ last.getLast?, ¬Text.isBlank c) : Trimmed (first ++ last) := by
  obtain ⟨c, hc, hcb⟩ := hf
  obtain ⟨d, hd, hdb⟩ := hl
  exact ⟨⟨c, by rw [List.head?_append, hc]; rfl, hcb⟩,
    ⟨d, by rw [List.getLast?_append, hd]; rfl, hdb⟩⟩

theorem between (hf : Trimmed first) (hl : Trimmed last) {c d : Char} :
    Trimmed (first ++ c :: (inner ++ d :: last)) := by
  obtain ⟨e, he, hb⟩ := hl.last
  exact append hf.first ⟨e, by simp [List.getLast?_cons, Option.mem_def.mp he], hb⟩

theorem cons {c : Char} (hc : ¬Text.isBlank c) (h : Trimmed text) : Trimmed (c :: text) :=
  show Trimmed ([c] ++ text) from append ⟨c, rfl, hc⟩ h.last

theorem around {c d : Char} (hc : ¬Text.isBlank c) (hd : ¬Text.isBlank d) :
    Trimmed (c :: (inner ++ [d])) :=
  show Trimmed (c :: inner ++ [d]) from append ⟨c, rfl, hc⟩ ⟨d, rfl, hd⟩

theorem of_all (hne : text ≠ []) (h : ∀ c ∈ text, ¬Text.isBlank c) : Trimmed text := by
  refine ⟨⟨text.head hne, List.head?_eq_some_head hne, h _ (List.head_mem hne)⟩,
    ⟨text.getLast hne, List.getLast?_eq_some_getLast hne, h _ (List.getLast_mem hne)⟩⟩

theorem skipBlank_append (h : Trimmed text) (rest : List Char) :
    skipBlank (text ++ rest) = text ++ rest := by
  obtain ⟨c, hc, hb⟩ := h.first
  obtain ⟨more, rfl⟩ := List.head?_eq_some_iff.mp hc
  exact skipBlank_cons (mt Text.isBlank_of_isMarkupBlank hb)

theorem dropWhile_eq_self {p : Char → Bool} (h : ∃ c ∈ text.head?, ¬p c) :
    text.dropWhile p = text := by
  obtain ⟨c, hc, hp⟩ := h
  obtain ⟨more, rfl⟩ := List.head?_eq_some_iff.mp hc
  exact List.dropWhile_cons_of_neg hp

theorem trim_eq (h : Trimmed text) : Text.trim (String.ofList text) = String.ofList text := by
  have hlast : ∃ c ∈ text.reverse.head?, ¬Text.isBlank c := by
    rw [List.head?_reverse]
    exact h.last
  rw [Text.trim, Text.trimWhile, Text.dropEndWhile, String.toList_ofList, dropWhile_eq_self h.first,
    dropWhile_eq_self hlast, List.reverse_reverse]

end Trimmed

theorem IsWord.trimmed {text : List Char} (h : IsWord text) : Trimmed text := by
  refine .of_all ?_ fun c hc => not_isBlank_of_isNameCharacter (h.all c hc)
  rintro rfl
  obtain ⟨c, hc, -⟩ := h.start
  cases hc

theorem IsName.trimmed {text : List Char} (h : IsName text) : Trimmed text := by
  cases h with
  | plain word => exact word.trimmed
  | prefixed first second =>
    exact .append first.trimmed.first (Trimmed.cons (by decide) second.trimmed).last

theorem Denotes.trimmed {text : List Char} {x : Float} (h : Denotes text x) : Trimmed text := by
  have hdigit {c : Char} (hc : c.isDigit) : ¬Text.isBlank c :=
    not_isBlank_of_isNameCharacter (isNameCharacter_of_isDigit hc)
  cases h with
  | whole digits filled => exact .of_all filled fun c hc => hdigit (digits c hc)
  | pointed digits fraction =>
    refine .of_all (by simp) fun c hc => ?_
    rcases List.mem_append.mp hc with hc | hc
    · exact hdigit (digits c hc)
    · rcases List.mem_cons.mp hc with rfl | hc
      · decide
      · exact hdigit (fraction c hc)

theorem trimmed_spelling (axis : Axis) : Trimmed axis.spelling.toList := by
  refine .of_all ?_ (List.all_iff_forall_prop.mp ?_) <;> cases axis <;> decide

theorem NodeTest.Writable.trimmed {test : NodeTest} (h : test.Writable) :
    Trimmed test.spelling.toList := by
  cases test with
  | name base => exact IsWord.trimmed h
  | _ => exact .of_all (by decide) (List.all_iff_forall_prop.mp (by decide))

section
variable {numeral : Float → List Char} {text : List Char}

theorem Trimmed.predicates (h : Trimmed text) (predicates : List Expression) :
    Trimmed (text ++ predicatesText numeral predicates) := by
  induction predicates generalizing text with
  | nil => rwa [predicatesText, List.append_nil]
  | cons e more ih =>
    have hbracket : Trimmed ('[' :: (e.text numeral ++ [']'])) := .around (by decide) (by decide)
    simpa [predicatesText] using ih (.append h.first hbracket.last)

theorem Step.trimmed {s : Step} (h : s.test.Writable) : Trimmed (s.text numeral) := by
  obtain ⟨axis, test, predicates⟩ := s
  have htest : Trimmed test.spelling.toList := NodeTest.Writable.trimmed h
  have hcolons : Trimmed (':' :: ':' :: test.spelling.toList) :=
    .cons (by decide) (.cons (by decide) htest)
  simpa [Step.text] using
    (Trimmed.append (trimmed_spelling axis).first hcolons.last).predicates predicates

theorem Trimmed.steps (h : Trimmed text) {steps : List Step} (hs : ∀ s ∈ steps, s.test.Writable) :
    Trimmed (text ++ stepsText numeral steps) := by
  induction steps generalizing text with
  | nil => rwa [stepsText, List.append_nil]
  | cons s more ih =>
    have hs := List.forall_mem_cons.mp hs
    have hstep : Trimmed ('/' :: s.text numeral) := .cons (by decide) (Step.trimmed hs.1)
    simpa [stepsText] using ih (.append h.first hstep.last) hs.2

theorem Trimmed.operandText {e : Expression} (h : Trimmed text) (least : Nat) :
    Trimmed (operandText least e text) := by
  rw [Query.operandText]
  split
  · exact h
  · exact .around (by decide) (by decide)

theorem Expression.Writable.trimmed {e : Expression} (h : e.Writable numeral) :
    Trimmed (e.text numeral) := by
  induction h with
  | @literal value =>
    have hquote : ¬Text.isBlank (quoteFor value.toList) := by
      rw [quoteFor]
      split <;> decide
    exact .around hquote hquote
  | number denotes => exact denotes.trimmed
  | @relative steps filled tests =>
    obtain ⟨s, more, rfl⟩ := List.exists_cons_of_ne_nil filled
    have tests := List.forall_mem_cons.mp tests
    exact (Step.trimmed tests.1).steps tests.2
  | @absolute steps tests =>
    cases steps with
    | nil => exact show Trimmed ['/'] from .of_all (by decide) (List.forall_mem_singleton.mpr (by decide))
    | cons s more =>
      have tests := List.forall_mem_cons.mp tests
      exact (Trimmed.cons (by decide) (Step.trimmed tests.1)).steps tests.2
  | filtered _ _ _ tests _ ih => exact (ih.operandText 10).steps tests
  | @call function arguments name =>
    have hbracket : Trimmed ('(' :: (argumentsText numeral arguments ++ [')'])) :=
      .around (by decide) (by decide)
    exact .append name.trimmed.first hbracket.last
  | binary _ _ ihLeft ihRight => exact .between (ihLeft.operandText _) (ihRight.operandText _)
  | negate _ ih => exact .cons (by decide) (ih.operandText 7)

end

end MarkupGraft.Query
