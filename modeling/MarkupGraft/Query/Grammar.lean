import MarkupGraft.Text.Blank
import MarkupGraft.Text.Letter
import MarkupGraft.Decimal.Numeral
import MarkupGraft.Query.Expression
import MarkupGraft.Query.Error

/-!
The grammar of queries. Each reader takes what it can from the front of the input and returns the
rest; an alternative is tried where the one before it fails. Location paths do not begin with
blanks, while all other operands and all operators may stand between blanks.
-/

namespace MarkupGraft.Query

/-- What is read from the front of the input, and the rest. -/
abbrev Reader (α : Type) := List Char → Option (α × List Char)

namespace Reader
variable {α : Type}

def skipBlank (input : List Char) : List Char := input.dropWhile Text.isMarkupBlank

def mark (text : String) : Reader Unit := fun input =>
  (text.toList.isPrefixOf? input).map fun rest => ((), rest)

/-- Blanks before and after are part of what is read. -/
def spaced (r : Reader α) : Reader α := fun input => do
  let (a, rest) ← r (skipBlank input)
  pure (a, skipBlank rest)

def orElse (r s : Reader α) : Reader α := fun input => (r input).or (s input)

/-- The longest text whose characters satisfy `p`, if it is not empty. -/
def some1 (p : Char → Bool) : Reader (List Char) := fun input =>
  match input.takeWhile p with
  | [] => none
  | taken => some (taken, input.drop taken.length)

/-- The first of the given marks that begins the input, with its meaning. -/
def oneOf (marks : List (String × α)) : Reader α := fun input =>
  marks.findSome? fun (text, a) => (mark text input).map fun (_, rest) => (a, rest)

/-- As many items as can be read. An item that takes nothing from the input is not counted. -/
def many (r : Reader α) (input : List Char) : List α × List Char :=
  match r input with
  | none => ([], input)
  | some (a, rest) =>
    if rest.length < input.length then
      let (items, rest) := many r rest
      (a :: items, rest)
    else ([], input)
termination_by input.length

/-- Items with a separator between them, possibly none. -/
def separated (separator : Reader Unit) (r : Reader α) (input : List Char) : List α × List Char :=
  match r input with
  | none => ([], input)
  | some (a, rest) =>
    let (items, rest) := many (fun input => do
      let (_, rest) ← separator input
      r rest) rest
    (a :: items, rest)

end Reader

open Reader

/-! Words -/

def isNameStart (c : Char) : Bool := Text.isAlphabetic c || c = '_'

def isNameCharacter (c : Char) : Bool :=
  Text.isAlphanumeric c || c = '_' || c = '-' || c = '.'

/-- A name without a colon. -/
def word : Reader (List Char) := fun input => do
  let (first, rest) ← some1 isNameStart input
  let others := rest.takeWhile isNameCharacter
  pure (first ++ others, rest.drop others.length)

/-- A name with its prefix, if it has one: the whole name and its last part. -/
def qualifiedName : Reader (List Char × List Char) := fun input => do
  let (first, rest) ← word input
  let second? := do
    let (_, rest) ← mark ":" rest
    word rest
  match second? with
  | some (second, rest) => pure ((first ++ ':' :: second, second), rest)
  | none => pure ((first, first), rest)

/-- Digits with an optional point after or between them, or a point and digits. Digits after a point
that follows other digits do not count when the query ends with them. -/
def number : Reader Expression := fun input =>
  let whole := input.takeWhile Char.isDigit
  match input.drop whole.length with
  | '.' :: rest =>
    let fraction := rest.takeWhile Char.isDigit
    let rest := rest.drop fraction.length
    if whole.isEmpty && fraction.isEmpty then none
    else
      let counted := if rest.isEmpty && !whole.isEmpty then [] else fraction
      some (.number (Decimal.ofDigits whole counted), rest)
  | rest => if whole.isEmpty then none else some (.number (Decimal.ofDigits whole []), rest)

def quoted (quote : Char) : Reader Expression := fun input =>
  match input with
  | c :: rest =>
    let inner := rest.takeWhile (· ≠ quote)
    if c = quote ∧ inner.length < rest.length then
      some (.literal (String.ofList inner), rest.drop (inner.length + 1))
    else none
  | [] => none

def literal : Reader Expression := orElse (quoted '\'') (quoted '"')

/-! Steps -/

def kindTests : List (String × NodeTest) :=
  [("text", .text), ("node", .node), ("comment", .comment),
    ("processing-instruction", .instruction)]

def kindTest : Reader NodeTest := fun input => do
  let (test, rest) ← oneOf kindTests input
  let (_, rest) ← spaced (mark "(") rest
  let (_, rest) ← mark ")" rest
  pure (test, rest)

def nameTest : Reader NodeTest := fun input => do
  let ((_, base), rest) ← qualifiedName input
  pure (.name (String.ofList base), rest)

def nodeTest : Reader NodeTest :=
  orElse (oneOf [("*", .any)]) (orElse kindTest nameTest)

/-- Axis names, a longer one before its beginnings. -/
def axisNames : List (String × Axis) :=
  [("ancestor-or-self", .ancestorOrSelf), ("ancestor", .ancestor), ("attribute", .attribute),
    ("child", .child), ("descendant-or-self", .descendantOrSelf), ("descendant", .descendant),
    ("following-sibling", .followingSibling), ("following", .following), ("parent", .parent),
    ("preceding-sibling", .precedingSibling), ("preceding", .preceding), ("self", .self)]

def axis : Reader Axis := fun input => do
  let (axis, rest) ← oneOf axisNames input
  let (_, rest) ← mark "::" rest
  pure (axis, rest)

def attributeTest : Reader (Axis × NodeTest) := fun input => do
  let (_, rest) ← mark "@" input
  let (test, rest) ← nodeTest rest
  pure ((.attribute, test), rest)

def axisTest : Reader (Axis × NodeTest) := fun input => do
  let (axis, rest) := (axis input).getD (.child, input)
  let (test, rest) ← nodeTest rest
  pure ((axis, test), rest)

section Nested
variable (expression : Reader Expression)

def predicate : Reader Expression := fun input => do
  let (_, rest) ← spaced (mark "[") input
  let (e, rest) ← expression rest
  let (_, rest) ← spaced (mark "]") rest
  pure (e, rest)

def fullStep : Reader Step := fun input => do
  let ((axis, test), rest) ← orElse attributeTest axisTest input
  let (predicates, rest) := many (predicate expression) rest
  pure (.mk axis test predicates, rest)

/-- Dots abbreviate whole steps and take no predicates. -/
def step : Reader Step :=
  orElse (oneOf [("..", .anyNode .parent), (".", .anyNode .self)]) (fullStep expression)

/-- A step after a slash; two slashes pass through all descendants. -/
def nextStep : Reader (List Step) := fun input => do
  let (between, rest) ← oneOf [("//", [Step.anyNode .descendantOrSelf]), ("/", [])] input
  let (s, rest) ← step expression rest
  pure (between ++ [s], rest)

def nextSteps (input : List Char) : List Step × List Char :=
  let (steps, rest) := many (nextStep expression) input
  (steps.flatten, rest)

/-- The beginning of a location path, through its first step. -/
def pathStart : Reader (Origin × List Step) := fun input =>
  match mark "//" input, mark "/" input with
  | some (_, rest), _ => do
    let (s, rest) ← step expression rest
    pure ((.root, [.anyNode .descendantOrSelf, s]), rest)
  | none, some (_, rest) =>
    match step expression rest with
    | some (s, rest) => some ((.root, [s]), rest)
    | none => some ((.root, []), rest)
  | none, none => do
    let (s, rest) ← step expression input
    pure ((.context, [s]), rest)

def locationPath : Reader Expression := fun input => do
  let ((origin, steps), rest) ← pathStart expression input
  let (more, rest) := nextSteps expression rest
  pure (.path origin (steps ++ more), rest)

/-! Operands -/

/-- A function call. Kind tests look like calls and are none. -/
def call : Reader Expression := fun input => do
  let ((name, _), rest) ← qualifiedName input
  let (_, rest) ← mark "(" (skipBlank rest)
  let name := String.ofList name
  if (kindTests.lookup name).isSome then none
  else do
    let (arguments, rest) := separated (spaced (mark ",")) expression rest
    let (_, rest) ← spaced (mark ")") rest
    pure (.call name arguments, rest)

def parenthesized : Reader Expression := fun input => do
  let (_, rest) ← spaced (mark "(") input
  let (e, rest) ← expression rest
  let (_, rest) ← spaced (mark ")") rest
  pure (e, rest)

def primary : Reader Expression :=
  spaced (orElse number (orElse literal (orElse (call expression) (parenthesized expression))))

/-- Appends steps to a path, or begins a path at the nodes of another expression. -/
def extendPath (head : Expression) (more : List Step) : Expression :=
  match more, head with
  | [], _ => head
  | _, .path origin steps => .path origin (steps ++ more)
  | _, _ => .path (.nodes head) more

/-- A primary expression or a location path, and the steps that follow. A name before parentheses
calls a function, so the primary expression comes first. -/
def pathExpression : Reader Expression := fun input => do
  let (head, rest) ← orElse (primary expression) (locationPath expression) input
  let (more, rest) := nextSteps expression rest
  pure (extendPath head more, rest)

/-! Operators, from the tightest to the loosest -/

/-- Operands joined by operators of one level, grouped from the left. -/
def chain (operators : List (String × Operator)) (operand : Reader Expression) :
    Reader Expression := fun input => do
  let (first, rest) ← operand input
  let (others, rest) := many (fun input => do
    let (operator, rest) ← spaced (oneOf operators) input
    let (right, rest) ← operand rest
    pure ((operator, right), rest)) rest
  pure (others.foldl (fun left (operator, right) => .binary operator left right) first, rest)

def unionLevel : Reader Expression := chain [("|", .union)] (pathExpression expression)

/-- Minus signs in front of an operand, each negating what follows. -/
def unaryLevel : Reader Expression := fun input => do
  let (signs, rest) := many (spaced (mark "-")) input
  let (operand, rest) ← unionLevel expression rest
  pure (signs.foldl (fun e _ => .negate e) operand, rest)

/-- All operators that take two operands, from the tightest level to the loosest. -/
def binaryLevels : List (List (String × Operator)) :=
  [[("*", .times), ("div", .divide), ("mod", .modulo)],
    [("+", .plus), ("-", .minus)],
    [("<=", .lessOrEqual), (">=", .greaterOrEqual), ("<", .less), (">", .greater)],
    [("!=", .notEqual), ("=", .equal)],
    [("and", .and)],
    [("or", .or)]]

def anyLevel : Reader Expression :=
  binaryLevels.foldl (fun operand operators => chain operators operand) (unaryLevel expression)

end Nested

/-- An expression with fewer than `depth` expressions nested in brackets around each other. -/
def expression : (depth : Nat) → Reader Expression
  | 0 => fun _ => none
  | depth + 1 => anyLevel (expression depth)

/-- Reads a query. Each nested expression follows a bracket of its own, so the length of the text
bounds their depth. -/
def parse (query : String) : Except QueryError Expression :=
  let text := (Text.trim query).toList
  if text.isEmpty then .error (.reading query .empty)
  else
    match expression (text.length + 1) text with
    | some (e, []) => .ok e
    | some (_, rest) => .error (.reading query (.unexpected (String.ofList rest)))
    | none => .error (.reading query .unreadable)

end MarkupGraft.Query
