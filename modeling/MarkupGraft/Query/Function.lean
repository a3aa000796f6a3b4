import MarkupGraft.Text.Occurrence
import MarkupGraft.Query.Value
import MarkupGraft.Query.Error

/-! The functions that queries can call. -/

namespace MarkupGraft.Query

/-- What an expression is evaluated for: a node, and its place among the nodes it was found with. -/
structure Context where
  node : Nat
  /-- Counted from one. -/
  position : Nat := 1
  size : Nat := 1

inductive Function where
  | position
  | last
  | count
  | name
  | string
  | concat
  | startsWith
  | contains
  | substringBefore
  | substringAfter
  | substring
  | stringLength
  | normalizeSpace
  | translate
  | not
  | true
  | false
  | boolean
  | number
  | sum
  | floor
  | ceiling
  | round
  deriving DecidableEq, Repr

def functionNames : List (String × Function) :=
  [("position", .position), ("last", .last), ("count", .count), ("local-name", .name),
    ("name", .name), ("string", .string), ("concat", .concat), ("starts-with", .startsWith),
    ("contains", .contains), ("substring-before", .substringBefore),
    ("substring-after", .substringAfter), ("substring", .substring),
    ("string-length", .stringLength), ("normalize-space", .normalizeSpace),
    ("translate", .translate), ("not", .not), ("true", .true), ("false", .false),
    ("boolean", .boolean), ("number", .number), ("sum", .sum), ("floor", .floor),
    ("ceiling", .ceiling), ("round", .round)]

/-- How many arguments a function takes. There is no upper bound for concatenation. -/
def Function.arity : Function → Nat × Option Nat
  | .position | .last | .true | .false => (0, some 0)
  | .count | .not | .boolean | .sum | .floor | .ceiling | .round => (1, some 1)
  | .name | .string | .stringLength | .normalizeSpace | .number => (0, some 1)
  | .concat => (2, none)
  | .startsWith | .contains | .substringBefore | .substringAfter => (2, some 2)
  | .substring => (2, some 3)
  | .translate => (3, some 3)

/-! Functions of texts -/

def startsWith (text start : String) : Bool := start.toList.isPrefixOf text.toList

def contains (text part : String) : Bool := (Text.breakOn? part.toList text.toList).isSome

/-- What stands before the first occurrence of `part`; nothing without one. -/
def substringBefore (text part : String) : String :=
  match Text.breakOn? part.toList text.toList with
  | some (before, _) => String.ofList before
  | none => ""

/-- What stands after the first occurrence of `part`; nothing without one. -/
def substringAfter (text part : String) : String :=
  match Text.breakOn? part.toList text.toList with
  | some (_, after) => String.ofList after
  | none => ""

/-- Halves are rounded upward. -/
def roundNumber (x : Float) : Float := (x + 0.5).floor

/-- The characters from the rounded start on, as many as the rounded length says. The first
character is the character number one. -/
def substring (text : String) (start : Float) (length? : Option Float) : String :=
  let first := roundNumber start
  let stop :=
    match length? with
    | some length => first + roundNumber length
    | none => 1.0 / 0.0
  let kept := text.toList.zipIdx.filter fun (_, i) =>
    let position := Float.ofNat (i + 1)
    first ≤ position && position < stop
  String.ofList (kept.map (·.1))

/-- The words of a text with one space between them. -/
def normalizeSpace (text : String) : String := " ".intercalate (Text.words text)

/-- Replaces each character that `source` holds by the one in the same place of `target`, and
drops it where `target` is shorter. -/
def translate (text source target : String) : String :=
  String.ofList <| text.toList.filterMap fun c =>
    match source.toList.idxOf? c with
    | some i => target.toList[i]?
    | none => some c

/-! Calls -/

/-- The result of a function for as many arguments as it takes. -/
def applyFunction (v : View) (context : Context) (f : Function) (arguments : List Value) :
    Except CallError Value :=
  let text (i : Nat) : String := (arguments[i]?.map (·.toText v)).getD ""
  let number (i : Nat) : Float := (arguments[i]?.map (·.toNumber v)).getD notANumber
  let truth (i : Nat) : Bool := (arguments[i]?.map (·.toBool)).getD false
  let textOrContext : String :=
    match arguments with
    | [] => v.stringValue context.node
    | value :: _ => value.toText v
  match f with
  | .position => .ok (.number (Float.ofNat context.position))
  | .last => .ok (.number (Float.ofNat context.size))
  | .count =>
    match arguments with
    | .nodes found :: _ => .ok (.number (Float.ofNat found.length))
    | _ => .error .notNodes
  | .name =>
    let base (n : Nat) : Value := .string (((v.name? n).map (·.base)).getD "")
    match arguments with
    | [] => .ok (base context.node)
    | .nodes (n :: _) :: _ => .ok (base n)
    | .nodes [] :: _ => .ok (.string "")
    | _ => .error .notNodes
  | .string => .ok (.string textOrContext)
  | .concat => .ok (.string ("".intercalate (arguments.map (·.toText v))))
  | .startsWith => .ok (.boolean (startsWith (text 0) (text 1)))
  | .contains => .ok (.boolean (contains (text 0) (text 1)))
  | .substringBefore => .ok (.string (substringBefore (text 0) (text 1)))
  | .substringAfter => .ok (.string (substringAfter (text 0) (text 1)))
  | .substring =>
    .ok (.string (substring (text 0) (number 1) (arguments[2]?.map (·.toNumber v))))
  | .stringLength => .ok (.number (Float.ofNat textOrContext.length))
  | .normalizeSpace => .ok (.string (normalizeSpace textOrContext))
  | .translate => .ok (.string (translate (text 0) (text 1) (text 2)))
  | .not => .ok (.boolean !truth 0)
  | .true => .ok (.boolean true)
  | .false => .ok (.boolean false)
  | .boolean => .ok (.boolean (truth 0))
  | .number =>
    match arguments with
    | [] => .ok (.number (numberOfText (v.stringValue context.node)))
    | value :: _ => .ok (.number (value.toNumber v))
  | .sum =>
    match arguments with
    | .nodes found :: _ =>
      .ok (.number (found.foldl (fun total n => total + numberOfText (v.stringValue n)) (-0.0)))
    | _ => .error .notNodes
  | .floor => .ok (.number (number 0).floor)
  | .ceiling => .ok (.number (number 0).ceil)
  | .round => .ok (.number (roundNumber (number 0)))

/-- Calls a function by its name. -/
def callFunction (v : View) (context : Context) (name : String) (arguments : List Value) :
    Except QueryError Value :=
  let result : Except CallError Value :=
    match functionNames.lookup name with
    | none => .error .unknown
    | some f =>
      let given := arguments.length
      match f.arity with
      | (least, none) =>
        if given < least then .error (.tooFew least) else applyFunction v context f arguments
      | (least, some most) =>
        if given < least ∨ most < given then .error (.arity least most given)
        else applyFunction v context f arguments
  result.mapError (.call name)

end MarkupGraft.Query
