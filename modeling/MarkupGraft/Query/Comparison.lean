import MarkupGraft.Decimal.Dyadic
import MarkupGraft.Query.Value
import MarkupGraft.Query.Error

/-!
Operators with two operands. A comparison with nodes holds when it holds for one of them, and a
single node takes the type of what it is compared with.
-/

namespace MarkupGraft.Query

/-- A value that is no collection of nodes. -/
inductive Atom where
  | string (text : String)
  | number (value : Float)
  | boolean (value : Bool)

namespace Atom

def toNumber : Atom → Float
  | .string text => numberOfText text
  | .number x => x
  | .boolean b => numberOfTruth b

def toBool : Atom → Bool
  | .string text => text ≠ ""
  | .number x => truthOfNumber x
  | .boolean b => b

/-- A truth value makes the other operand one; failing that, a number does. -/
def equals : Atom → Atom → Bool
  | .boolean a, b => a == b.toBool
  | a, .boolean b => a.toBool == b
  | .number a, b => a == b.toNumber
  | a, .number b => a.toNumber == b
  | .string a, .string b => a == b

/-- Whether a comparison holds. Order is an order of numbers. -/
def compare (operator : Operator) (a b : Atom) : Bool :=
  match operator with
  | .equal => a.equals b
  | .notEqual => !a.equals b
  | .less => a.toNumber < b.toNumber
  | .lessOrEqual => a.toNumber ≤ b.toNumber
  | .greater => b.toNumber < a.toNumber
  | .greaterOrEqual => b.toNumber ≤ a.toNumber
  | _ => false

/-- What a node with the given text is when it is compared with an atom. -/
def ofNode (text : String) : Atom → Atom
  | .number _ => .number (numberOfText text)
  | _ => .string text

end Atom

def Value.atom (v : View) : Value → Atom
  | .string text => .string text
  | .number x => .number x
  | .boolean b => .boolean b
  | value => .string (value.toText v)

def compareValues (v : View) (operator : Operator) (left right : Value) : Bool :=
  match left, right with
  | .nodes l, .nodes r =>
    let texts := r.map v.stringValue
    (l.map v.stringValue).any fun a => texts.any fun b =>
      Atom.compare operator (.string a) (.string b)
  | .nodes l, .boolean b => Atom.compare operator (.boolean !l.isEmpty) (.boolean b)
  | .boolean b, .nodes r => Atom.compare operator (.boolean b) (.boolean !r.isEmpty)
  | .nodes l, right =>
    let b := right.atom v
    l.any fun n => Atom.compare operator (Atom.ofNode (v.stringValue n) b) b
  | left, .nodes r =>
    let a := left.atom v
    r.any fun n => Atom.compare operator a (Atom.ofNode (v.stringValue n) a)
  | left, right => Atom.compare operator (left.atom v) (right.atom v)

/-- Applies an operator to the values of both operands. -/
def applyOperator (v : View) (operator : Operator) (left right : Value) :
    Except QueryError Value :=
  let arithmetic (f : Float → Float → Float) : Except QueryError Value :=
    .ok (.number (f (left.toNumber v) (right.toNumber v)))
  match operator with
  | .or => .ok (.boolean (left.toBool || right.toBool))
  | .and => .ok (.boolean (left.toBool && right.toBool))
  | .plus => arithmetic (· + ·)
  | .minus => arithmetic (· - ·)
  | .times => arithmetic (· * ·)
  | .divide => arithmetic (· / ·)
  | .modulo => arithmetic Decimal.remainder
  | .union =>
    match left, right with
    | .nodes l, .nodes r => .ok (.nodes (inDocumentOrder (l ++ r)))
    | _, _ => .error (.type .unionOfValues)
  | _ => .ok (.boolean (compareValues v operator left right))

end MarkupGraft.Query
