import MarkupGraft.Text.Blank
import MarkupGraft.Decimal.Numeral
import MarkupGraft.Query.View

/-! Results of queries and their conversions into one another. -/

namespace MarkupGraft.Query

inductive Value where
  /-- Nodes in document order, each once. -/
  | nodes (found : List Nat)
  | string (text : String)
  | number (value : Float)
  | boolean (value : Bool)

def notANumber : Float := 0.0 / 0.0

/-- White space around a numeral is ignored; a text that is no numeral is no number. -/
def numberOfText (text : String) : Float :=
  (Decimal.number? (Text.trim text).toList).getD notANumber

def truthOfNumber (x : Float) : Bool := x != 0.0 && !x.isNaN

def numberOfTruth (b : Bool) : Float := if b then 1.0 else 0.0

namespace Value

/-- The text of a value; nodes give the text of the first of them. -/
def toText (v : View) : Value → String
  | .nodes [] => ""
  | .nodes (n :: _) => v.stringValue n
  | .string text => text
  | .number x => Decimal.numberText x
  | .boolean b => if b then "true" else "false"

def toNumber (v : View) : Value → Float
  | .number x => x
  | .boolean b => numberOfTruth b
  | value => numberOfText (value.toText v)

def toBool : Value → Bool
  | .nodes found => !found.isEmpty
  | .string text => text ≠ ""
  | .number x => truthOfNumber x
  | .boolean b => b

end Value

/-- The nodes in increasing order, each once. -/
def inDocumentOrder (found : List Nat) : List Nat :=
  (found.mergeSort (· ≤ ·)).eraseReps

end MarkupGraft.Query
