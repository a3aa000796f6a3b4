import MarkupGraft.Decimal.Shortest

/-!
The written form of numbers. A number is written without an exponent and a whole number without a
point; a text is a numeral when it consists of digits with at most one point and at most one minus
sign in front.
-/

namespace MarkupGraft.Decimal

/-- Positional digits, with a point only where a fraction follows. -/
def Scaled.text (s : Scaled) : String :=
  let digits := Nat.toDigits 10 s.digits
  if 0 ≤ s.exponent then
    String.ofList (digits ++ List.replicate s.exponent.toNat '0')
  else
    let places := s.exponent.natAbs
    let padded := List.replicate (places + 1 - digits.length) '0' ++ digits
    let whole := padded.take (padded.length - places)
    let fraction := ((padded.drop (padded.length - places)).reverse.dropWhile (· = '0')).reverse
    String.ofList (if fraction.isEmpty then whole else whole ++ '.' :: fraction)

/-- The text of a number: the shortest decimal that reads back, never with an exponent. Negative
zero has no sign. -/
def numberText (x : Float) : String :=
  match Dyadic.ofFloat? x with
  | none => if x.isNaN then "NaN" else if x > 0.0 then "Infinity" else "-Infinity"
  | some d =>
    if d.mantissa = 0 then "0"
    else
      let magnitude := (shortest d).text
      if d.negative then "-" ++ magnitude else magnitude

/-- The number written by a run of digits followed by a fraction. -/
def ofDigits (whole fraction : List Char) : Float :=
  let digits := whole ++ fraction
  let mantissa := digits.foldl (fun n c => 10 * n + (c.toNat - '0'.toNat)) 0
  Float.ofScientific mantissa true fraction.length

/-- Digits, then optionally a point and more digits, at least one digit in all. -/
private def unsigned? (text : List Char) : Option Float :=
  let whole := text.takeWhile Char.isDigit
  match text.dropWhile Char.isDigit with
  | [] => if whole.isEmpty then none else some (ofDigits whole [])
  | c :: fraction =>
    if c = '.' ∧ fraction.all Char.isDigit ∧ ¬ (whole.isEmpty ∧ fraction.isEmpty) then
      some (ofDigits whole fraction)
    else none

/-- The number a numeral denotes. -/
def number? : List Char → Option Float
  | '-' :: text => (unsigned? text).map (- ·)
  | text => unsigned? text

end MarkupGraft.Decimal
