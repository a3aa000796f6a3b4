import MarkupGraft.Decimal.Dyadic

/-!
The shortest decimal that reads back as a given number. A decimal reads back when it lies in the
interval of reals that round to the number; among decimals with the fewest digits the nearest one is
taken, and the larger one when two are equally near.
-/

namespace MarkupGraft.Decimal

/-- A fraction of natural numbers with the bounds of the reals that round to it, all over one
denominator. -/
structure Interval where
  low : Nat
  value : Nat
  high : Nat
  denominator : Nat
  /-- Whether the bounds themselves round to the value. -/
  closed : Bool
  deriving Repr

namespace Interval

/-- The reals that round to `mantissa * 2 ^ exponent`. Below a power of two the numbers lie twice as
dense as above it. -/
def ofDyadic (d : Dyadic) : Interval :=
  let below := if d.mantissa = Nat.pow 2 52 ∧ d.exponent ≠ -1074 then 1 else 2
  let scale := Nat.pow 2 (d.exponent - 2).toNat
  { low := (4 * d.mantissa - below) * scale
    value := 4 * d.mantissa * scale
    high := (4 * d.mantissa + 2) * scale
    denominator := Nat.pow 2 (2 - d.exponent).toNat
    closed := d.mantissa % 2 = 0 }

/-- Whether `numerator / denominator` rounds to the value. -/
def contains (i : Interval) (numerator denominator : Nat) : Bool :=
  let x := numerator * i.denominator
  if i.closed then i.low * denominator ≤ x && x ≤ i.high * denominator
  else i.low * denominator < x && x < i.high * denominator

end Interval

/-- The number `digits * 10 ^ exponent`. -/
structure Scaled where
  digits : Nat
  exponent : Int
  deriving DecidableEq, Repr

/-- The least `k ≤ steps` with `denominator ≤ numerator * 10 ^ k`. -/
private def leadingZeros (denominator : Nat) : (steps numerator : Nat) → Nat
  | 0, _ => 0
  | steps + 1, numerator =>
    if denominator ≤ numerator then 0 else leadingZeros denominator steps (numerator * 10) + 1

/-- The `k` with `10 ^ (k - 1) ≤ numerator / denominator < 10 ^ k`, for a quotient that is not
zero. -/
def decimalPoint (numerator denominator : Nat) : Int :=
  if denominator ≤ numerator then (Nat.toDigits 10 (numerator / denominator)).length
  else 1 - leadingZeros denominator 400 numerator

/-- The neighbours of the value on the grid of multiples of `10 ^ exponent` that read back: the
nearer of the two, the upper one when they are equally near. -/
def nearestOn? (i : Interval) (exponent : Int) : Option Scaled :=
  let scale := Nat.pow 10 (-exponent).toNat
  let unit := Nat.pow 10 exponent.toNat
  let numerator := i.value * scale
  let denominator := i.denominator * unit
  let floor := numerator / denominator
  let hits (n : Nat) := i.contains (n * unit) scale
  match hits floor, hits (floor + 1) with
  | false, false => none
  | true, false => some ⟨floor, exponent⟩
  | false, true => some ⟨floor + 1, exponent⟩
  | true, true =>
    some ⟨if 2 * (numerator % denominator) < denominator then floor else floor + 1, exponent⟩

/-- The shortest decimal of a positive number. Seventeen digits always suffice. -/
def shortest (d : Dyadic) : Scaled :=
  let i := Interval.ofDyadic d
  let point := decimalPoint i.value i.denominator
  ((List.range 17).findSome? fun n : Nat => nearestOn? i (point - 1 - n)).getD ⟨0, 0⟩

end MarkupGraft.Decimal
