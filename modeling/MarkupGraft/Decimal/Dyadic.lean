/-! Finite double-precision numbers as exact products of an integer and a power of two. -/

namespace MarkupGraft.Decimal

/-- The number `mantissa * 2 ^ exponent`, with its sign. -/
structure Dyadic where
  negative : Bool
  mantissa : Nat
  exponent : Int
  deriving DecidableEq, Repr

namespace Dyadic

/-- The exact value of a finite number; nothing for infinities and for what is not a number. -/
def ofFloat? (x : Float) : Option Dyadic :=
  let bits := x.toBits.toNat
  let negative := bits >>> 63 % 2 = 1
  let biased : Nat := bits >>> 52 % 2048
  let fraction : Nat := bits % Nat.pow 2 52
  if biased = 2047 then none
  else if biased = 0 then some ⟨negative, fraction, -1074⟩
  else some ⟨negative, fraction + Nat.pow 2 52, biased - 1075⟩

private def stripFactorsOfTwo : Nat → Dyadic → Dyadic
  | 0, d => d
  | steps + 1, d =>
    if d.mantissa ≠ 0 ∧ d.mantissa % 2 = 0 then
      stripFactorsOfTwo steps { d with mantissa := d.mantissa / 2, exponent := d.exponent + 1 }
    else d

/-- Exact whenever the value is representable. -/
def toFloat (d : Dyadic) : Float :=
  let odd := stripFactorsOfTwo (d.mantissa.log2 + 1) d
  let magnitude := (Float.ofNat odd.mantissa).scaleB odd.exponent
  if d.negative then -magnitude else magnitude

/-- The remainder of the division that truncates toward zero, with the sign of the dividend. The
divisor is not zero. -/
def remainder (x y : Dyadic) : Dyadic :=
  let exponent := min x.exponent y.exponent
  let scaled (d : Dyadic) := d.mantissa * Nat.pow 2 (d.exponent - exponent).toNat
  ⟨x.negative, scaled x % scaled y, exponent⟩

end Dyadic

/-- The remainder of a division that truncates toward zero. It is no number when the dividend is
infinite or the divisor is zero, and the dividend when the divisor is infinite. -/
def remainder (x y : Float) : Float :=
  match Dyadic.ofFloat? x, Dyadic.ofFloat? y with
  | some dx, some dy => if dy.mantissa = 0 then 0.0 / 0.0 else (dx.remainder dy).toFloat
  | some _, none => if y.isNaN then y else x
  | none, _ => 0.0 / 0.0

end MarkupGraft.Decimal
