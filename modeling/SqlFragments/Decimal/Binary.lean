/-!
# Finite floating point values, exactly

A finite value of a `Float` is a natural number times a power of two. `Magnitude.ofFloat` reads it
off the bits; the comparisons below are exact and use `Nat` arithmetic only.

* `Magnitude.compareScaled`: a decimal `digits * 10 ^ exponent` against a binary `n * 2 ^ j`.
* **`Magnitude.readsBack`**: the decimals that round to a value, ends included when it is even.
-/

namespace SqlFragments

/-- The magnitude `mantissa * 2 ^ exponent` of a finite value. -/
structure Magnitude where
  mantissa : Nat
  exponent : Int
  /-- The value below is half as far away as the value above. -/
  narrowBelow : Bool
  deriving DecidableEq, Repr

/-- The decimal number `digits * 10 ^ exponent`. -/
structure Decimal where
  digits : Nat
  exponent : Int
  deriving DecidableEq, Repr

namespace Magnitude

/-- The magnitude of a finite value; infinities and NaN have none and are asked for first. -/
def ofFloat (x : Float) : Magnitude :=
  let bits : Nat := x.toBits.toNat
  let biased : Nat := bits / Nat.pow 2 52 % Nat.pow 2 11
  let fraction : Nat := bits % Nat.pow 2 52
  if biased == 0 then ⟨fraction, -1074, false⟩
  else ⟨Nat.pow 2 52 + fraction, (biased : Int) - 1075, fraction == 0 && 1 < biased⟩

/-- Compares `d.digits * 10 ^ d.exponent` with `n * 2 ^ j`, both sides multiplied out. -/
def compareScaled (d : Decimal) (n : Nat) (j : Int) : Ordering :=
  compare (d.digits * Nat.pow 10 d.exponent.toNat * Nat.pow 2 (-j).toNat)
    (n * Nat.pow 2 j.toNat * Nat.pow 10 (-d.exponent).toNat)

/-- Whether the reals that round to `x`, to nearest and ties to even, include `d`. -/
def readsBack (x : Magnitude) (d : Decimal) : Bool :=
  let below := if x.narrowBelow then 4 * x.mantissa - 1 else 4 * x.mantissa - 2
  let above := 4 * x.mantissa + 2
  let closed := x.mantissa % 2 == 0
  let atLow := compareScaled d below (x.exponent - 2)
  let atHigh := compareScaled d above (x.exponent - 2)
  (atLow == .gt || closed && atLow == .eq) && (atHigh == .lt || closed && atHigh == .eq)

/-- Compares the magnitude with a natural number. -/
def compareNat (x : Magnitude) (n : Nat) : Ordering :=
  (compareScaled ⟨n, 0⟩ x.mantissa x.exponent).swap

end Magnitude

/-- The sign bit, also of a zero. -/
def floatIsNegative (x : Float) : Bool := Nat.pow 2 63 ≤ x.toBits.toNat

end SqlFragments
