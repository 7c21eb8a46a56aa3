import SqlFragments.Decimal.Binary

/-!
# The shortest decimal that reads back

Among the decimals with the fewest digits that round to a value, the nearest to it. The search goes
through one, two, … seventeen digits and tests the two neighbours of the value on that decimal grid.

* `Magnitude.scale`: the least power of ten above the value.
* **`Magnitude.shortest`**: the first grid with a hit wins; of two hits the nearer, a tie to even.
-/

namespace SqlFragments.Magnitude

/-- Whether the value is below `10 ^ k`. -/
def isBelowTen (x : Magnitude) (k : Int) : Bool :=
  compareScaled ⟨1, k⟩ x.mantissa x.exponent == .gt

def climb (x : Magnitude) : Nat → Int → Int
  | 0, k => k
  | fuel + 1, k => if x.isBelowTen k then k else climb x fuel (k + 1)

/-- The least `k` with the value below `10 ^ k`. The estimate from the binary length is never above
it and at most two short of it. -/
def scale (x : Magnitude) : Int :=
  climb x 8 (((Nat.log2 x.mantissa : Int) + x.exponent) * 30103 / 100000 - 1)

/-- The integer part of the value in units of `10 ^ e`. -/
def floorAt (x : Magnitude) (e : Int) : Nat :=
  (x.mantissa * Nat.pow 2 x.exponent.toNat * Nat.pow 10 (-e).toNat) /
    (Nat.pow 10 e.toNat * Nat.pow 2 (-x.exponent).toNat)

/-- Of the neighbours `n` and `n + 1` on the grid of `10 ^ e` the one nearer to the value, an even
one if they are equally near. -/
def nearer (x : Magnitude) (e : Int) (n : Nat) : Nat :=
  -- twice the value against n + (n + 1)
  match compareScaled ⟨2 * n + 1, e⟩ (2 * x.mantissa) x.exponent with
  | .gt => n
  | .lt => n + 1
  | .eq => if n % 2 = 0 then n else n + 1

/-- The best decimal on the grid of `10 ^ e`, if one reads back. -/
def candidate? (x : Magnitude) (e : Int) : Option Nat :=
  let n := x.floorAt e
  match x.readsBack ⟨n, e⟩, x.readsBack ⟨n + 1, e⟩ with
  | true, true => some (x.nearer e n)
  | true, false => some n
  | false, true => some (n + 1)
  | false, false => none

def searchFrom (x : Magnitude) (k : Int) : Nat → Nat → Option Decimal
  | 0, _ => none
  | fuel + 1, n =>
    match x.candidate? (k - n) with
    | some d => some ⟨d, k - n⟩
    | none => searchFrom x k fuel (n + 1)

/-- Moves trailing zeros of the digits into the exponent. -/
def strip : Nat → Decimal → Decimal
  | 0, d => d
  | fuel + 1, d =>
    if d.digits % 10 = 0 ∧ d.digits ≠ 0 then strip fuel ⟨d.digits / 10, d.exponent + 1⟩ else d

/-- The exact decimal value, for the case that no grid has a hit. -/
def exact (x : Magnitude) : Decimal :=
  ⟨x.mantissa * Nat.pow 2 x.exponent.toNat * Nat.pow 5 (-x.exponent).toNat, min x.exponent 0⟩

/-- The shortest decimal that reads back, without trailing zeros. -/
def shortest (x : Magnitude) : Decimal :=
  if x.mantissa = 0 then ⟨0, 0⟩
  else strip 400 ((searchFrom x x.scale 17 1).getD x.exact)

end SqlFragments.Magnitude
