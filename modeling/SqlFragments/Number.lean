import SqlFragments.Decimal.Format

/-!
# Numbers

Integers of any size, truth values and floating point values share one order: `True` is one, and an
integer equals a floating point value when both stand for the same real number.

* `Number.text`: how a number is written.
* `Number.equal`, `Number.isBelowOne`: exact comparisons.
-/

namespace SqlFragments

inductive Number where
  | int (n : Int)
  | bool (b : Bool)
  | float (x : Float)

namespace Number

instance : Coe Int Number := ⟨.int⟩

def text : Number → String
  | int n => toString n
  | bool b => if b then "True" else "False"
  | float x => floatText x

def typeName : Number → String
  | int _ => "int"
  | bool _ => "bool"
  | float _ => "float"

/-- The integer that a number other than a floating point value stands for. -/
def toInt? : Number → Option Int
  | int n => some n
  | bool b => some (if b then 1 else 0)
  | float _ => none

/-- Whether a floating point value is exactly an integer. Infinities and NaN equal none. -/
def floatIsInt (x : Float) (n : Int) : Bool :=
  let m := Magnitude.ofFloat x
  !x.isNaN && !x.isInf && m.compareNat n.natAbs == .eq && (n == 0 || floatIsNegative x == (n < 0))

def equal : Number → Number → Bool
  | float x, float y => x == y
  | float x, b => b.toInt?.any (floatIsInt x)
  | a, float y => a.toInt?.any (floatIsInt y)
  | a, b => a.toInt? == b.toInt?

/-- Whether a number is less than one; NaN is not. -/
def isBelowOne : Number → Bool
  | int n => n < 1
  | bool b => !b
  | float x => x < 1.0

/-- Whether a number counts as false: every zero does. -/
def isZero : Number → Bool
  | int n => n == 0
  | bool b => !b
  | float x => x == 0.0

/-- The number after `n`. -/
def succ : Number → Number
  | float x => float (x + 1.0)
  | n => int (n.toInt?.getD 0 + 1)

@[simp] theorem isBelowOne_int (n : Int) : isBelowOne n = decide (n < 1) := rfl

end Number

end SqlFragments
