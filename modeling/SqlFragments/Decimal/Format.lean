import SqlFragments.Decimal.Shortest

/-!
# The text of floating point values

Where the digits of a number are written positionally and where with an exponent is a choice of the
format, kept in one record.

* `FloatFormat.plain`: the record of this library.
* **`floatText`**: the text of a value, infinities and NaN included.
-/

namespace SqlFragments

/-- How digits are laid out: positionally while the leading digit stands for a power of ten from
`least` up to, but not including, `limit`; else with `mark`, a sign and at least `width` digits. -/
structure FloatFormat where
  least : Int
  limit : Int
  mark : Char
  width : Nat

/-- Positional from `0.0001` to below `10 ^ 16`, always with a point; else `1e+16`, `1e-05`. -/
def FloatFormat.plain : FloatFormat := ⟨-4, 16, 'e', 2⟩

namespace FloatFormat

/-- The exponent part: mark, sign and digits. -/
def exponentText (s : FloatFormat) (e : Int) : String :=
  let digits := Nat.repr e.natAbs
  let zeros := String.ofList (List.replicate (s.width - digits.length) '0')
  String.singleton s.mark ++ (if e < 0 then "-" else "+") ++ zeros ++ digits

/-- Digits around a point that stands after the first `place` of them, filled with zeros. -/
def positional (digits : List Char) (place : Int) : String :=
  if place ≤ 0 then
    "0." ++ String.ofList (List.replicate (-place).toNat '0' ++ digits)
  else
    let n := place.toNat
    let whole := digits.take n ++ List.replicate (n - digits.length) '0'
    let rest := digits.drop n
    String.ofList (whole ++ '.' :: (if rest.isEmpty then ['0'] else rest))

/-- Digits with a point after the first, if there is a second. -/
def scientific (digits : List Char) : String :=
  match digits with
  | d :: e :: rest => String.ofList (d :: '.' :: e :: rest)
  | ds => String.ofList ds

def layout (s : FloatFormat) (d : Decimal) : String :=
  let digits := (Nat.repr d.digits).toList
  let place : Int := digits.length + d.exponent
  if s.least ≤ place - 1 ∧ place - 1 < s.limit then positional digits place
  else scientific digits ++ s.exponentText (place - 1)

end FloatFormat

/-- The text of a floating point value: fewest digits that read back, in the plain format. -/
def floatText (x : Float) : String :=
  if x.isNaN then "nan"
  else
    let magnitude :=
      if x.isInf then "inf" else FloatFormat.plain.layout (Magnitude.ofFloat x).shortest
    if floatIsNegative x then "-" ++ magnitude else magnitude

end SqlFragments
