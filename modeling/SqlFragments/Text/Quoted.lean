import SqlFragments.Text.Printable

/-!
# Quoted text

A string is shown between quotes. Single quotes are preferred; double quotes are taken when that
avoids escaping. Bytes are shown the same way, each byte outside printable ASCII as two hexadecimal
digits.

* `quoteFor`: the quote of a text.
* `quoted`, `quotedBytes`: the quoted forms.
-/

namespace SqlFragments

/-- Double quotes for text with a single and no double quote in it, else single quotes. -/
def quoteFor (s : List Char) : Char :=
  if '\'' ∈ s ∧ '"' ∉ s then '"' else '\''

/-- Lower-case hexadecimal digits, filled with zeros up to `width`. -/
def hexText (width n : Nat) : List Char :=
  let digits := Nat.toDigits 16 n
  List.replicate (width - digits.length) '0' ++ digits

/-- The escapes that strings and bytes share. -/
def shortEscape? (quote c : Char) : Option (List Char) :=
  if c = quote ∨ c = '\\' then some ['\\', c]
  else if c = '\n' then some ['\\', 'n']
  else if c = '\r' then some ['\\', 'r']
  else if c = '\t' then some ['\\', 't']
  else none

def escapeChar (quote c : Char) : List Char :=
  match shortEscape? quote c with
  | some e => e
  | none =>
    if isPrintable c then [c]
    else if c.toNat < 0x100 then '\\' :: 'x' :: hexText 2 c.toNat
    else if c.toNat < 0x10000 then '\\' :: 'u' :: hexText 4 c.toNat
    else '\\' :: 'U' :: hexText 8 c.toNat

def quoted (s : String) : String :=
  let q := quoteFor s.toList
  String.ofList (q :: s.toList.flatMap (escapeChar q) ++ [q])

/-! ## Bytes -/

def escapeByte (quote : Char) (b : UInt8) : List Char :=
  let c := Char.ofNat b.toNat
  match shortEscape? quote c with
  | some e => e
  | none => if 0x20 ≤ b.toNat ∧ b.toNat ≤ 0x7e then [c] else '\\' :: 'x' :: hexText 2 b.toNat

def byteQuote (bytes : List UInt8) : Char := quoteFor (bytes.map fun b => Char.ofNat b.toNat)

/-- Immutable bytes, such as `b'a\xff'`. -/
def quotedBytes (bytes : List UInt8) : String :=
  let q := byteQuote bytes
  String.ofList ('b' :: q :: bytes.flatMap (escapeByte q) ++ [q])

/-- Mutable bytes: a single quote is escaped between quotes of either kind. -/
def quotedByteArray (bytes : List UInt8) : String :=
  let q := byteQuote bytes
  let escape (b : UInt8) := if b.toNat = 39 then ['\\', '\''] else escapeByte q b
  "bytearray(" ++ String.ofList ('b' :: q :: bytes.flatMap escape ++ [q]) ++ ")"

end SqlFragments
