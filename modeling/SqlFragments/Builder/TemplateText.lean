/-!
# Templates as text

In the text of a template a pair of braces marks each slot. Splitting at the pairs gives the literal
pieces.

* `literalPieces`: the pieces between the pairs, taken from left to right.
* **`length_literalPieces`**: there is always one piece more than pairs.
-/

namespace SqlFragments

/-- Adds a character to the first piece. -/
def consPiece (c : Char) : List (List Char) → List (List Char)
  | [] => [[c]]
  | piece :: pieces => (c :: piece) :: pieces

def splitAtPairs : List Char → List (List Char)
  | [] => [[]]
  | [c] => [[c]]
  | c :: d :: rest =>
    if c = '\x7b' ∧ d = '\x7d' then [] :: splitAtPairs rest
    else consPiece c (splitAtPairs (d :: rest))

/-- How many pairs there are, taken from left to right. -/
def pairCount : List Char → Nat
  | [] | [_] => 0
  | c :: d :: rest =>
    if c = '\x7b' ∧ d = '\x7d' then pairCount rest + 1 else pairCount (d :: rest)

/-- The literal pieces of a template. -/
def literalPieces (t : String) : List String := (splitAtPairs t.toList).map String.ofList

theorem splitAtPairs_ne_nil (cs : List Char) : splitAtPairs cs ≠ [] := by
  fun_induction splitAtPairs cs with
  | case4 c d rest h ih =>
    unfold consPiece
    split <;> simp
  | _ => simp

theorem length_splitAtPairs (cs : List Char) : (splitAtPairs cs).length = pairCount cs + 1 := by
  fun_induction splitAtPairs cs with
  | case1 => rfl
  | case2 c => rfl
  | case3 c d rest hpair ih => rw [pairCount, if_pos hpair, List.length_cons, ih]
  | case4 c d rest hpair ih =>
    rw [pairCount, if_neg hpair, ← ih]
    cases hsplit : splitAtPairs (d :: rest) with
    | nil => exact absurd hsplit (splitAtPairs_ne_nil _)
    | cons piece pieces => rfl

/-- **There is one piece more than there are pairs.** -/
theorem length_literalPieces (t : String) :
    (literalPieces t).length = pairCount t.toList + 1 := by
  rw [literalPieces, List.length_map, length_splitAtPairs]

end SqlFragments
