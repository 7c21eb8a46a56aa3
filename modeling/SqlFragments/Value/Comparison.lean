import SqlFragments.Value.Heap

/-!
# Comparing values

Two values are equal when they hold the same, and the same when they cannot be told apart at all.
Fragments, callables and other objects with an identity are equal only to themselves; queries and
profiles are compared by their fields.

* `Value.equal`, `Value.same`, `Value.isFalsy`, `Value.isHashable`.
-/

namespace SqlFragments

/-- Nesting beyond this depth compares as different. -/
def comparisonDepth : Nat := 10000

namespace Value

/-- Pairwise comparison of two lists of one length. -/
def allPairs (eq : Value → Value → Bool) (xs ys : List Value) : Bool :=
  xs.length == ys.length && (xs.zip ys).all fun p => eq p.1 p.2

/-- The items of a tuple, marked or not. -/
def tupleItems? : Value → Option (List Value)
  | .tuple items | .segments items => some items
  | _ => none

def byteItems? : Value → Option (List UInt8)
  | .bytes b | .byteArray b => some b
  | _ => none

/-- The identity of an object that is compared by identity, with a tag for its kind. -/
def identity? : Value → Option (Nat × Nat)
  | .fragment f => some (0, f.id)
  | .callable c => some (1, c.id)
  | .template t => some (2, t.id)
  | .foreign id _ => some (3, id)
  | .builder b => some (4, b.id)
  | .dialectClass c => some (5, c.id)
  | .dialect d => some (6, d.id)
  | _ => none

def equalAt (h : Heap) : Nat → Value → Value → Bool
  | 0, _, _ => false
  | n + 1, a, b =>
    match a, b with
    | .null, .null => true
    | .skip, .skip => true
    | .number x, .number y => x.equal y
    | .str s, .str t => s == t
    | .list r, .list s => r == s || allPairs (equalAt h n) (h.elements r) (h.elements s)
    | .deque xs, .deque ys => allPairs (equalAt h n) xs ys
    | .range m, .range k => m.toNat == k.toNat
    | .dict xs, .dict ys =>
      xs.length == ys.length &&
        xs.all fun x => ys.any fun y => equalAt h n x.1 y.1 && equalAt h n x.2 y.2
    | .query p, .query q =>
      p.id == q.id || (equalAt h n p.sql q.sql && equalAt h n p.params q.params &&
        equalAt h n p.dialect q.dialect && equalAt h n p.name q.name)
    | .profile p, .profile q =>
      p.id == q.id || (equalAt h n p.joinDelimiter q.joinDelimiter && equalAt h n p.target q.target)
    | .counter i, .counter j => i == j || equalAt h n (h.counterValue i) (h.counterValue j)
    | a, b =>
      match a.tupleItems?, b.tupleItems?, a.byteItems?, b.byteItems?, a.identity?, b.identity? with
      | some xs, some ys, _, _, _, _ => allPairs (equalAt h n) xs ys
      | _, _, some xs, some ys, _, _ => xs == ys
      | _, _, _, _, some i, some j => i == j
      | _, _, _, _, _, _ => false

/-- Whether two values hold the same. -/
def equal (h : Heap) (a b : Value) : Bool := equalAt h comparisonDepth a b

/-- Puts a value under a key: an equal key keeps its place and takes the new value. -/
def putEntry (h : Heap) (key v : Value) : List (Value × Value) → List (Value × Value)
  | [] => [(key, v)]
  | e :: rest => if e.1.equal h key then (e.1, v) :: rest else e :: putEntry h key v rest

/-- Whether two values are one and the same. Data without an identity of its own is the same when
kind and content are. -/
def same (h : Heap) : Value → Value → Bool
  | .list r, .list s => r == s
  | .query p, .query q => p.id == q.id
  | .profile p, .profile q => p.id == q.id
  | .counter i, .counter j => i == j
  | a, b => a.typeName == b.typeName && equal h a b

/-- Whether a value counts as false: nothing, zero and whatever is empty. -/
def isFalsy (h : Heap) : Value → Bool
  | .null => true
  | .number x => x.isZero
  | .str s => s.isEmpty
  | .bytes b | .byteArray b => b.isEmpty
  | .list r => (h.elements r).isEmpty
  | .tuple items | .segments items | .deque items => items.isEmpty
  | .range stop => stop ≤ 0
  | .dict entries => entries.isEmpty
  | _ => false

/-- Whether a value can be looked up by: nothing in it may change. -/
def isHashableAt : Nat → Value → Bool
  | 0, _ => false
  | n + 1, v =>
    match v with
    | .list _ | .deque _ | .dict _ | .byteArray _ | .counter _ => false
    | .tuple items | .segments items => items.all (isHashableAt n)
    | .query q =>
      isHashableAt n q.sql && isHashableAt n q.params && isHashableAt n q.dialect &&
        isHashableAt n q.name
    | .profile p => isHashableAt n p.joinDelimiter && isHashableAt n p.target
    | _ => true

def isHashable (v : Value) : Bool := isHashableAt comparisonDepth v

end Value

end SqlFragments
