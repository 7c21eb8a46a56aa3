import SqlFragments.Slot.Grouping

/-!
# Statement text

The text of a fragment is written from left to right, each bound value as a placeholder with the
next ordinal. Ordinals run through the whole tree.

* `Fragment.gaps`: the segments of a fragment, each with the slot that follows it.
* `Fragment.separates`: where the delimiter stands between the results of neighbouring slots.
* `Fragment.write`: the text from a given ordinal on, and the last ordinal used.
* `Fragment.statement`: the whole text. Line breaks are layout and left out.
* **`Fragment.gaps_literals`**, **`Fragment.gaps_slots`**: the gaps hold the segments and the slots,
  however many of either there are.
-/

namespace SqlFragments

/-- Pairs each segment with the slot after it. Missing segments are empty. -/
def pairGaps : List String → List Value → List (String × Option Value)
  | [], vs => vs.map fun v => ("", some v)
  | s :: ss, [] => (s, none) :: pairGaps ss []
  | s :: ss, v :: vs => (s, some v) :: pairGaps ss vs

theorem pairGaps_nil_cons (v : Value) (vs : List Value) :
    pairGaps [] (v :: vs) = ("", some v) :: pairGaps [] vs := rfl

theorem pairGaps_slots (ss : List String) (vs : List Value) :
    (pairGaps ss vs).filterMap Prod.snd = vs := by
  fun_induction pairGaps ss vs with
  | case1 vs => simp [Function.comp_def]
  | case2 s ss ih => simpa using ih
  | case3 s ss v vs ih => simp [ih]

theorem pairGaps_literals (ss : List String) (vs : List Value) :
    (pairGaps ss vs).map Prod.fst = ss ++ List.replicate (vs.length - ss.length) "" := by
  fun_induction pairGaps ss vs with
  | case1 vs => simp [Function.comp_def, List.map_const']
  | case2 s ss ih => simpa using ih
  | case3 s ss v vs ih => simp [ih]

def dropNewlines (s : String) : String := String.ofList (s.toList.filter (· ≠ '\n'))

theorem dropNewlines_append (s t : String) :
    dropNewlines (s ++ t) = dropNewlines s ++ dropNewlines t := by
  simp [dropNewlines]

theorem dropNewlines_dropNewlines (s : String) :
    dropNewlines (dropNewlines s) = dropNewlines s := by
  simp [dropNewlines]

variable {σ : Type}

/-- The placeholder after ordinal `k`. -/
def writePlaceholder (d : Dialect) (k : Nat) : Pass σ (String × Nat) :=
  match d.placeholder (.int (k + 1)) with
  | .ok token => pure (token, k + 1)
  | .error e => throw (.ofPlaceholder e)

namespace Fragment

def gaps (f : Fragment) : List (String × Option Value) := pairGaps f.segments f.slots

theorem gaps_slots (f : Fragment) : f.gaps.filterMap Prod.snd = f.slots := pairGaps_slots _ _

theorem gaps_literals (f : Fragment) : f.gaps.map Prod.fst =
    f.segments ++ List.replicate (f.slots.length - f.segments.length) "" := pairGaps_literals _ _

/-- Whether the delimiter stands between two results with no text between them: always in a joined
fragment, else between two fragments. -/
def separates (f : Fragment) (previous : Option SlotKind) (kind : SlotKind) : Bool :=
  match previous with
  | none => false
  | some p => f.joined || (p == .fragment && kind == .fragment)

end Fragment

section Write

variable (env : Environment σ) (d : Dialect) (owner : Fragment)
  (nested : Fragment → Nat → Pass σ (String × Nat))

/-- The delimiter of the owner stands in front of a fragment next to a fragment. -/
def writeRuns : List Run → Nat → Pass σ (String × Nat)
  | [], k => pure ("", k)
  | .group _ :: rest, k => do
    let (token, k) ← writePlaceholder d k
    let (tail, k) ← writeRuns rest k
    pure (token ++ tail, k)
  | .fragment g adjacent :: rest, k => do
    let (own, k) ← nested g k
    let (tail, k) ← writeRuns rest k
    pure ((if adjacent then owner.delimiter else "") ++ own ++ tail, k)

def writeResolved : Resolved → Nat → Pass σ (String × Nat)
  | .fragment g, k => nested g k
  | .sequence s, k => do
    let runs ← sequenceRuns env owner s
    writeRuns d owner nested runs k
  | .scalar _, k => writePlaceholder d k
  | .skip, k => pure ("", k)

/-- `previous` is the kind of the last result, if no text has been written since. -/
def writeGaps : List (String × Option Value) → Option SlotKind → Nat → Pass σ (String × Nat)
  | [], _, k => pure ("", k)
  | (literal, none) :: rest, previous, k => do
    let (tail, k) ← writeGaps rest (if literal.isEmpty then previous else none) k
    pure (literal ++ tail, k)
  | (literal, some v) :: rest, previous, k => do
    let previous := if literal.isEmpty then previous else none
    let r ← resolve env owner v
    if r.kind = .skip then
      let (tail, k) ← writeGaps rest previous k
      pure (literal ++ tail, k)
    else
      let (own, k) ← writeResolved env d owner nested r k
      let (tail, k) ← writeGaps rest (some r.kind) k
      let between := if owner.separates previous r.kind then owner.delimiter else ""
      pure (literal ++ between ++ own ++ tail, k)

end Write

namespace Fragment

/-- The text of a fragment after ordinal `k`, nested at most `depth` deep. -/
def write (env : Environment σ) (d : Dialect) : (depth : Nat) → Fragment → Nat →
    Pass σ (String × Nat)
  | 0, _, _ => throw .tooDeep
  | n + 1, f, k => writeGaps env d f (write env d n) f.gaps none k

/-- The statement of a fragment in a dialect. -/
def statement (env : Environment σ) (d : Dialect) (f : Fragment) : Pass σ String := do
  let (text, _) ← f.write env d env.depth 0
  pure (dropNewlines text)

end Fragment

end SqlFragments
