import SqlFragments.Slot.Grouping

/-!
# Bound values

The values of a fragment in the order of its placeholders: a scalar by itself, the scalars of a
group as one list.

* `Bound`: what one placeholder stands for.
* `Fragment.bindings`: the bound values of a fragment.
-/

namespace SqlFragments

inductive Bound where
  | scalar (v : Value)
  | group (values : List Value)

variable {σ : Type}

section Collect

variable (env : Environment σ) (owner : Fragment) (nested : Fragment → Pass σ (List Bound))

def collectRuns : List Run → Pass σ (List Bound)
  | [] => pure []
  | .group vs :: rest => do
    let tail ← collectRuns rest
    pure (.group vs :: tail)
  | .fragment g _ :: rest => do
    let own ← nested g
    let tail ← collectRuns rest
    pure (own ++ tail)

def collectResolved : Resolved → Pass σ (List Bound)
  | .fragment g => nested g
  | .sequence s => do
    let runs ← sequenceRuns env owner s
    collectRuns nested runs
  | .scalar v => pure [.scalar v]
  | .skip => pure []

def collectSlots : List Value → Pass σ (List Bound)
  | [] => pure []
  | v :: rest => do
    let r ← resolve env owner v
    let own ← collectResolved env owner nested r
    let tail ← collectSlots rest
    pure (own ++ tail)

end Collect

namespace Fragment

/-- The bound values of a fragment nested at most `depth` deep. -/
def collect (env : Environment σ) : (depth : Nat) → Fragment → Pass σ (List Bound)
  | 0, _ => throw .tooDeep
  | n + 1, f => collectSlots env f (collect env n) f.slots

def bindings (env : Environment σ) (f : Fragment) : Pass σ (List Bound) :=
  f.collect env env.depth

end Fragment

end SqlFragments
