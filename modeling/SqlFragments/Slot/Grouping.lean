import SqlFragments.Slot.Resolution

/-!
# Grouping the elements of a sequence

Inside a sequence, fragments are spliced one by one and neighbouring scalars share one placeholder.
All elements are resolved first, from left to right; grouping then looks at the results only.

* `group`: the runs of resolved elements.
* `sequenceRuns`: the runs of a sequence; an empty sequence is one empty group.

A list object may change while its elements are resolved: an element is looked up when its turn
comes, and what is added behind it is resolved as well.
-/

namespace SqlFragments

inductive Run where
  /-- A fragment; `adjacent` when the element before it was a fragment too. -/
  | fragment (f : Fragment) (adjacent : Bool)
  /-- Neighbouring scalars, bound as one list. -/
  | group (values : List Value)

namespace Run

def values : Run → List Value
  | fragment f _ => [.fragment f]
  | group vs => vs

end Run

/-- Puts a scalar in front of runs: into the group that they begin with, or into a new one. -/
def consScalar (v : Value) : List Run → List Run
  | .group vs :: runs => .group (v :: vs) :: runs
  | runs => .group [v] :: runs

/-- The runs of elements that follow a fragment (`afterFragment`) or not. -/
def groupAfter : Bool → List Resolved → List Run
  | _, [] => []
  | b, .skip :: rest => groupAfter b rest
  | b, .fragment f :: rest => .fragment f b :: groupAfter true rest
  | _, .scalar v :: rest => consScalar v (groupAfter false rest)
  | _, .sequence s :: rest => consScalar s.toValue (groupAfter false rest)

def group (rs : List Resolved) : List Run := groupAfter false rs

/-! ## The runs of a sequence -/

variable {σ : Type} (env : Environment σ) (owner : Fragment)

def resolveItems : List Value → Pass σ (List Resolved)
  | [] => pure []
  | v :: rest => do
    let r ← resolve env owner v
    let rs ← resolveItems rest
    pure (r :: rs)

/-- Resolves `n` elements of a list object from index `i` on, as far as they are there when their
turn comes. -/
def resolveFrom (r : ListRef) : (n i : Nat) → Pass σ (List Resolved)
  | 0, _ => pure []
  | n + 1, i => do
    match (env.elements (← get) r)[i]? with
    | none => pure []
    | some v => do
      let x ← resolve env owner v
      let xs ← resolveFrom r n (i + 1)
      pure (x :: xs)

/-- Resolves the elements of a list object from index `i` on, until there are none left. Each round
takes the elements that are there when it begins. -/
def resolveRounds (r : ListRef) : (rounds i : Nat) → Pass σ (List Resolved)
  | 0, i => do
    if (env.elements (← get) r).length ≤ i then pure [] else throw .tooDeep
  | rounds + 1, i => do
    let length := (env.elements (← get) r).length
    if length ≤ i then pure []
    else do
      let xs ← resolveFrom env owner r (length - i) i
      let more ← resolveRounds r rounds length
      pure (xs ++ more)

theorem take_drop_of_some {items : List Value} {v : Value} {i : Nat} (h : items[i]? = some v)
    (n : Nat) : (items.drop i).take (n + 1) = v :: (items.drop (i + 1)).take n := by
  obtain ⟨hi, rfl⟩ := List.getElem?_eq_some_iff.mp h
  rw [List.drop_eq_getElem_cons hi, List.take_succ_cons]

theorem take_drop_of_none {items : List Value} {i : Nat} (h : items[i]? = none) (n : Nat) :
    (items.drop i).take n = [] := by
  rw [List.drop_of_length_le (List.getElem?_eq_none_iff.mp h), List.take_nil]

theorem resolveRounds_of_none {r : ListRef} {i : Nat} {s : σ} (h : (env.elements s r).length ≤ i)
    (rounds : Nat) : resolveRounds env owner r rounds i s = .ok [] s := by
  cases rounds with
  | zero =>
    rw [resolveRounds, Pass.get_bind, if_pos h]
    rfl
  | succ n =>
    rw [resolveRounds, Pass.get_bind, if_pos h]
    rfl

/-- Resolves all elements of a list object. It may grow as often as fragments may be nested, so that
one which callables keep adding to comes to an end, too. -/
def resolveList (r : ListRef) : Pass σ (List Resolved) :=
  resolveRounds env owner r (env.depth + 1) 0

/-- Of a list object that holds something, the first element is resolved. -/
theorem resolveList_ne_nil {r : ListRef} {s s' : σ} {rs : List Resolved}
    (h : env.elements s r ≠ []) (hrs : resolveList env owner r s = .ok rs s') : rs ≠ [] := by
  obtain ⟨v, rest, hitems⟩ := List.exists_cons_of_ne_nil h
  have hsome : ¬ (v :: rest).length ≤ 0 := Nat.not_succ_le_zero _
  rw [resolveList, resolveRounds, Pass.get_bind, hitems, if_neg hsome] at hrs
  obtain ⟨xs, s₁, hxs, hrs⟩ := Pass.bind_eq_ok hrs
  obtain ⟨more, s₂, -, hok⟩ := Pass.bind_eq_ok hrs
  cases hok
  rw [Nat.sub_zero, List.length_cons, resolveFrom, Pass.get_bind, hitems] at hxs
  obtain ⟨x, s₃, -, hxs⟩ := Pass.bind_eq_ok hxs
  obtain ⟨xs', s₄, -, hok⟩ := Pass.bind_eq_ok hxs
  cases hok
  exact List.cons_ne_nil _ _

section Fixed

variable {r : ListRef} {items : List Value} (h : ∀ s, env.elements s r = items)

include h

theorem resolveFrom_of_fixed (n i : Nat) :
    resolveFrom env owner r n i = resolveItems env owner ((items.drop i).take n) := by
  induction n generalizing i with
  | zero => rw [List.take_zero, resolveFrom, resolveItems]
  | succ n ih =>
    funext s
    rw [resolveFrom, Pass.get_bind, h s]
    cases hv : items[i]? with
    | none =>
      rw [take_drop_of_none hv]
      rfl
    | some v => rw [take_drop_of_some hv, resolveItems, ih]

/-- **A list object that nothing changes** is resolved as it is. -/
theorem resolveList_of_fixed : resolveList env owner r = resolveItems env owner items := by
  have hsecond : resolveRounds env owner r env.depth items.length = pure [] :=
    funext fun s => resolveRounds_of_none env owner (Nat.le_of_eq (congrArg List.length (h s))) _
  funext s
  rw [resolveList, resolveRounds, Pass.get_bind, h s]
  rw [resolveFrom_of_fixed env owner h, hsecond, List.drop_zero, Nat.sub_zero, List.take_length]
  split
  · next hnone =>
    rw [List.length_eq_zero_iff.mp (Nat.le_zero.mp hnone)]
    rfl
  · simp

end Fixed

/-- The runs of fixed items. -/
def itemRuns (items : List Value) : Pass σ (List Run) :=
  if items.isEmpty then pure [.group []]
  else do
    let rs ← resolveItems env owner items
    pure (group rs)

/-- The runs of a list object. -/
def listRuns (r : ListRef) : Pass σ (List Run) := do
  if (env.elements (← get) r).isEmpty then pure [.group []]
  else do
    let rs ← resolveList env owner r
    pure (group rs)

def sequenceRuns : Sequence → Pass σ (List Run)
  | .list r => listRuns env owner r
  | .tuple items | .segments items => itemRuns env owner items

end SqlFragments
