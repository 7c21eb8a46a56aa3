import SqlFragments.Failure

/-!
# Resolving slots

A slot is resolved each time a statement is rendered: a callable is asked with the fragment that
owns the slot, anything else stands for itself. What comes back of a callable is not asked again.
Builders and classes of dialects can be called, too, so in a slot they are callables.

* `Value.classify`: fragments are spliced, lists and tuples are sequences, the skip marker is left
  out and all else is bound as it is.
* `Value.callable?`: what is asked in place of a value.
* `Environment`: what a pass asks of its surroundings, for any state that they keep.
* `resolve`.
* `Pass.bind_ok`, `Pass.bind_error`: a pass, one step at a time.
* **`toValue_classify`**: classifying loses nothing.
-/

namespace SqlFragments

/-- A sequence that a slot resolved to. -/
inductive Sequence where
  | list (r : ListRef)
  | tuple (items : List Value)
  | segments (items : List Value)

def Sequence.toValue : Sequence → Value
  | list r => .list r
  | tuple items => .tuple items
  | segments items => .segments items

inductive SlotKind where
  | fragment
  | sequence
  | scalar
  | skip
  deriving DecidableEq, Repr

def SlotKind.name : SlotKind → String
  | fragment => "fragment"
  | sequence => "sequence"
  | scalar => "scalar"
  | skip => "skip"

/-- What a slot stands for once no callable is left to ask. -/
inductive Resolved where
  | fragment (f : Fragment)
  | sequence (s : Sequence)
  | scalar (v : Value)
  | skip

namespace Resolved

def kind : Resolved → SlotKind
  | fragment _ => .fragment
  | sequence _ => .sequence
  | scalar _ => .scalar
  | skip => .skip

def toValue : Resolved → Value
  | fragment f => .fragment f
  | sequence s => s.toValue
  | scalar v => v
  | skip => .skip

end Resolved

namespace Value

def classify : Value → Resolved
  | .fragment f => .fragment f
  | .list r => .sequence (.list r)
  | .tuple items => .sequence (.tuple items)
  | .segments items => .sequence (.segments items)
  | .skip => .skip
  | v => .scalar v

@[simp] theorem toValue_classify (v : Value) : v.classify.toValue = v := by
  cases v <;> rfl

/-- What is asked in place of the value: itself, if it can be called at all. -/
def callable? : Value → Option Callable
  | .callable c => some c
  | .builder b => some ⟨b.id, "Builder"⟩
  | .dialectClass c => some ⟨c.id, c.title⟩
  | _ => none

@[simp] theorem callable?_fragment (f : Fragment) : (fragment f).callable? = none := rfl

end Value

/-! ## Passes -/

/-- A pass over a fragment. The state survives a failure. -/
abbrev Pass (σ : Type) := EStateM Failure σ

namespace Pass

variable {σ α β : Type} {p : Pass σ α} {s s' : σ}

theorem bind_ok {a : α} (h : p s = .ok a s') (f : α → Pass σ β) : (p >>= f) s = f a s' := by
  change EStateM.bind p f s = _
  rw [EStateM.bind, h]

theorem bind_error {e : Failure} (h : p s = .error e s') (f : α → Pass σ β) :
    (p >>= f) s = .error e s' := by
  change EStateM.bind p f s = _
  rw [EStateM.bind, h]

theorem bind_eq_ok {f : α → Pass σ β} {b : β} (h : (p >>= f) s = .ok b s') :
    ∃ a s₁, p s = .ok a s₁ ∧ f a s₁ = .ok b s' := by
  cases hp : p s with
  | ok a s₁ =>
    rw [bind_ok hp] at h
    exact ⟨a, s₁, rfl, h⟩
  | error e s₁ =>
    rw [bind_error hp] at h
    cases h

theorem map_ok {a : α} (h : p s = .ok a s') (g : α → β) : (g <$> p) s = .ok (g a) s' := by
  change EStateM.map g p s = _
  rw [EStateM.map, h]

theorem map_error {e : Failure} (h : p s = .error e s') (g : α → β) :
    (g <$> p) s = .error e s' := by
  change EStateM.map g p s = _
  rw [EStateM.map, h]

theorem map_eq_ok {g : α → β} {b : β} (h : (g <$> p) s = .ok b s') :
    ∃ a, p s = .ok a s' ∧ b = g a := by
  cases hp : p s with
  | ok a s₁ =>
    rw [map_ok hp] at h
    cases h
    exact ⟨a, rfl, rfl⟩
  | error e s₁ =>
    rw [map_error hp] at h
    cases h

theorem get_bind (f : σ → Pass σ β) (s : σ) : (get >>= f) s = f s s := rfl

theorem modify_bind (g : σ → σ) (f : Unit → Pass σ β) (s : σ) :
    (modify g >>= f) s = f () (g s) := rfl

end Pass

/-- What a pass asks of its surroundings. -/
structure Environment (σ : Type) where
  /-- What a list object holds at the moment. -/
  elements : σ → ListRef → List Value
  /-- The answer of a callable for the fragment that owns the slot. -/
  call : Callable → Fragment → Pass σ Value
  /-- How deep fragments may be nested. -/
  depth : Nat

variable {σ : Type}

/-- Resolves the value of a slot of `owner`. -/
def resolve (env : Environment σ) (owner : Fragment) (v : Value) : Pass σ Resolved :=
  match v.callable? with
  | some c => do
    let v ← env.call c owner
    pure v.classify
  | none => pure v.classify

end SqlFragments
