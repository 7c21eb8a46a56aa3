import SqlFragments.Dialect.Basic
import SqlFragments.Table

/-!
# The registry of dialects

Names are registered for classes. The first use of a name makes an object of its class, later uses
get the same object, and registering the name again forgets it.

* `Registry.register`, `Registry.create`, `Registry.targets`.
* **`Registry.create_of_object?`**: a name in use gives its object again and changes nothing.
* **`Registry.class?_register`**: what is registered after one more registration.
-/

namespace SqlFragments

structure Registry where
  classes : Table String DialectClass
  objects : Table String DialectObject

inductive CreateError where
  /-- No class is registered for the name. -/
  | unregistered
  | abstractClass (title : String)
  deriving DecidableEq, Repr

namespace Registry

def register (r : Registry) (name : String) (c : DialectClass) : Registry :=
  ⟨r.classes.insert name c, r.objects.erase name⟩

def class? (r : Registry) (name : String) : Option DialectClass := r.classes.get? name

def object? (r : Registry) (name : String) : Option DialectObject := r.objects.get? name

/-- The object for a name; `fresh` is the identity that a new object gets. -/
def create (r : Registry) (fresh : Nat) (name : String) :
    Except CreateError (DialectObject × Registry) :=
  match r.object? name with
  | some o => .ok (o, r)
  | none =>
    match r.class? name with
    | none => .error .unregistered
    | some c =>
      match c.instantiate? fresh with
      | none => .error (.abstractClass c.title)
      | some o => .ok (o, ⟨r.classes, r.objects.insert name o⟩)

/-- The registered names in increasing order. -/
def targets (r : Registry) : List String := r.classes.keys.mergeSort (· ≤ ·)

/-- The registry that a session starts with. -/
def initial : Registry :=
  ⟨Table.ofList [("postgres", .postgres), ("mysql", .mysql), ("sqlite", .sqlite),
    ("named", .named)], .empty⟩

/-! ## Laws -/

theorem class?_register (r : Registry) (name name' : String) (c : DialectClass) :
    (r.register name c).class? name' = if name = name' then some c else r.class? name' :=
  Table.get?_insert _ _ _ _

theorem object?_register (r : Registry) (name name' : String) (c : DialectClass) :
    (r.register name c).object? name' = if name = name' then none else r.object? name' :=
  Table.get?_erase _ _ _

theorem create_of_object? {r : Registry} {name : String} {o : DialectObject}
    (h : r.object? name = some o) (fresh : Nat) : r.create fresh name = .ok (o, r) := by
  simp [create, h]

theorem mem_targets (r : Registry) (name : String) : name ∈ r.targets ↔ name ∈ r.classes.keys := by
  simp [targets, List.mem_mergeSort]

end Registry

end SqlFragments
