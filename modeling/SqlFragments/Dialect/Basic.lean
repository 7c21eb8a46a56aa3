import SqlFragments.Number

/-!
# Dialects

A dialect has a name and writes the placeholder of the `k`-th bound value. Classes of dialects may
leave either open; such a class is abstract and has no objects.

* `Dialect.placeholder`: refuses ordinals below one, else asks the dialect.
* `TokenShape`: the placeholders made of fixed text around the ordinal, or of fixed text alone.
* `DialectClass.derive`: a class that takes what it does not fix from another.
* **`Dialect.placeholder_int`**: for ordinals from one on, only the dialect's own step counts.
-/

namespace SqlFragments

/-- An error raised by code that the library calls but does not own. -/
structure Raised where
  kind : String
  message : String
  deriving DecidableEq, Repr

structure Dialect where
  name : String
  render : Number → Except Raised String

inductive PlaceholderError where
  | indexTooSmall (index : Number) (dialect : String)
  | raised (r : Raised)

namespace Dialect

/-- The placeholder of the bound value with this ordinal; ordinals start at one. -/
def placeholder (d : Dialect) (index : Number) : Except PlaceholderError String :=
  if index.isBelowOne then .error (.indexTooSmall index d.name)
  else (d.render index).mapError .raised

theorem placeholder_int (d : Dialect) {k : Int} (h : 1 ≤ k) :
    d.placeholder k = (d.render k).mapError .raised := by
  simp [placeholder, show ¬ k < 1 by omega]

end Dialect

/-! ## Placeholder tokens -/

/-- Text before and after the ordinal, which may be left out. -/
structure TokenShape where
  lead : String
  numbered : Bool
  trail : String
  deriving DecidableEq, Repr

namespace TokenShape

def around (lead trail : String) : TokenShape := ⟨lead, true, trail⟩

def constant (token : String) : TokenShape := ⟨token, false, ""⟩

def token (t : TokenShape) (index : Number) : String :=
  t.lead ++ (if t.numbered then index.text else "") ++ t.trail

theorem token_around (lead trail : String) (index : Number) :
    (around lead trail).token index = lead ++ index.text ++ trail := rfl

theorem token_constant (token : String) (index : Number) :
    (constant token).token index = token := by simp [constant, TokenShape.token]

/-- The token is written for every ordinal. -/
def render (t : TokenShape) (index : Number) : Except Raised String := .ok (t.token index)

end TokenShape

/-- The name of the `k`-th named parameter. -/
def parameterName (index : String) : String := "param_" ++ index

namespace Dialect

/-- Numbered placeholders `$1`, `$2`, … -/
def postgres : Dialect := ⟨"postgres", (TokenShape.around "$" "").render⟩

/-- The placeholder `?` once per bound value, matched by position. -/
def mysql : Dialect := ⟨"mysql", (TokenShape.constant "?").render⟩

/-- As for `mysql`, under a name of its own. -/
def sqlite : Dialect := ⟨"sqlite", (TokenShape.constant "?").render⟩

/-- Named placeholders `:param_1`, `:param_2`, … -/
def named : Dialect := ⟨"named", fun index => .ok (":" ++ parameterName index.text)⟩

end Dialect

/-! ## Classes of dialects -/

/-- A class of dialects. Two classes are the same when their `id` is. -/
structure DialectClass where
  id : Nat
  title : String
  dialectName : Option String
  render : Option (Number → Except Raised String)

namespace DialectClass

/-- What every object of the class does; an abstract class has no objects. -/
def dialect? (c : DialectClass) : Option Dialect :=
  match c.dialectName, c.render with
  | some name, some render => some ⟨name, render⟩
  | _, _ => none

/-- A class of its own that inherits what it does not fix. -/
def derive (base : DialectClass) (id : Nat) (title : String) (dialectName : Option String)
    (render : Option (Number → Except Raised String)) : DialectClass :=
  ⟨id, title, dialectName.orElse fun _ => base.dialectName, render.orElse fun _ => base.render⟩

def ofDialect (id : Nat) (title : String) (d : Dialect) : DialectClass :=
  ⟨id, title, some d.name, some d.render⟩

/-- The abstract class that all others derive from. -/
def placeholderDialect : DialectClass := ⟨0, "PlaceholderDialect", none, none⟩
def postgres : DialectClass := ofDialect 1 "PostgresDialect" .postgres
def mysql : DialectClass := ofDialect 2 "MySQLDialect" .mysql
def sqlite : DialectClass := ofDialect 3 "SQLiteDialect" .sqlite
def named : DialectClass := ofDialect 4 "NamedDialect" .named

/-- The classes that every session knows. -/
def builtin : List DialectClass := [placeholderDialect, postgres, mysql, sqlite, named]

end DialectClass

/-- An object of a class. Two objects are the same when their `id` is. -/
structure DialectObject where
  id : Nat
  origin : DialectClass
  dialect : Dialect

def DialectClass.instantiate? (c : DialectClass) (id : Nat) : Option DialectObject :=
  c.dialect?.map fun d => ⟨id, c, d⟩

end SqlFragments
