import SqlFragments.Fragment.Statement
import SqlFragments.Session.Basic

/-!
# Getters

A getter renders on first access and keeps what it got; a failing pass keeps nothing. Each target
has a text of its own, all targets share the values.

* `Fragment.text`, `Fragment.sql`: the statement with numbered and with unnumbered placeholders,
  whatever is registered.
* `Fragment.values`: a new list on every access, and new lists for groups.
* **`Fragment.memoText_of_kept`**, **`Fragment.memoValues_of_kept`**: what is kept is given again
  and the session stays as it is.
* `createDialect`: the registered dialect for a target.
* `Fragment.render`, `Fragment.compile`: look up the target, then take the text, then the values.
-/

namespace SqlFragments

variable {ω : Type} (host : Host ω)

/-- New list objects for the groups among bound values. -/
def handOut : List Bound → Op ω (List Value)
  | [] => pure []
  | .scalar v :: rest => do
    let tail ← handOut rest
    pure (v :: tail)
  | .group vs :: rest => do
    let own ← newList vs
    let tail ← handOut rest
    pure (own :: tail)

namespace Fragment

def memoText (key : TextKey) (d : Dialect) (f : Fragment) : Op ω String := do
  match ((← get).cacheOf f).texts.get? key with
  | some text => pure text
  | none =>
    modify (·.record (.rendering (.text key) f.shown))
    let text ← f.statement host.environment d
    modify (·.rememberText f key text)
    pure text

def memoValues (f : Fragment) : Op ω (List Bound) := do
  match ((← get).cacheOf f).values with
  | some values => pure values
  | none =>
    modify (·.record (.rendering .values f.shown))
    let values ← f.bindings host.environment
    modify (·.rememberValues f values)
    pure values

variable {host}

theorem memoText_of_kept {key : TextKey} {f : Fragment} {s : Session ω} {text : String}
    (h : (s.cacheOf f).texts.get? key = some text) (d : Dialect) :
    (f.memoText host key d).run s = .ok text s := by
  change f.memoText host key d s = _
  rw [memoText, Pass.get_bind, h]
  rfl

theorem memoValues_of_kept {f : Fragment} {s : Session ω} {values : List Bound}
    (h : (s.cacheOf f).values = some values) : (f.memoValues host).run s = .ok values s := by
  change f.memoValues host s = _
  rw [memoValues, Pass.get_bind, h]
  rfl

variable (host)

/-- The statement with placeholders `$1`, `$2`, … -/
def text (f : Fragment) : Op ω String := f.memoText host .text .postgres

/-- The statement with placeholders `?`. -/
def sql (f : Fragment) : Op ω String := f.memoText host .sql .mysql

/-- The bound values in placeholder order, as a new list object. -/
def values (f : Fragment) : Op ω ListRef := do
  let bound ← f.memoValues host
  let items ← handOut bound
  newListRef items

end Fragment

/-- The text of a value; a fragment is rendered. -/
def textOf : Value → Op ω String
  | .fragment f => f.text host
  | v => do
    let s ← get
    pure (v.plainText s.heap)

/-- The dialect object for a target. -/
def createDialect (target : Value) : Op ω DialectObject := do
  let s ← get
  if !target.isHashable then throw (.notHashable target)
  else
    let unsupported := Failure.unsupportedTarget target (target.shown s.heap) s.registry.targets
    match target with
    | .str name =>
      match s.registry.create s.fresh name with
      | .ok (o, registry) => do
        set { s with registry := registry, fresh := s.fresh + 1 }
        pure o
      | .error .unregistered => throw unsupported
      | .error (.abstractClass title) => throw (.abstractClass title)
    | _ => throw unsupported

/-- The target that is compiled for when none is given. -/
def defaultTarget : Value := .str Dialect.postgres.name

namespace Fragment

/-- The statement and the values of a fragment for a registered dialect. -/
def render (f : Fragment) (target : Value) : Op ω (String × ListRef) := do
  let name ← textOf host target
  let o ← createDialect target
  let text ← f.memoText host (.target name) o.dialect
  let params ← f.values host
  pure (text, params)

/-- Renders a fragment for a registered dialect. -/
def compile (f : Fragment) (target : Value) : Op ω CompiledQuery := do
  let (text, params) ← f.render host target
  let id ← freshId
  pure ⟨id, .str text, .list params, target, .ofName f.name⟩

end Fragment

/-- The runs of anything that can be gone through; what counts as false is one empty group. -/
def valueRuns (owner : Fragment) (v : Value) : Op ω (List Run) := do
  let s ← get
  if v.isFalsy s.heap then pure [.group []]
  else
    match v with
    | .list r => listRuns host.environment owner r
    | _ =>
      match v.iterate? s.heap with
      | some items => itemRuns host.environment owner items
      | none => throw (.notIterable v)

/-- Registers a class of dialects under a name. -/
def registerDialect (name : String) (c : DialectClass) : Op ω Unit :=
  modify fun s => { s with registry := s.registry.register name c }

/-- The placeholder of a dialect for an ordinal given as a value. -/
def placeholderFor (d : Dialect) : Value → Op ω String
  | .number n =>
    match d.placeholder n with
    | .ok token => pure token
    | .error e => throw (.ofPlaceholder e)
  | v => throw (.notANumber v)

end SqlFragments
