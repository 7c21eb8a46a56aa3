import SqlFragments.Dialect.Basic

/-!
# Values and fragments

A fragment is a statement in pieces: literal segments with slots between them. A slot may hold
anything: data to bind, a fragment to splice, a list or tuple of both, a callable that is asked for
the value when the statement is rendered, or the marker that leaves the slot out. So values and
fragments are defined together, and with them the objects that a slot may hold as data.

* `Value`: everything a slot may hold.
* `Fragment`: literal segments, slots, and how neighbouring results are separated.
* `Value.isSequence`: what passes for a sequence argument; `Value.typeName`: the kind of a value.

Values that can be told apart although they look the same carry a number as identity: list objects
(`ListRef`), fragments, callables, templates, foreign objects, queries, profiles and builders.
-/

namespace SqlFragments

/-- A list object. What it holds is kept in a `Heap`, because it can grow. -/
structure ListRef where
  index : Nat
  deriving DecidableEq, Repr

/-- Something that is asked for a value with the fragment whose slot holds it. -/
structure Callable where
  id : Nat
  name : String
  deriving DecidableEq, Repr

mutual

inductive Value where
  | null
  | number (n : Number)
  | str (s : String)
  | bytes (b : List UInt8)
  | byteArray (b : List UInt8)
  | list (r : ListRef)
  | tuple (items : List Value)
  /-- A tuple marked as the literal pieces of a template. -/
  | segments (items : List Value)
  | deque (items : List Value)
  | range (stop : Int)
  | dict (entries : List (Value × Value))
  /-- Renders nothing and binds nothing. -/
  | skip
  | fragment (f : Fragment)
  | callable (c : Callable)
  | template (t : Template)
  | foreign (id : Nat) (name : String)
  | query (q : CompiledQuery)
  | profile (p : Profile)
  | builder (b : Builder)
  | dialectClass (c : DialectClass)
  | dialect (d : DialectObject)
  | counter (index : Nat)
  | clause (c : Clause)

structure Fragment where
  id : Nat
  segments : List String
  /-- The segments came as the literal pieces of a template. -/
  marked : Bool
  slots : List Value
  delimiter : String
  name : Option String
  /-- Every pair of neighbouring results is separated, not only two fragments. -/
  joined : Bool

/-- A template string. One without interpolations is data like any other. -/
structure Template where
  id : Nat
  strings : Value
  interpolations : Option (List Value)

/-- A rendered statement with the values for its placeholders. -/
structure CompiledQuery where
  id : Nat
  sql : Value
  params : Value
  dialect : Value
  name : Value

/-- What a builder gives to the fragments it makes. -/
structure Profile where
  id : Nat
  joinDelimiter : Value
  target : Value

structure Builder where
  id : Nat
  profile : Profile

/-- A statement with named parameters and the value bound to each. -/
structure Clause where
  text : String
  parameters : List (String × Value)

end

instance : Inhabited Value := ⟨.null⟩

instance : Inhabited Fragment := ⟨⟨0, [], false, [], "", none, false⟩⟩

namespace Value

instance : Coe Fragment Value := ⟨.fragment⟩

abbrev int (n : Int) : Value := .number (.int n)

abbrev bool (b : Bool) : Value := .number (.bool b)

abbrev float (x : Float) : Value := .number (.float x)

def ofName : Option String → Value
  | none => .null
  | some s => .str s

/-- What passes for a sequence where an argument has to be one. Text, bytes, dictionaries, fragments
and callables do not. -/
def isSequence : Value → Bool
  | .list _ | .tuple _ | .segments _ | .deque _ | .range _ => true
  | _ => false

/-- The name of the kind of a value. -/
def typeName : Value → String
  | .null => "NoneType"
  | .number n => n.typeName
  | .str _ => "str"
  | .bytes _ => "bytes"
  | .byteArray _ => "bytearray"
  | .list _ => "list"
  | .tuple _ => "tuple"
  | .segments _ => "Segments"
  | .deque _ => "deque"
  | .range _ => "range"
  | .dict _ => "dict"
  | .skip => "_SkipType"
  | .fragment _ => "Fragment"
  | .callable _ => "Fn"
  | .template _ => "Template"
  | .foreign _ _ => "Opaque"
  | .query _ => "CompiledQuery"
  | .profile _ => "BuilderProfile"
  | .builder _ => "Builder"
  | .dialectClass _ => "ABCMeta"
  | .dialect d => d.origin.title
  | .counter _ => "PlaceholderCounter"
  | .clause _ => "TextClause"

end Value

end SqlFragments
