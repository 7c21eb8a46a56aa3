import SqlFragments.Dialect.Registry
import SqlFragments.Fragment.Bindings
import SqlFragments.Value.Comparison
import SqlFragments.Value.Sequence

/-!
# Sessions

A session holds what rendering can change: the objects in the heap, what each fragment has already
rendered, the registry of dialects, the log, and a memory that belongs to the callables.

* `Session`, `Op`: the state, and operations on it. The state survives a failing operation.
* `Host`: who answers callables, and how deep fragments may be nested.
* **`Session.cacheOf_rememberText`**, **`Session.cacheOf_rememberValues`**: remembering changes what
  is kept for one fragment.
-/

namespace SqlFragments

/-- The texts that are kept for a fragment. -/
inductive TextKey where
  | text
  | sql
  | target (name : String)
  deriving DecidableEq, Repr

inductive GetterKey where
  | text (key : TextKey)
  | values
  deriving DecidableEq, Repr

namespace GetterKey

def label : GetterKey → String
  | text .text => "text"
  | text .sql => "sql"
  | text (.target name) => "compile:" ++ name
  | values => "values"

end GetterKey

structure Cache where
  texts : Table TextKey String
  values : Option (List Bound)

def Cache.empty : Cache := ⟨.empty, none⟩

inductive LogRecord where
  | rendering (key : GetterKey) (fragment : String)
  | builtFromTemplate (slots : Nat)
  deriving DecidableEq, Repr

def LogRecord.message : LogRecord → String
  | rendering key fragment => "Rendering " ++ key.label ++ " for " ++ fragment
  | builtFromTemplate slots =>
    "Built fragment from template with " ++ toString slots ++ " slots"

structure Session (ω : Type) where
  heap : Heap
  /-- What has been rendered, by the identity of the fragment. -/
  caches : Table Nat Cache
  registry : Registry
  log : Array LogRecord
  /-- The identity that the next object other than a fragment gets. -/
  fresh : Nat
  /-- The identity that the next fragment gets. -/
  freshFragment : Nat
  memory : ω

/-- An operation on a session. -/
abbrev Op (ω : Type) := EStateM Failure (Session ω)

structure Host (ω : Type) where
  call : Callable → Fragment → Op ω Value
  depth : Nat

variable {ω : Type}

def Host.environment (host : Host ω) : Environment (Session ω) where
  elements s r := s.heap.elements r
  call := host.call
  depth := host.depth

namespace Session

/-- Identities below this one belong to objects that every session knows. -/
def firstFresh : Nat := 16

def initial (memory : ω) : Session ω := ⟨.empty, .empty, .initial, #[], firstFresh, 0, memory⟩

/-! ## What is kept for a fragment -/

def cacheOf (s : Session ω) (f : Fragment) : Cache := (s.caches.get? f.id).getD .empty

def putCache (s : Session ω) (f : Fragment) (c : Cache) : Session ω :=
  { s with caches := s.caches.insert f.id c }

def rememberText (s : Session ω) (f : Fragment) (key : TextKey) (text : String) : Session ω :=
  let c := s.cacheOf f
  s.putCache f { c with texts := c.texts.insert key text }

def rememberValues (s : Session ω) (f : Fragment) (values : List Bound) : Session ω :=
  s.putCache f { s.cacheOf f with values := some values }

theorem cacheOf_putCache (s : Session ω) (f g : Fragment) (c : Cache) :
    (s.putCache f c).cacheOf g = if f.id = g.id then c else s.cacheOf g := by
  unfold cacheOf putCache
  simp only [Table.get?_insert]
  split <;> rfl

theorem cacheOf_rememberText (s : Session ω) (f g : Fragment) (key : TextKey) (text : String) :
    (s.rememberText f key text).cacheOf g =
      if f.id = g.id then { s.cacheOf f with texts := (s.cacheOf f).texts.insert key text }
      else s.cacheOf g :=
  cacheOf_putCache s f g _

theorem cacheOf_rememberValues (s : Session ω) (f g : Fragment) (values : List Bound) :
    (s.rememberValues f values).cacheOf g =
      if f.id = g.id then { s.cacheOf f with values := some values } else s.cacheOf g :=
  cacheOf_putCache s f g _

def record (s : Session ω) (r : LogRecord) : Session ω := { s with log := s.log.push r }

end Session

/-! ## Objects -/

def freshId : Op ω Nat :=
  modifyGet fun s => (s.fresh, { s with fresh := s.fresh + 1 })

def freshFragmentId : Op ω Nat :=
  modifyGet fun s => (s.freshFragment, { s with freshFragment := s.freshFragment + 1 })

def newListRef (items : List Value) : Op ω ListRef :=
  modifyGet fun s => (s.heap.nextRef, { s with heap := s.heap.allocate items })

/-- A new list object. -/
def newList (items : List Value) : Op ω Value := do
  let r ← newListRef items
  pure (.list r)

def appendTo (r : ListRef) (v : Value) : Op ω Unit :=
  modify fun s => { s with heap := s.heap.append r v }

def putEntries : List (Value × Value) → List (Value × Value) → Op ω (List (Value × Value))
  | entries, [] => pure entries
  | entries, (key, v) :: rest => do
    if key.isHashable then putEntries (Value.putEntry (← get).heap key v entries) rest
    else throw (.notHashable key)

/-- A dictionary from entries in the order in which they are put. -/
def newDict (entries : List (Value × Value)) : Op ω Value := do
  let es ← putEntries [] entries
  pure (.dict es)

/-- The item of a sequence at an index; a negative index counts from the end. -/
def itemAt (v : Value) (index : Int) : Op ω Value := do
  match v.sequenceItems? (← get).heap with
  | none => throw (.notIterable v)
  | some items =>
    let k := if index < 0 then index + items.length else index
    match if k < 0 then none else items[k.toNat]? with
    | some item => pure item
    | none => throw (.outOfRange index)

/-- A counter that starts at `v`. -/
def newCounter (v : Value) : Op ω Value :=
  modifyGet fun s =>
    (.counter s.heap.counters.size,
      { s with heap := { s.heap with counters := s.heap.counters.push v } })

/-- Advances a counter and gives its new value. -/
def advanceCounter (i : Nat) : Op ω Value := do
  let s ← get
  match s.heap.counterValue i with
  | .number n => do
    let next := Value.number n.succ
    set { s with heap := { s.heap with counters := s.heap.counters.setIfInBounds i next } }
    pure next
  | v => throw (.notANumber v)

end SqlFragments
