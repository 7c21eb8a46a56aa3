import SqlFragments.Session.Basic

/-!
# Building fragments

Arguments are checked in order: segments, each segment, slots, delimiter, name. What a fragment is
made of is copied, so that growing the lists afterwards does not change it.

* `Fragment.parts`, `Fragment.joinParts`: the checks.
* `Fragment.make`, `Fragment.join`: a fragment from segments and slots, and one that lists items.
* `Fragment.joinBy`, `Fragment.setName`: the same fragment if nothing changes, else a new one.
* **`Fragment.joinParts_eq_ok`**: a joined fragment has one empty segment more than it has slots.
-/

namespace SqlFragments

/-- What a fragment is made of, without its identity. -/
structure FragmentParts where
  segments : List String
  marked : Bool
  slots : List Value
  delimiter : String
  name : Option String

def FragmentParts.toFragment (p : FragmentParts) (joined : Bool) (id : Nat) : Fragment :=
  ⟨id, p.segments, p.marked, p.slots, p.delimiter, p.name, joined⟩

variable {ω : Type}

namespace Fragment

/-! ## Checking arguments -/

def isMarked : Value → Bool
  | .segments _ => true
  | _ => false

def segmentsOf (h : Heap) (v : Value) : Except Failure (List String) :=
  match v.sequenceItems? h with
  | none => .error (.invalid h .segments v)
  | some items => (Value.strings items).mapError (.invalid h .segment)

def slotsOf (h : Heap) (v : Value) : Except Failure (List Value) :=
  match v.sequenceItems? h with
  | none => .error (.invalid h .slots v)
  | some items => .ok items

/-- A string in the place of argument `a`. -/
def textArgument (h : Heap) (a : Argument) : Value → Except Failure String
  | .str s => .ok s
  | v => .error (.invalid h a v)

def nameOf (h : Heap) : Value → Except Failure (Option String)
  | .null => .ok none
  | .str s => .ok (some s)
  | v => .error (.invalid h .name v)

/-- The first argument of the wrong kind decides the failure. -/
def parts (h : Heap) (segments slots delimiter name : Value) : Except Failure FragmentParts := do
  let ss ← segmentsOf h segments
  let vs ← slotsOf h slots
  let d ← textArgument h .initialDelimiter delimiter
  let n ← nameOf h name
  pure ⟨ss, isMarked segments, vs, d, n⟩

/-- Items are listed between empty segments. -/
def joinParts (h : Heap) (items delimiter : Value) : Except Failure FragmentParts :=
  match items.sequenceItems? h with
  | none => .error (.invalid h .joinItems items)
  | some vs =>
    parts h (.tuple (List.replicate (vs.length + 1) (.str ""))) (.tuple vs) delimiter .null

theorem segmentsOf_tuple (h : Heap) (ss : List String) :
    segmentsOf h (.tuple (ss.map .str)) = .ok ss := by
  change (Value.strings (ss.map .str)).mapError _ = _
  rw [Value.strings_map_str]
  rfl

theorem parts_tuples (h : Heap) (ss : List String) (vs : List Value) (d : String) :
    parts h (.tuple (ss.map .str)) (.tuple vs) (.str d) .null = .ok ⟨ss, false, vs, d, none⟩ := by
  rw [parts, segmentsOf_tuple]
  rfl

theorem joinParts_eq_ok {h : Heap} {items delimiter : Value} {p : FragmentParts}
    (hp : joinParts h items delimiter = .ok p) :
    p.segments = List.replicate (p.slots.length + 1) "" := by
  unfold joinParts at hp
  split at hp
  · cases hp
  · next vs _ =>
    rw [show List.replicate (vs.length + 1) (Value.str "") =
      (List.replicate (vs.length + 1) "").map .str by simp] at hp
    cases delimiter with
    | str d =>
      rw [parts_tuples] at hp
      cases hp
      rfl
    | _ =>
      rw [parts, segmentsOf_tuple] at hp
      cases hp

/-! ## Building -/

def ofParts (joined : Bool) : Except Failure FragmentParts → Op ω Fragment
  | .error e => throw e
  | .ok p => do
    let id ← freshFragmentId
    pure (p.toFragment joined id)

/-- A fragment from segments, slots, a delimiter and a name. -/
def make (segments slots delimiter name : Value) : Op ω Fragment := do
  let s ← get
  ofParts false (parts s.heap segments slots delimiter name)

/-- A fragment that lists items, each pair of neighbours separated by the delimiter. -/
def join (items delimiter : Value) : Op ω Fragment := do
  let s ← get
  ofParts true (joinParts s.heap items delimiter)

/-- The delimiter of joined items when none is given. -/
def defaultJoinDelimiter : Value := .str ","

/-! ## Changing one part -/

def joinBy (f : Fragment) (delimiter : Value) : Op ω Fragment := do
  match textArgument (← get).heap .delimiter delimiter with
  | .error e => throw e
  | .ok d =>
    if d = f.delimiter then pure f
    else do
      let id ← freshFragmentId
      pure { f with id := id, delimiter := d }

def setName (f : Fragment) (name : Value) : Op ω Fragment := do
  match textArgument (← get).heap .name name with
  | .error e => throw e
  | .ok n =>
    if some n = f.name then pure f
    else do
      let id ← freshFragmentId
      pure { f with id := id, name := some n }

end Fragment

end SqlFragments
