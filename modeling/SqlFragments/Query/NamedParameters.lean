import SqlFragments.Session.Getters
import SqlFragments.Text.WordChar

/-!
# Named parameters

A parameter in a statement is a colon followed by a word. No colon, backslash or word character may
stand before the colon, and no colon after the word.

* `namesIn`: the parameters of a statement, from left to right, for a choice of the characters that
  may not follow. `parameterNames`: the usual choice.
* `Clause.bind`: binds values to `param_1`, `param_2`, …; a parameter that the statement does not
  have is refused. **`Clause.names_bindOne`**: binding keeps the parameters.
* `Fragment.toClause`: a fragment compiled for the target `named`, with its values bound.
-/

namespace SqlFragments

/-- Whether a colon after `c` starts no parameter. -/
def blocksParameter (c : Char) : Bool := c == ':' || c == '\\' || isWordChar c

/-- The longest word at the start of the text that is not followed as `stops` says. -/
def wordAtStart (stops : Char → Bool) : List Char → Option (List Char)
  | [] => none
  | c :: rest =>
    if isWordChar c then
      match wordAtStart stops rest with
      | some word => some (c :: word)
      | none => if rest.head?.any stops then none else some [c]
    else none

/-- The parameters in the rest of a statement; `previous` is the character before it. A word has no
colon in it, so that no parameter begins inside another one. -/
def namesAfter (stops : Char → Bool) (previous : Option Char) : List Char → List String
  | [] => []
  | c :: rest =>
    let more := namesAfter stops (some c) rest
    if c = ':' ∧ ¬ previous.any blocksParameter then
      match wordAtStart stops rest with
      | some word => String.ofList word :: more
      | none => more
    else more

/-- The parameters of a statement, where no character as `stops` says may follow a word. -/
def namesIn (stops : Char → Bool) (text : String) : List String :=
  namesAfter stops none text.toList

/-- The parameters of a statement: words in full, with no colon behind them. -/
def parameterNames (text : String) : List String :=
  namesIn (fun c => c == ':' || isWordChar c) text

namespace Clause

/-- A statement with its parameters, sorted by name and bound to nothing. -/
def unbound (names : List String) (text : String) : Clause :=
  ⟨text, (names.eraseDups.mergeSort (· ≤ ·)).map fun name => (name, .null)⟩

def bindOne (c : Clause) (name : String) (v : Value) : Except Failure Clause :=
  if c.parameters.any (·.1 == name) then
    .ok { c with parameters := c.parameters.map fun p => if p.1 = name then (name, v) else p }
  else .error (.undefinedParameter name)

/-- Binds values to the parameters from ordinal `k` on. -/
def bindFrom (c : Clause) : Nat → List Value → Except Failure Clause
  | _, [] => .ok c
  | k, v :: rest =>
    match c.bindOne (parameterName (toString k)) v with
    | .ok c => bindFrom c (k + 1) rest
    | .error e => .error e

/-- A statement with these parameters, and values for `param_1`, `param_2`, … -/
def bind (names : List String) (text : String) (values : List Value) : Except Failure Clause :=
  (unbound names text).bindFrom 1 values

theorem names_bindOne {c c' : Clause} {name : String} {v : Value} (h : c.bindOne name v = .ok c') :
    c'.parameters.map Prod.fst = c.parameters.map Prod.fst := by
  unfold bindOne at h
  split at h
  · cases h
    simp only [List.map_map]
    refine List.map_congr_left fun p _ => ?_
    by_cases hp : p.1 = name <;> simp [hp]
  · cases h

end Clause

variable {ω : Type}

/-- A clause, unless a parameter was refused. -/
def Clause.orRefused : Except Failure Clause → Op ω Clause
  | .ok c => pure c
  | .error e => throw e

/-- The target whose placeholders are named parameters. -/
def namedTarget : Value := .str Dialect.named.name

/-- A fragment as a statement with named parameters and their values. Which parameters the statement
has is for `names` to say. -/
def Fragment.toClauseWith (names : String → List String) (host : Host ω) (f : Fragment) :
    Op ω Clause := do
  let (text, params) ← f.render host namedTarget
  Clause.orRefused (Clause.bind (names text) text ((← get).heap.elements params))

/-- A fragment as a statement with named parameters and their values. -/
def Fragment.toClause (host : Host ω) (f : Fragment) : Op ω Clause :=
  f.toClauseWith parameterNames host

end SqlFragments
