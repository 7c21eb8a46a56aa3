import SqlFragments.Session.Basic

/-!
# Profiles

A profile has two fields, both text, with defaults. Fields are checked in that order; then every
unknown field is an issue.

* `Profile.checkFields`: the fields of a profile from named values.
* `Profile.make`, `Profile.ofValue`, `Profile.dump`, `Profile.copyWith`.

A copy takes its new fields as they come.
-/

namespace SqlFragments

variable {ω : Type}

namespace Profile

def joinDelimiterField : String := "join_delimiter"

def targetField : String := "target"

def defaultJoinDelimiter : Value := .str ","

def defaultTarget : Value := .str Dialect.postgres.name

/-- The profile that every session knows. -/
def standard : Profile := ⟨0, defaultJoinDelimiter, defaultTarget⟩

def textIssues (field : String) : Option Value → List ProfileIssue
  | none | some (.str _) => []
  | some _ => [.notText field]

def unknownIssue : Value × Value → List ProfileIssue
  | (.str field, _) =>
    if field = joinDelimiterField ∨ field = targetField then [] else [.unknownField field]
  | (key, _) => [.keyNotText key]

/-- The value given for a field. -/
def field? (name : String) : List (Value × Value) → Option Value
  | [] => none
  | (.str s, v) :: rest => if s = name then some v else field? name rest
  | _ :: rest => field? name rest

/-- The two fields, or all that is wrong with them. -/
def checkFields (entries : List (Value × Value)) : Except (List ProfileIssue) (Value × Value) :=
  let joinDelimiter := field? joinDelimiterField entries
  let target := field? targetField entries
  let issues := textIssues joinDelimiterField joinDelimiter ++ textIssues targetField target ++
    entries.flatMap unknownIssue
  if issues.isEmpty then
    .ok (joinDelimiter.getD defaultJoinDelimiter, target.getD defaultTarget)
  else .error issues

def ofEntries (entries : List (Value × Value)) : Op ω Profile :=
  match checkFields entries with
  | .error issues => throw (.invalidProfile issues)
  | .ok (joinDelimiter, target) => do
    let id ← freshId
    pure ⟨id, joinDelimiter, target⟩

/-- A profile from fields given by name; of a repeated name the last value counts. -/
def make (fields : List (String × Value)) : Op ω Profile :=
  ofEntries ((Table.ofList fields).entries.map fun e => (.str e.1, e.2))

/-- A profile from a dictionary of fields, or the profile itself. -/
def ofValue : Value → Op ω Profile
  | .profile p => pure p
  | .dict entries => ofEntries entries
  | _ => throw (.invalidProfile [.notAProfile])

def dump (p : Profile) : Value :=
  .dict [(.str joinDelimiterField, p.joinDelimiter), (.str targetField, p.target)]

/-- A new profile with some fields replaced, unchecked. -/
def copyWith (p : Profile) (fields : List (String × Value)) : Op ω Profile := do
  let id ← freshId
  let t := Table.ofList fields
  pure ⟨id, (t.get? joinDelimiterField).getD p.joinDelimiter, (t.get? targetField).getD p.target⟩

end Profile

end SqlFragments
