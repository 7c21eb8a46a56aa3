import SqlFragments.Session.Basic

/-!
# Compiled queries

A compiled query holds a statement, its values, the target and the name of the fragment. Its fields
may be anything when it is made directly.

* `CompiledQuery.asTuple`, `CompiledQuery.asConfig`: the query for a driver of a database, with the
  values in a new list.
-/

namespace SqlFragments.CompiledQuery

variable {ω : Type}

/-- A query from its fields; those left out have defaults. -/
def make (sql params dialect name : Option Value) : Op ω CompiledQuery := do
  match sql with
  | none => throw .missingStatement
  | some sql => do
    let params ← match params with
      | some v => pure v
      | none => newList []
    let id ← freshId
    pure ⟨id, sql, params, dialect.getD (.str Dialect.postgres.name), name.getD .null⟩

/-- The values in a new list. -/
def paramsCopy (q : CompiledQuery) : Op ω Value := do
  match q.params.iterate? (← get).heap with
  | some items => newList items
  | none => throw (.notIterable q.params)

def asTuple (q : CompiledQuery) : Op ω Value := do
  let params ← q.paramsCopy
  pure (.tuple [q.sql, params])

/-- The name is left out of a statement without one. -/
def asConfig (q : CompiledQuery) : Op ω Value := do
  let params ← q.paramsCopy
  let named := match q.name with
    | .null => []
    | name => [(.str "name", name)]
  pure (.dict ([(.str "text", q.sql), (.str "values", params)] ++ named))

end SqlFragments.CompiledQuery
