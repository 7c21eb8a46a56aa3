import SqlFragments.Builder.Basic

/-!
# A walkthrough: people and their friends

Three statements about a table of people. The condition of two nested queries is one callable, which
answers by the query that asks.

* `People.build`: the statements, and the callable among their slots.
* `NameCondition.answer`: what the callable answers.
-/

namespace SqlFragments

variable {ω : Type}

/-- A callable that tells two queries apart. -/
structure NameCondition where
  callable : Callable
  first : Fragment
  second : Fragment

def NameCondition.answer (c : NameCondition) (owner : Fragment) : Op ω Value := do
  if owner.id = c.first.id then pure (.str "Andrew")
  else if owner.id = c.second.id then
    let f ← tag "\x7b\x7d OR name = \x7b\x7d" [.str "Peter", .str "Wendy"]
    pure (.fragment f)
  else pure .null

structure People where
  create : Fragment
  insert : Fragment
  select : Fragment
  condition : NameCondition

namespace People

def rows : List (String × Int) := [("Peter", 25), ("Wendy", 24), ("Andrew", 32)]

/-- One row between parentheses, its values separated by commas. -/
def rowFragment (row : String × Int) : Op ω Fragment := do
  let values ← Builder.standard.call [.str row.1, .int row.2]
  tag "(\x7b\x7d)" [.fragment values]

def createStatement (table : Fragment) : Op ω Fragment := do
  let name ← tag "name TEXT," []
  let age ← tag "age INTEGER" []
  let columns ← newList [.fragment name, .fragment age]
  tag "\n        CREATE TABLE IF NOT EXISTS \x7b\x7d(\x7b\x7d);\n    " [.fragment table, columns]

def rowFragments : List (String × Int) → Op ω (List Value)
  | [] => pure []
  | row :: rest => do
    let f ← rowFragment row
    let fs ← rowFragments rest
    pure (.fragment f :: fs)

def insertStatement (table : Fragment) : Op ω Fragment := do
  let fs ← rowFragments rows
  let all ← Builder.standard.call fs
  tag "\n        INSERT INTO \x7b\x7d VALUES \x7b\x7d\n    " [.fragment table, .fragment all]

def selectStatement (condition : NameCondition) : Op ω Fragment := do
  let me ← tag "me" []
  let friends ← tag "my_friends" []
  let f ← tag ("\n        WITH \x7b\x7d AS (\x7b\x7d), \x7b\x7d AS (\x7b\x7d)\n" ++
      "        SELECT name, (SELECT count(*) FROM \x7b\x7d) AS friend_count FROM \x7b\x7d\n    ")
    [.fragment me, .fragment condition.first, .fragment friends, .fragment condition.second,
      .fragment friends, .fragment me]
  f.setName (.str "friend_count")

def build : Op ω People := do
  let table ← tag "people" []
  let create ← createStatement table
  let insert ← insertStatement table
  let id ← freshId
  let callable : Callable := ⟨id, "name_condition"⟩
  let query := tag "SELECT * FROM people WHERE name = \x7b\x7d" [.callable callable]
  let first ← query
  let second ← query
  let condition : NameCondition := ⟨callable, first, second⟩
  let select ← selectStatement condition
  pure ⟨create, insert, select, condition⟩

/-- The statements with their labels, in the order in which they are run. -/
def statements (p : People) : List (String × Fragment) :=
  [("create", p.create), ("insert", p.insert), ("select", p.select)]

end People

end SqlFragments
