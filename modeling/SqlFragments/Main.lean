import SqlFragments.People.CommandLine

/-!
# The program

Prints the statements of the walkthrough for a target.
-/

namespace SqlFragments

/-- Nesting of fragments beyond this depth is refused. -/
def nestingLimit : Nat := 1000

/-- Answers the callable of the walkthrough. -/
def peopleHost (people : People) : Host Unit where
  call c owner :=
    if c = people.condition.callable then people.condition.answer owner
    else throw (.noAttribute (.callable c) "answer")
  depth := nestingLimit

def printReport (target : String) (verbose : Bool) : IO UInt32 := do
  let run : Op Unit (List String) := do
    let people ← People.build
    CommandLine.report (peopleHost people) target people
  match run.run (Session.initial ()) with
  | .ok lines s =>
    if verbose then
      for r in s.log do
        IO.eprintln r.message
    for line in lines do
      IO.println line
    pure 0
  | .error e _ =>
    IO.eprintln e.message
    pure 1

end SqlFragments

open SqlFragments

def main (args : List String) : IO UInt32 :=
  match CommandLine.parse args with
  | .print target verbose => printReport target verbose
  | .help => do
    IO.println "usage: people [--target TARGET] [--verbose]"
    pure 0
  | .misuse message => do
    IO.eprintln message
    pure 2
