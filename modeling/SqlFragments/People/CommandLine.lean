import SqlFragments.People.Statements

/-!
# The command line of the walkthrough

The command line names a target; the statements are printed for it, each with its values.

* `CommandLine.parse`: options may be shortened as long as one option is meant.
* `CommandLine.report`: the lines that are printed.
-/

namespace SqlFragments

variable {ω : Type}

namespace CommandLine

inductive Request where
  | print (target : String) (verbose : Bool)
  | help
  /-- What is wrong with the arguments. -/
  | misuse (message : String)
  deriving DecidableEq, Repr

def defaultTarget : String := Dialect.sqlite.name

inductive Flag where
  | target
  | verbose
  | help
  deriving DecidableEq, Repr

def longFlags : List (String × Flag) :=
  [("--target", .target), ("--verbose", .verbose), ("--help", .help)]

/-- The flag that a long option names, in full or by its beginning. -/
def longFlag? (option : String) : Option Flag :=
  match longFlags.find? (·.1 == option) with
  | some e => some e.2
  | none =>
    match longFlags.filter (fun e => option.toList.isPrefixOf e.1.toList) with
    | [e] => if 2 < option.length then some e.2 else none
    | _ => none

def isNegativeNumber (s : String) : Bool :=
  match s.toList with
  | '-' :: digits => !digits.isEmpty && digits.all fun c => c.isDigit || c == '.'
  | _ => false

/-- Whether an argument is an option rather than the value of one. -/
def isOption (s : String) : Bool :=
  s.startsWith "-" && s != "-" && !isNegativeNumber s && !s.toList.contains ' '

/-- Splits an option at its first equals sign. -/
def splitOption (s : String) : String × Option String :=
  let cs := s.toList
  match cs.dropWhile (· ≠ '=') with
  | [] => (s, none)
  | _ :: value => (String.ofList (cs.takeWhile (· ≠ '=')), some (String.ofList value))

def parseFrom (target : String) (verbose : Bool) : List String → Request
  | [] => .print target verbose
  | arg :: rest =>
    if arg = "-v" then parseFrom target true rest
    else if arg = "-h" then .help
    else
      let (option, value) := splitOption arg
      match longFlag? option, value with
      | some .help, none => .help
      | some .verbose, none => parseFrom target true rest
      | some .target, some value => parseFrom value verbose rest
      | some .target, none =>
        match rest with
        | value :: rest =>
          if isOption value then .misuse "argument --target: expected one argument"
          else parseFrom value verbose rest
        | [] => .misuse "argument --target: expected one argument"
      | some _, some value => .misuse ("ignored explicit argument " ++ quoted value)
      | none, _ => .misuse ("unrecognized arguments: " ++ arg)

def parse (args : List String) : Request := parseFrom defaultTarget false args

/-! ## Printing the statements -/

def trimSpaces (s : String) : String :=
  let front := s.toList.dropWhile Char.isWhitespace
  String.ofList (front.reverse.dropWhile Char.isWhitespace).reverse

/-- Two lines for one statement. -/
def statementLines (host : Host ω) (target : String) (label : String) (f : Fragment) :
    Op ω (List String) := do
  let (text, params) ← f.render host (.str target)
  let values := (Value.list params).shown (← get).heap
  pure ["[" ++ label ++ "] " ++ trimSpaces text, "[" ++ label ++ "] values: " ++ values]

def reportLines (host : Host ω) (target : String) : List (String × Fragment) → Op ω (List String)
  | [] => pure []
  | (label, f) :: rest => do
    let own ← statementLines host target label f
    let lines ← reportLines host target rest
    pure (own ++ lines)

def report (host : Host ω) (target : String) (people : People) : Op ω (List String) :=
  reportLines host target people.statements

end CommandLine

end SqlFragments
