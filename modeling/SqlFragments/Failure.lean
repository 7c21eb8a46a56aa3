import SqlFragments.Value.Display

/-!
# Causes of failure

Every way in which an operation can fail is a constructor; the wording is one function.

* `Argument`: the arguments that are checked, with what each of them should be.
* `Failure`, **`Failure.message`**: the causes and their text.
-/

namespace SqlFragments

/-- An argument that has to be of a certain kind. -/
inductive Argument where
  | segments
  | segment
  | slots
  | initialDelimiter
  | name
  | joinItems
  | delimiter
  | rawText
  | literalPieces
  | compiledFragment
  deriving DecidableEq, Repr

namespace Argument

def title : Argument → String
  | segments => "Fragment 1st argument (segments)"
  | segment => "Fragment segment"
  | slots => "Fragment 2nd argument (slots)"
  | initialDelimiter => "Fragment 3rd argument (delimiter)"
  | name => "Fragment name"
  | joinItems => "Fragment.join items"
  | delimiter => "Fragment delimiter"
  | rawText => "raw text"
  | literalPieces => "Segments"
  | compiledFragment => "Builder.compile fragment"

def expected : Argument → String
  | segments => "a sequence of strings"
  | slots | joinItems => "a sequence"
  | literalPieces => "an iterable of strings"
  | compiledFragment => "a Fragment"
  | segment | initialDelimiter | name | delimiter | rawText => "a string"

end Argument

/-- What is wrong with the fields of a profile. -/
inductive ProfileIssue where
  | notText (field : String)
  | unknownField (field : String)
  | keyNotText (key : Value)
  | notAProfile
  | frozen (field : String)

namespace ProfileIssue

def code : ProfileIssue → String
  | notText _ => "string_type"
  | unknownField _ => "extra_forbidden"
  | keyNotText _ => "invalid_key"
  | notAProfile => "model_type"
  | frozen _ => "frozen_instance"

/-- The field or key at fault. -/
def location : ProfileIssue → List Value
  | notText f | unknownField f | frozen f => [.str f]
  | keyNotText k => [k]
  | notAProfile => []

def message : ProfileIssue → String
  | notText _ => "Input should be a valid string"
  | unknownField _ => "Extra inputs are not permitted"
  | keyNotText _ => "Keys should be strings"
  | notAProfile => "Input should be a valid dictionary or instance of BuilderProfile"
  | frozen _ => "Instance is frozen"

end ProfileIssue

inductive Failure where
  /-- An argument of the wrong kind, with how it was shown at that moment. -/
  | invalidArgument (argument : Argument) (value : Value) (shown : String)
  /-- A template was given together with further values. -/
  | extraValues (values : List Value)
  | unsupportedTarget (target : Value) (shown : String) (registered : List String)
  | indexTooSmall (index : Number) (dialect : String)
  | invalidProfile (issues : List ProfileIssue)
  | frozenQuery (field : String)
  | undefinedParameter (name : String)
  | notIterable (v : Value)
  | notHashable (v : Value)
  | notANumber (v : Value)
  | abstractClass (title : String)
  | missingStatement
  | noAttribute (v : Value) (name : String)
  | outOfRange (index : Int)
  | raised (r : Raised)
  /-- Nesting is deeper than the limit of the session. -/
  | tooDeep

namespace Failure

def message : Failure → String
  | invalidArgument a v shown =>
    a.title ++ " should be " ++ a.expected ++ ", received: " ++ shown ++ " with type " ++
      v.typeName ++ "."
  | extraValues values =>
    "Template string call takes no extra values, received " ++ toString values.length ++ "."
  | unsupportedTarget _ shown registered =>
    "Unsupported dialect target: " ++ shown ++ ". Registered targets: " ++
      bracketList (registered.map quoted) ++ "."
  | indexTooSmall index _ =>
    "Placeholder index can't be less than 1, received: " ++ index.text ++ "."
  | invalidProfile issues => "\n".intercalate (issues.map ProfileIssue.message)
  | frozenQuery field => "cannot assign to field " ++ quoted field
  | undefinedParameter name =>
    "This text() construct doesn't define a bound parameter named " ++ quoted name
  | notIterable v => "a value of type " ++ v.typeName ++ " has no items"
  | notHashable v => "a value of type " ++ v.typeName ++ " can change and is no key"
  | notANumber v => "a value of type " ++ v.typeName ++ " is no number"
  | abstractClass title => "class " ++ title ++ " is abstract and has no objects"
  | missingStatement => "a compiled query needs its statement"
  | noAttribute v name =>
    "a value of type " ++ v.typeName ++ " has no " ++ name ++ " to use or change"
  | outOfRange index => "there is no item " ++ toString index
  | raised r => r.message
  | tooDeep => "nesting is too deep"

/-- What an argument of the wrong kind should have been. -/
def expected : Failure → String
  | invalidArgument a _ _ => a.expected
  | extraValues _ => "a single template"
  | _ => ""

/-- An argument of the wrong kind, shown as it is now. -/
def invalid (h : Heap) (a : Argument) (v : Value) : Failure := .invalidArgument a v (v.shown h)

def ofPlaceholder : PlaceholderError → Failure
  | .indexTooSmall index dialect => .indexTooSmall index dialect
  | .raised r => .raised r

end Failure

end SqlFragments
