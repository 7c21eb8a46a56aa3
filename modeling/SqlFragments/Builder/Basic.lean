import SqlFragments.Builder.Profile
import SqlFragments.Builder.TemplateText
import SqlFragments.Fragment.Construction
import SqlFragments.Session.Getters

/-!
# Builders

A builder is called with any number of arguments. Literal pieces in front, or a template, make a
fragment whose slots lie between the pieces; anything else is listed, separated by the delimiter of
the profile.

* `Builder.make`: refuses a profile whose target is not registered.
* `Builder.call`: the two ways to build; `Builder.raw`: text as it is.
* `Builder.compile`: for a given target, or else for that of the profile.
* `tag`: a fragment from template text and the values of its slots.
-/

namespace SqlFragments

variable {ω : Type}

/-- Marks the items of anything that can be gone through, except text and bytes, as the literal
pieces of a template. -/
def literalItems (v : Value) : Op ω (List Value) := do
  let s ← get
  match v with
  | .str _ | .bytes _ => throw (.invalid s.heap .literalPieces v)
  | _ =>
    match v.iterate? s.heap with
    | some items => pure items
    | none => throw (.notIterable v)

/-- A fragment with slots between literal pieces. -/
def pieceFragment (pieces slots : List Value) : Op ω Fragment :=
  Fragment.make (.segments pieces) (.tuple slots) (.str "") .null

namespace Builder

/-- The builder that every session knows. -/
def standard : Builder := ⟨0, .standard⟩

/-- A builder for a profile; without one it takes the defaults. -/
def make (profile : Value) : Op ω Builder := do
  let p ← if profile.isFalsy (← get).heap then Profile.make [] else
    match profile with
    | .profile p => pure p
    | v => throw (.noAttribute v Profile.targetField)
  let _ ← createDialect p.target
  let id ← freshId
  pure ⟨id, p⟩

def ofTemplate (strings : Value) (slots : List Value) : Op ω Fragment := do
  let pieces ← literalItems strings
  modify (·.record (.builtFromTemplate slots.length))
  pieceFragment pieces slots

def call (b : Builder) : List Value → Op ω Fragment
  | .segments pieces :: slots => pieceFragment pieces slots
  | .template ⟨_, strings, some values⟩ :: rest =>
    if rest.isEmpty then ofTemplate strings values else throw (.extraValues rest)
  | args => Fragment.join (.tuple args) b.profile.joinDelimiter

/-- Text as it is, with no values. It is not escaped. -/
def raw (v : Value) : Op ω Fragment := do
  match v with
  | .str _ => Fragment.make (.tuple [v]) (.tuple []) (.str "") .null
  | _ => throw (.invalid (← get).heap .rawText v)

def compile (host : Host ω) (b : Builder) (fragment target : Value) : Op ω CompiledQuery := do
  let s ← get
  match fragment with
  | .fragment f => f.compile host (if target.isFalsy s.heap then b.profile.target else target)
  | v => throw (.invalid s.heap .compiledFragment v)

end Builder

/-- A fragment from template text and the values of its slots. -/
def tag (template : String) (values : List Value) : Op ω Fragment :=
  Builder.standard.call (.segments ((literalPieces template).map .str) :: values)

end SqlFragments
