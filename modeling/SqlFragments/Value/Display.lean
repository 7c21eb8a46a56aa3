import SqlFragments.Text.Quoted
import SqlFragments.Value.Heap

/-!
# How values are shown

Messages and log records show values: text between quotes, sequences between brackets, a fragment by
its segments, the number of its slots, its delimiter and its name. Showing a value renders nothing.

* `Fragment.shown`, `Value.shown`.
-/

namespace SqlFragments

def commaList (items : List String) : String := ", ".intercalate items

def bracketList (items : List String) : String := "[" ++ commaList items ++ "]"

/-- A single item is followed by a comma. -/
def parenList : List String → String
  | [item] => "(" ++ item ++ ",)"
  | items => "(" ++ commaList items ++ ")"

def shownName : Option String → String
  | none => "None"
  | some s => quoted s

namespace Fragment

def shownSegments (f : Fragment) : String :=
  if f.marked then "Segments(" ++ bracketList (f.segments.map quoted) ++ ")"
  else parenList (f.segments.map quoted)

/-- Segments in full, slots by their number. -/
def shown (f : Fragment) : String :=
  "Fragment(segments=" ++ f.shownSegments ++ ", slots=" ++ toString f.slots.length ++
    ", delimiter=" ++ quoted f.delimiter ++ ", name=" ++ shownName f.name ++ ")"

end Fragment

/-- Nesting beyond this depth is shown as an ellipsis. -/
def displayDepth : Nat := 10000

namespace Value

def shownAt (h : Heap) : Nat → Value → String
  | 0, _ => "..."
  | n + 1, v =>
    match v with
    | .null => "None"
    | .number x => x.text
    | .str s => quoted s
    | .bytes b => quotedBytes b
    | .byteArray b => quotedByteArray b
    | .list r => bracketList ((h.elements r).map (shownAt h n))
    | .tuple items => parenList (items.map (shownAt h n))
    | .segments items => "Segments(" ++ bracketList (items.map (shownAt h n)) ++ ")"
    | .deque items => "deque(" ++ bracketList (items.map (shownAt h n)) ++ ")"
    | .range stop => "range(0, " ++ toString stop ++ ")"
    | .dict entries =>
      "\x7b" ++ commaList (entries.map fun e => shownAt h n e.1 ++ ": " ++ shownAt h n e.2) ++
        "\x7d"
    | .skip => "SKIP"
    | .fragment f => f.shown
    | .callable c => "<Fn " ++ c.name ++ ">"
    | .template _ => "<Template>"
    | .foreign _ name => "<Opaque " ++ name ++ ">"
    | .query q =>
      "CompiledQuery(sql=" ++ shownAt h n q.sql ++ ", params=" ++ shownAt h n q.params ++
        ", dialect=" ++ shownAt h n q.dialect ++ ", name=" ++ shownAt h n q.name ++ ")"
    | .profile p =>
      "BuilderProfile(join_delimiter=" ++ shownAt h n p.joinDelimiter ++ ", target=" ++
        shownAt h n p.target ++ ")"
    | .builder _ => "<Builder>"
    | .dialectClass c => "<class " ++ quoted c.title ++ ">"
    | .dialect d => d.origin.title ++ "()"
    | .counter i => "PlaceholderCounter(value=" ++ shownAt h n (h.counterValue i) ++ ")"
    | .clause _ => "<TextClause>"

def shown (h : Heap) (v : Value) : String := shownAt h displayDepth v

theorem shown_str (h : Heap) (s : String) : shown h (.str s) = quoted s := rfl

/-- The text of a value that renders nothing: a string stands for itself. -/
def plainText (h : Heap) : Value → String
  | .str s => s
  | .skip => "_SkipType.SKIP"
  | .profile p =>
    "join_delimiter=" ++ shown h p.joinDelimiter ++ " target=" ++ shown h p.target
  | v => shown h v

end Value

end SqlFragments
