import SqlFragments.Fragment.Bindings
import SqlFragments.Fragment.Statement
import SqlFragments.Proofs.Lockstep

/-!
# The walk over a fragment

Writing the text and collecting the values are one walk: both meet the same pieces in the same
order, and differ in what they do with a piece.

* `Piece`: literal text or a bound value; `Content`: what a slot holds once it is resolved and its
  sequence is split into runs.
* `Fragment.walk`: goes through a fragment from left to right and visits its pieces.
* **`Fragment.write_eq_walk`**, **`Fragment.collect_eq_walk`**: the text and the values as walks.
-/

namespace SqlFragments

variable {σ β : Type}

inductive Piece where
  | literal (text : String)
  | bound (b : Bound)

/-- What a slot holds once nothing is left to ask. -/
inductive Content where
  | fragment (g : Fragment)
  | runs (rs : List Run)
  | scalar (v : Value)
  | skip

def Content.kind : Content → SlotKind
  | fragment _ => .fragment
  | runs _ => .sequence
  | scalar _ => .scalar
  | skip => .skip

section Settle

variable (env : Environment σ) (owner : Fragment)

def settleResolved : Resolved → Pass σ Content
  | .fragment g => pure (.fragment g)
  | .sequence s => do
    let rs ← sequenceRuns env owner s
    pure (.runs rs)
  | .scalar v => pure (.scalar v)
  | .skip => pure .skip

/-- Resolves a slot of `owner`, and the elements of a sequence in it. -/
def settle (v : Value) : Pass σ Content := do
  let r ← resolve env owner v
  settleResolved env owner r

end Settle

section Walk

variable (env : Environment σ) (visit : Piece → β → Pass σ β) (owner : Fragment)
  (nested : Fragment → β → Pass σ β)

def walkDelimiter (stands : Bool) (b : β) : Pass σ β :=
  if stands then visit (.literal owner.delimiter) b else pure b

def walkRuns : List Run → β → Pass σ β
  | [], b => pure b
  | .group vs :: rest, b => do
    let b ← visit (.bound (.group vs)) b
    walkRuns rest b
  | .fragment g adjacent :: rest, b => do
    let b ← walkDelimiter visit owner adjacent b
    let b ← nested g b
    walkRuns rest b

def walkContent : Content → β → Pass σ β
  | .fragment g, b => nested g b
  | .runs rs, b => walkRuns visit owner nested rs b
  | .scalar v, b => visit (.bound (.scalar v)) b
  | .skip, b => pure b

/-- The kind of the last result once a slot of the given kind is done. -/
def kindAfter (previous : Option SlotKind) (kind : SlotKind) : Option SlotKind :=
  if kind = .skip then previous else some kind

/-- `previous` is the kind of the last result, if no text has been met since. -/
def walkGaps : List (String × Option Value) → Option SlotKind → β → Pass σ β
  | [], _, b => pure b
  | (literal, none) :: rest, previous, b => do
    let b ← visit (.literal literal) b
    walkGaps rest (if literal.isEmpty then previous else none) b
  | (literal, some v) :: rest, previous, b => do
    let b ← visit (.literal literal) b
    let previous := if literal.isEmpty then previous else none
    let c ← settle env owner v
    let b ← walkDelimiter visit owner (c.kind != .skip && owner.separates previous c.kind) b
    let b ← walkContent visit owner nested c b
    walkGaps rest (kindAfter previous c.kind) b

end Walk

/-- Visits the pieces of a fragment nested at most `depth` deep. -/
def Fragment.walk (env : Environment σ) (visit : Piece → β → Pass σ β) :
    (depth : Nat) → Fragment → β → Pass σ β
  | 0, _, _ => throw .tooDeep
  | n + 1, f, b => walkGaps env visit f (Fragment.walk env visit n) f.gaps none b

/-! ## Writing the text -/

section Write

variable (env : Environment σ) (d : Dialect) (owner : Fragment)

/-- Adds a piece to the text, a bound value as the next placeholder. -/
def writePiece : Piece → String × Nat → Pass σ (String × Nat)
  | .literal s, (text, k) => pure (text ++ s, k)
  | .bound _, (text, k) => do
    let (token, k) ← writePlaceholder d k
    pure (text ++ token, k)

/-- What is written, behind text that stands already. -/
def writtenAfter (text : String) : String × Nat → String × Nat := fun x => (text ++ x.1, x.2)

theorem writtenAfter_eq (text : String) :
    writtenAfter text = fun x => (text ++ x.1, x.2) := rfl

theorem writtenAfter_empty : writtenAfter "" = id := by
  funext x
  simp [writtenAfter]

variable {nested : Fragment → Nat → Pass σ (String × Nat)}
  {nested' : Fragment → String × Nat → Pass σ (String × Nat)}

theorem walkDelimiter_writePiece (stands : Bool) (text : String) (k : Nat) :
    walkDelimiter (σ := σ) (writePiece d) owner stands (text, k) =
      pure (text ++ (if stands then owner.delimiter else ""), k) := by
  cases stands <;> simp [walkDelimiter, writePiece]

variable (h : ∀ g text k, nested' g (text, k) = writtenAfter text <$> nested g k)

include h

theorem walkRuns_writePiece (rs : List Run) (text : String) (k : Nat) :
    walkRuns (writePiece d) owner nested' rs (text, k) =
      writtenAfter text <$> writeRuns d owner nested rs k := by
  induction rs generalizing text k with
  | nil => simp [walkRuns, writeRuns, writtenAfter]
  | cons r rest ih =>
    cases r with
    | group vs =>
      simp [walkRuns, writeRuns, writePiece, ih, writtenAfter_eq, String.append_assoc]
    | fragment g adjacent =>
      rw [walkRuns, walkDelimiter_writePiece, pure_bind, h, writeRuns]
      simp [ih, writtenAfter_eq, String.append_assoc]

theorem walkGaps_writePiece (gaps : List (String × Option Value)) (previous : Option SlotKind)
    (text : String) (k : Nat) :
    walkGaps env (writePiece d) owner nested' gaps previous (text, k) =
      writtenAfter text <$> writeGaps env d owner nested gaps previous k := by
  induction gaps generalizing previous text k with
  | nil => simp [walkGaps, writeGaps, writtenAfter_eq]
  | cons gap rest ih =>
    obtain ⟨literal, _ | v⟩ := gap
    · simp [walkGaps, writeGaps, writePiece, ih, writtenAfter_eq, String.append_assoc]
    · simp only [walkGaps, writeGaps, writePiece, pure_bind, settle, bind_assoc, map_bind]
      refine bind_congr fun r => ?_
      cases r with
      | fragment g =>
        simp [settleResolved, Content.kind, Resolved.kind, kindAfter, walkDelimiter_writePiece,
          walkContent, writeResolved, h, ih, writtenAfter_eq, String.append_assoc]
      | sequence s =>
        simp [settleResolved, Content.kind, Resolved.kind, kindAfter, walkDelimiter_writePiece,
          walkContent, writeResolved, walkRuns_writePiece d owner h, ih, writtenAfter_eq,
          String.append_assoc]
      | scalar v =>
        simp [settleResolved, Content.kind, Resolved.kind, kindAfter, walkDelimiter_writePiece,
          walkContent, writePiece, writeResolved, h, ih, writtenAfter_eq, String.append_assoc]
      | skip =>
        simp [settleResolved, Content.kind, Resolved.kind, kindAfter, walkDelimiter_writePiece,
          walkContent, ih, writtenAfter_eq, String.append_assoc]

end Write

theorem Fragment.walk_writePiece (env : Environment σ) (d : Dialect) (n : Nat) (f : Fragment)
    (text : String) (k : Nat) :
    f.walk env (writePiece d) n (text, k) = writtenAfter text <$> f.write env d n k := by
  induction n generalizing f text k with
  | zero => rfl
  | succ n ih => exact walkGaps_writePiece env d f ih f.gaps none text k

/-- **Writing is a walk** that adds to the text. -/
theorem Fragment.write_eq_walk (env : Environment σ) (d : Dialect) (n : Nat) (f : Fragment)
    (k : Nat) : f.write env d n k = f.walk env (writePiece d) n ("", k) := by
  rw [f.walk_writePiece, writtenAfter_empty, id_map]

/-! ## Collecting the values -/

section Collect

variable (env : Environment σ) (owner : Fragment)

/-- Keeps the bound values. -/
def keepBound : Piece → List Bound → Pass σ (List Bound)
  | .literal _, bs => pure bs
  | .bound b, bs => pure (bs ++ [b])

theorem walkDelimiter_keepBound (stands : Bool) (bs : List Bound) :
    walkDelimiter (σ := σ) keepBound owner stands bs = pure bs := by
  cases stands <;> rfl

variable {nested : Fragment → Pass σ (List Bound)}
  {nested' : Fragment → List Bound → Pass σ (List Bound)}
  (h : ∀ g bs, nested' g bs = (bs ++ ·) <$> nested g)

include h

theorem walkRuns_keepBound (rs : List Run) (bs : List Bound) :
    walkRuns keepBound owner nested' rs bs = (bs ++ ·) <$> collectRuns nested rs := by
  induction rs generalizing bs with
  | nil => simp [walkRuns, collectRuns]
  | cons r rest ih =>
    cases r with
    | group vs => simp [walkRuns, collectRuns, keepBound, ih]
    | fragment g adjacent =>
      rw [walkRuns, walkDelimiter_keepBound, pure_bind, h, collectRuns]
      simp [ih]

theorem walkGaps_keepBound (gaps : List (String × Option Value)) (previous : Option SlotKind)
    (bs : List Bound) :
    walkGaps env keepBound owner nested' gaps previous bs =
      (bs ++ ·) <$> collectSlots env owner nested (gaps.filterMap Prod.snd) := by
  induction gaps generalizing previous bs with
  | nil => simp [walkGaps, collectSlots]
  | cons gap rest ih =>
    obtain ⟨literal, _ | v⟩ := gap
    · simp [walkGaps, keepBound, ih]
    · have hslots : ((literal, some v) :: rest).filterMap Prod.snd =
          v :: rest.filterMap Prod.snd := rfl
      rw [hslots, collectSlots]
      simp only [walkGaps, keepBound, pure_bind, settle, bind_assoc, map_bind]
      refine bind_congr fun r => ?_
      cases r with
      | fragment g =>
        simp [settleResolved, walkDelimiter_keepBound, walkContent, collectResolved, h, ih]
      | sequence s =>
        simp [settleResolved, walkDelimiter_keepBound, walkContent, collectResolved,
          walkRuns_keepBound owner h, ih]
      | scalar v =>
        simp [settleResolved, walkDelimiter_keepBound, walkContent, keepBound, collectResolved, ih]
      | skip => simp [settleResolved, walkDelimiter_keepBound, walkContent, collectResolved, ih]

end Collect

theorem Fragment.walk_keepBound (env : Environment σ) (n : Nat) (f : Fragment) (bs : List Bound) :
    f.walk env keepBound n bs = (bs ++ ·) <$> f.collect env n := by
  induction n generalizing f bs with
  | zero => rfl
  | succ n ih =>
    rw [Fragment.walk, walkGaps_keepBound env f ih, f.gaps_slots]
    rfl

/-- **Collecting is a walk** that keeps the bound values. -/
theorem Fragment.collect_eq_walk (env : Environment σ) (n : Nat) (f : Fragment) :
    f.collect env n = f.walk env keepBound n [] := by
  rw [f.walk_keepBound]
  simp

end SqlFragments
