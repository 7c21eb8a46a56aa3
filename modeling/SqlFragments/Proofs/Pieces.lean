import SqlFragments.Proofs.Alike

/-!
# The pieces of a fragment

A walk that only notes what it meets gives the pieces of a fragment. A statement whose placeholders
can all be written, and the bound values, are functions of the pieces: whatever surrounds the pass,
both take the same course.

* `Fragment.pieces`: the pieces from left to right.
* `boundValues`, `marks`, `spell`: the values among pieces, and the text that they stand for.
* **`placeholders_marks`**: the placeholders carry the ordinals one, two, … from left to right.
* **`Fragment.walk_eq_pieces`**: a visitor that never fails folds over the pieces.
* **`Fragment.statement_eq_pieces`**, **`Fragment.bindings_eq_pieces`**.
-/

namespace SqlFragments

variable {σ β : Type}

/-- Notes a piece behind those before it. -/
def notePiece (p : Piece) (ps : List Piece) : Pass σ (List Piece) := pure (ps ++ [p])

theorem foldl_noted (ps qs : List Piece) : ps.foldl (fun b p => b ++ [p]) qs = qs ++ ps := by
  induction ps generalizing qs with
  | nil => exact (List.append_nil qs).symm
  | cons p ps ih => rw [List.foldl_cons, ih, ← List.append_cons]

/-- The pieces of a fragment nested at most `depth` deep. -/
def Fragment.pieces (env : Environment σ) (depth : Nat) (f : Fragment) : Pass σ (List Piece) :=
  f.walk env notePiece depth []

/-! ## Values and text -/

def Piece.bound? : Piece → Option Bound
  | literal _ => none
  | bound b => some b

def boundValues (ps : List Piece) : List Bound := ps.filterMap Piece.bound?

@[simp] theorem boundValues_nil : boundValues [] = [] := rfl

@[simp] theorem boundValues_literal (s : String) (ps : List Piece) :
    boundValues (.literal s :: ps) = boundValues ps := rfl

@[simp] theorem boundValues_bound (b : Bound) (ps : List Piece) :
    boundValues (.bound b :: ps) = b :: boundValues ps := rfl

/-- A stretch of statement text. -/
inductive Mark where
  | literal (text : String)
  | placeholder (token : String)
  deriving DecidableEq, Repr

namespace Mark

def text : Mark → String
  | literal s | placeholder s => s

def token? : Mark → Option String
  | literal _ => none
  | placeholder s => some s

end Mark

/-- Pieces as text: a literal as it is, the bound values as placeholders from ordinal `k` on. -/
def marks (token : Nat → String) : Nat → List Piece → List Mark
  | _, [] => []
  | k, .literal s :: ps => .literal s :: marks token k ps
  | k, .bound _ :: ps => .placeholder (token k) :: marks token (k + 1) ps

def spell (token : Nat → String) (k : Nat) (ps : List Piece) : String :=
  String.join ((marks token k ps).map Mark.text)

/-- **The placeholders carry consecutive ordinals**, one for each bound value. -/
theorem placeholders_marks (token : Nat → String) (k : Nat) (ps : List Piece) :
    (marks token k ps).filterMap Mark.token? =
      (List.range' k (boundValues ps).length).map token := by
  induction ps generalizing k with
  | nil => rfl
  | cons p ps ih =>
    cases p with
    | literal s => exact ih k
    | bound b =>
      rw [boundValues_bound, List.length_cons, List.range'_succ, List.map_cons, ← ih (k + 1)]
      rfl

section Spell

variable (token : Nat → String) (k : Nat) (ps : List Piece)

theorem spell_nil : spell token k [] = "" := rfl

theorem spell_literal (s : String) : spell token k (.literal s :: ps) = s ++ spell token k ps := by
  simp [spell, marks, Mark.text, String.join_cons]

theorem spell_bound (b : Bound) :
    spell token k (.bound b :: ps) = token k ++ spell token (k + 1) ps := by
  simp [spell, marks, Mark.text, String.join_cons]

end Spell

theorem spell_append (token : Nat → String) (k : Nat) (ps qs : List Piece) :
    spell token k (ps ++ qs) =
      spell token k ps ++ spell token (k + (boundValues ps).length) qs := by
  induction ps generalizing k with
  | nil => simp [spell_nil, boundValues]
  | cons p ps ih =>
    cases p with
    | literal s => rw [List.cons_append, spell_literal, spell_literal, ih, String.append_assoc]; rfl
    | bound b =>
      rw [List.cons_append, spell_bound, spell_bound, ih, String.append_assoc, boundValues_bound,
        List.length_cons, Nat.add_assoc, Nat.add_comm 1]

/-! ## Visitors that never fail -/

theorem walksAlike_refl (env : Environment σ) : WalksAlike env env Eq Eq Eq := by
  refine .of_eq (fun _ _ => id) fun f _ v _ => (Lockstep.refl _).mono ?_
  rintro x _ rfl
  exact Content.alike_self (fun _ _ => rfl) (fun _ _ => rfl) fun _ => rfl

namespace Fragment

/-- **A visitor that never fails folds over the pieces.** -/
theorem walk_eq_pieces (env : Environment σ) {visit : Piece → β → Pass σ β}
    {step : β → Piece → β} (hvisit : ∀ p b, visit p b = pure (step b p)) (n : Nat) (f : Fragment)
    (b : β) : f.walk env visit n b = (fun ps => ps.foldl step b) <$> f.pieces env n := by
  have hstep : ∀ p c ps, c = List.foldl step b ps →
      Lockstep Eq (fun c ps => c = List.foldl step b ps) (visit p c)
        (notePiece (σ := σ) p ps) := by
    rintro p _ ps rfl
    rw [hvisit]
    exact .pure (by rw [List.foldl_append]; rfl)
  refine Lockstep.eq_map (f.walk_lockstep (walksAlike_refl env) ⟨?_, ?_⟩ n rfl rfl)
  · exact fun s c ps h => hstep _ c ps h
  · rintro x _ c ps rfl h
    exact hstep _ c ps h

end Fragment

/-! ## The two passes -/

/-- The dialect writes `token k` for every ordinal `k` from one on. -/
def Dialect.Writes (d : Dialect) (token : Nat → String) : Prop :=
  ∀ k : Nat, 1 ≤ k → d.placeholder (.int k) = .ok (token k)

theorem Dialect.writes_of_shape {d : Dialect} {shape : TokenShape} (h : d.render = shape.render) :
    d.Writes fun k => shape.token (.int k) := by
  intro k hk
  rw [d.placeholder_int (Int.ofNat_le.mpr hk), h]
  rfl

theorem Dialect.writes_postgres :
    Dialect.postgres.Writes fun k => (TokenShape.around "$" "").token (.int k) :=
  Dialect.writes_of_shape rfl

theorem Dialect.writes_mysql :
    Dialect.mysql.Writes fun k => (TokenShape.constant "?").token (.int k) :=
  Dialect.writes_of_shape rfl

theorem Dialect.writes_sqlite :
    Dialect.sqlite.Writes fun k => (TokenShape.constant "?").token (.int k) :=
  Dialect.writes_of_shape rfl

section Passes

variable {d : Dialect} {token : Nat → String}

theorem writePlaceholder_of_writes (h : d.Writes token) (k : Nat) :
    writePlaceholder (σ := σ) d k = pure (token (k + 1), k + 1) := by
  have hk := h (k + 1) (Nat.le_add_left 1 k)
  rw [Int.natCast_succ] at hk
  rw [writePlaceholder, hk]

/-- Adds a piece to text after which `k` ordinals are used. -/
def addPiece (token : Nat → String) : String × Nat → Piece → String × Nat
  | (text, k), .literal s => (text ++ s, k)
  | (text, k), .bound _ => (text ++ token (k + 1), k + 1)

theorem writePiece_of_writes (h : d.Writes token) (p : Piece) (x : String × Nat) :
    writePiece (σ := σ) d p x = pure (addPiece token x p) := by
  obtain ⟨text, k⟩ := x
  cases p with
  | literal s => rfl
  | bound b => rw [writePiece, writePlaceholder_of_writes h, pure_bind, addPiece]

theorem foldl_addPiece (text : String) (k : Nat) (ps : List Piece) :
    ps.foldl (addPiece token) (text, k) =
      (text ++ spell token (k + 1) ps, k + (boundValues ps).length) := by
  induction ps generalizing text k with
  | nil => simp [spell_nil]
  | cons p ps ih =>
    cases p with
    | literal s =>
      rw [List.foldl_cons, addPiece, ih, spell_literal, String.append_assoc, boundValues_literal]
    | bound b =>
      have hk : k + 1 + (boundValues ps).length = k + (boundValues (.bound b :: ps)).length := by
        rw [boundValues_bound, List.length_cons]
        omega
      rw [List.foldl_cons, addPiece, ih, spell_bound, String.append_assoc, hk]

theorem foldl_keepBound (bs : List Bound) (ps : List Piece) :
    ps.foldl (fun bs p => bs ++ p.bound?.toList) bs = bs ++ boundValues ps := by
  induction ps generalizing bs with
  | nil => simp
  | cons p ps ih =>
    rw [List.foldl_cons, ih]
    cases p <;> simp [Piece.bound?]

namespace Fragment

/-- **The statement is spelled from the pieces.** -/
theorem statement_eq_pieces (env : Environment σ) (h : d.Writes token) (f : Fragment) :
    f.statement env d = (fun ps => dropNewlines (spell token 1 ps)) <$> f.pieces env env.depth := by
  rw [statement, write_eq_walk, walk_eq_pieces env (writePiece_of_writes h)]
  simp [foldl_addPiece]

/-- **The bound values are those among the pieces.** -/
theorem bindings_eq_pieces (env : Environment σ) (f : Fragment) :
    f.bindings env = boundValues <$> f.pieces env env.depth := by
  have hvisit : ∀ p bs, keepBound (σ := σ) p bs = pure (bs ++ p.bound?.toList) := by
    intro p bs
    cases p <;> simp [keepBound, Piece.bound?]
  rw [bindings, collect_eq_walk, walk_eq_pieces env hvisit]
  exact congrArg (· <$> _) (funext (foldl_keepBound []))

end Fragment

end Passes

end SqlFragments
