import SqlFragments.Proofs.Pieces
import SqlFragments.Proofs.Resolving

/-!
# Readings

A reading says what each list object holds and what each callable answers to the fragment that asks,
once and for all. Under a reading a pass is a function of the fragment. An environment follows a
reading if its list objects and callables do as the reading says, whatever else they change.

* `Reading`, `Reading.settle`: what a slot holds by a reading.
* `Reading.flatten`, `Reading.collect`, `Reading.pieces`: the passes by a reading alone.
* `Corresponds`: outcomes with related values, or with the same failure.
* `Gives`: a pass that comes to one outcome from every state of a set, and stays in it.
* `Environment.Follows`, `Reading.Closed`. `Value.StandsFor`: a callable may build its answer anew.
* **`Environment.Follows.walk_lockstep`**: the walk in such an environment and the walk by the
  reading alone.
* **`Environment.Follows.statement`**, **`Environment.Follows.bindings`**: the two passes in such an
  environment.
-/

namespace SqlFragments

variable {σ τ α β γ δ : Type}

/-- What a sequence holds, given what list objects hold. -/
def Sequence.items (elements : ListRef → List Value) : Sequence → List Value
  | list r => elements r
  | tuple vs | segments vs => vs

structure Reading where
  /-- What a list object holds. -/
  elements : ListRef → List Value
  /-- The answer of a callable to the fragment that owns the slot. -/
  answer : Callable → Fragment → Except Failure Value

/-- A pass that comes to `x` and leaves the state alone. -/
def resultOf (x : Except Failure α) (s : σ) : EStateM.Result Failure σ α :=
  match x with
  | .ok a => .ok a s
  | .error e => .error e s

/-- What a pass comes to, without the state. -/
def outcome (p : Pass σ α) (s : σ) : Except Failure α :=
  match p s with
  | .ok a _ => .ok a
  | .error e _ => .error e

theorem outcome_map (g : α → β) (p : Pass σ α) (s : σ) :
    outcome (g <$> p) s = g <$> outcome p s := by
  unfold outcome
  cases h : p s with
  | ok a s' =>
    rw [Pass.map_ok h]
    rfl
  | error e s' =>
    rw [Pass.map_error h]
    rfl

theorem outcome_bind (p : Pass σ α) (f : α → Pass σ β) (s : σ) :
    outcome (p >>= f) s =
      match p s with
      | .ok a s' => outcome (f a) s'
      | .error e _ => .error e := by
  unfold outcome
  cases hp : p s with
  | ok a s' => rw [Pass.bind_ok hp]
  | error e s' => rw [Pass.bind_error hp]

theorem bind_eq_ok_iff {x : Except Failure α} {f : α → Except Failure β} {b : β} :
    (x >>= f) = .ok b ↔ ∃ a, x = .ok a ∧ f a = .ok b := by
  cases x with
  | ok a =>
    refine ⟨fun h => ⟨a, rfl, h⟩, ?_⟩
    rintro ⟨_, ha, h⟩
    cases ha
    exact h
  | error e =>
    refine ⟨?_, ?_⟩
    · intro h
      cases h
    · rintro ⟨_, ha, -⟩
      cases ha

theorem map_eq_ok_iff {x : Except Failure α} {g : α → β} {b : β} :
    g <$> x = .ok b ↔ ∃ a, x = .ok a ∧ g a = b := by
  cases x with
  | ok a => simp [Functor.map, Except.map]
  | error e => simp [Functor.map, Except.map]

theorem outcome_eq_ok_iff {p : Pass σ α} {s : σ} {a : α} :
    outcome p s = .ok a ↔ ∃ s', p s = .ok a s' := by
  unfold outcome
  cases p s with
  | ok a' s' => simp
  | error e s' => simp

namespace Reading

variable (A : Reading) (owner : Fragment)

def environment (depth : Nat) : Environment Unit where
  elements _ r := A.elements r
  call c f s := resultOf (A.answer c f) s
  depth := depth

def items (s : Sequence) : List Value := s.items A.elements

def resolve (v : Value) : Except Failure Resolved :=
  match v.callable? with
  | some c => do
    let v ← A.answer c owner
    pure v.classify
  | none => pure v.classify

def resolveItems : List Value → Except Failure (List Resolved)
  | [] => pure []
  | v :: rest => do
    let r ← A.resolve owner v
    let rs ← resolveItems rest
    pure (r :: rs)

def sequenceRuns (s : Sequence) : Except Failure (List Run) :=
  if (A.items s).isEmpty then pure [.group []]
  else do
    let rs ← A.resolveItems owner (A.items s)
    pure (group rs)

def settleResolved : Resolved → Except Failure Content
  | .fragment g => pure (.fragment g)
  | .sequence s => do
    let rs ← A.sequenceRuns owner s
    pure (.runs rs)
  | .scalar v => pure (.scalar v)
  | .skip => pure .skip

def settle (v : Value) : Except Failure Content := do
  let r ← A.resolve owner v
  A.settleResolved owner r

/-- The statement by the reading alone. -/
def flatten (depth : Nat) (d : Dialect) (f : Fragment) : Except Failure String :=
  outcome (f.statement (A.environment depth) d) ()

/-- The bound values by the reading alone. -/
def collect (depth : Nat) (f : Fragment) : Except Failure (List Bound) :=
  outcome (f.bindings (A.environment depth)) ()

/-- The pieces by the reading alone. -/
def pieces (depth : Nat) (f : Fragment) : Except Failure (List Piece) :=
  outcome (f.pieces (A.environment depth) depth) ()

/-- A set of values that holds whatever a pass over one of them meets. -/
structure Closed (known : Value → Prop) : Prop where
  slot : ∀ f v, known (.fragment f) → v ∈ f.slots → known v
  item : ∀ vs v, known (.tuple vs) → v ∈ vs → known v
  segment : ∀ vs v, known (.segments vs) → v ∈ vs → known v
  element : ∀ r v, known (.list r) → v ∈ A.elements r → known v
  answer : ∀ c f v, Asked known c → known (.fragment f) → A.answer c f = .ok v → known v

theorem closed_true : A.Closed fun _ => True := by
  constructor <;> intros <;> trivial

end Reading

/-! ## One outcome from every state -/

/-- Two outcomes correspond: related values, or the same failure. -/
inductive Corresponds (Q : α → β → Prop) : Except Failure α → Except Failure β → Prop
  | ok {a : α} {b : β} (h : Q a b) : Corresponds Q (.ok a) (.ok b)
  | error (e : Failure) : Corresponds Q (.error e) (.error e)

theorem Corresponds.refl {Q : α → α → Prop} {x : Except Failure α} (h : ∀ a, x = .ok a → Q a a) :
    Corresponds Q x x := by
  cases x with
  | ok a => exact .ok (h a rfl)
  | error e => exact .error e

theorem Corresponds.eq {x y : Except Failure α} (h : Corresponds Eq x y) : x = y := by
  cases h with
  | ok h => rw [h]
  | error e => rfl

theorem Corresponds.of_eq {x y : Except Failure α} (h : x = y) : Corresponds Eq x y :=
  h ▸ .refl fun _ _ => rfl

theorem Corresponds.map_eq {g : α → γ} {g' : β → γ} {x : Except Failure α} {y : Except Failure β}
    (h : Corresponds (fun a b => g a = g' b) x y) : g <$> x = g' <$> y := by
  cases h with
  | ok h => exact congrArg Except.ok h
  | error e => rfl

theorem Corresponds.bind {Q : α → β → Prop} {Q' : γ → δ → Prop} {x : Except Failure α}
    {y : Except Failure β} {f : α → Except Failure γ} {g : β → Except Failure δ}
    (h : Corresponds Q x y) (hfg : ∀ a b, Q a b → Corresponds Q' (f a) (g b)) :
    Corresponds Q' (x >>= f) (y >>= g) := by
  cases h with
  | ok hab => exact hfg _ _ hab
  | error e => exact .error e

theorem Lockstep.corresponds {R : σ → τ → Prop} {Q : α → β → Prop} {p : Pass σ α} {q : Pass τ β}
    (h : Lockstep R Q p q) {s : σ} {t : τ} (hst : R s t) :
    Corresponds Q (outcome p s) (outcome q t) := by
  have hpq := h s t hst
  unfold outcome
  cases hp : p s with
  | ok a s' =>
    rw [hp] at hpq
    obtain ⟨b, t', hq, hab, -⟩ := hpq.ok_left
    rw [hq]
    exact .ok hab
  | error e s' =>
    rw [hp] at hpq
    obtain ⟨t', hq, -⟩ := hpq.error_left
    rw [hq]
    exact .error e

/-- From the states of `I` a pass comes to `x`, and to a state of `I`. -/
def Gives (I : σ → Prop) (p : Pass σ α) (x : Except Failure α) : Prop :=
  ∀ s, I s → ∃ s', I s' ∧ p s = resultOf x s'

namespace Gives

variable {I : σ → Prop}

theorem pure (a : α) : Gives I (Pure.pure a) (.ok a) := fun s hs => ⟨s, hs, rfl⟩

theorem bind {p : Pass σ α} {x : Except Failure α} {f : α → Pass σ β} {y : α → Except Failure β}
    (h : Gives I p x) (hf : ∀ a, x = .ok a → Gives I (f a) (y a)) :
    Gives I (p >>= f) (x >>= y) := by
  intro s hs
  obtain ⟨s₁, hs₁, hp⟩ := h s hs
  cases x with
  | ok a =>
    obtain ⟨s₂, hs₂, hy⟩ := hf a rfl s₁ hs₁
    exact ⟨s₂, hs₂, (Pass.bind_ok hp f).trans hy⟩
  | error e => exact ⟨s₁, hs₁, Pass.bind_error hp f⟩

theorem bind_ok {p : Pass σ α} {a : α} {f : α → Pass σ β} {y : Except Failure β}
    (h : Gives I p (.ok a)) (hf : Gives I (f a) y) : Gives I (p >>= f) y := by
  intro s hs
  obtain ⟨s₁, hs₁, hp⟩ := h s hs
  obtain ⟨s₂, hs₂, hy⟩ := hf s₁ hs₁
  exact ⟨s₂, hs₂, (Pass.bind_ok hp f).trans hy⟩

theorem bind_error {p : Pass σ α} {e : Failure} {f : α → Pass σ β} (h : Gives I p (.error e)) :
    Gives I (p >>= f) (.error e) := by
  intro s hs
  obtain ⟨s', hs', hp⟩ := h s hs
  exact ⟨s', hs', Pass.bind_error hp f⟩

theorem map {p : Pass σ α} {x : Except Failure α} (h : Gives I p x) (g : α → β) :
    Gives I (g <$> p) (g <$> x) := by
  intro s hs
  obtain ⟨s', hs', hp⟩ := h s hs
  refine ⟨s', hs', ?_⟩
  cases x with
  | ok a => exact Pass.map_ok hp g
  | error e => exact Pass.map_error hp g

theorem outcome_eq {p : Pass σ α} {x : Except Failure α} (h : Gives I p x) {s : σ} (hs : I s) :
    outcome p s = x := by
  obtain ⟨s', -, hp⟩ := h s hs
  unfold outcome
  rw [hp]
  cases x <;> rfl

theorem of_lockstep {p : Pass σ α} {q : Pass Unit α} (h : Lockstep (fun s _ => I s) Eq p q) :
    Gives I p (outcome q ()) := by
  intro s hs
  have hpq := h s () hs
  unfold outcome
  cases hq : q () with
  | ok b t =>
    rw [hq] at hpq
    obtain ⟨a, s', hp, rfl, hs'⟩ := hpq.ok_right
    exact ⟨s', hs', hp⟩
  | error e t =>
    rw [hq] at hpq
    obtain ⟨s', hp, hs'⟩ := hpq.error_right
    exact ⟨s', hs', hp⟩

end Gives

/-! ## Environments that follow a reading -/

/-- A scalar that is not asked for a value. -/
def Value.IsData (v : Value) : Prop := v.classify = .scalar v ∧ v.callable? = none

/-- The same but for the identities of fragments, and nothing in it is asked. -/
inductive Value.Copy : Value → Value → Prop
  | data {v : Value} (h : v.IsData) : Value.Copy v v
  | skip : Value.Copy .skip .skip
  | fragment {f g : Fragment} (segments : f.segments = g.segments)
    (delimiter : f.delimiter = g.delimiter) (joined : f.joined = g.joined)
    (slots : List.Forall₂ Value.Copy f.slots g.slots) :
    Value.Copy (.fragment f) (.fragment g)

/-- What may be answered in the place of `w`: `w` itself, or the same built anew. -/
def Value.StandsFor (v w : Value) : Prop := v = w ∨ v.Copy w

/-- From the states of `I`, the environment does as the reading says about known values. A callable
may build its answer anew each time it is asked. -/
structure Environment.Follows (env : Environment σ) (A : Reading) (I : σ → Prop)
    (known : Value → Prop) : Prop where
  elements : ∀ s r, I s → known (.list r) → env.elements s r = A.elements r
  call : ∀ s c f, I s → Asked known c → known (.fragment f) →
    ∃ x s', I s' ∧ Corresponds Value.StandsFor x (A.answer c f) ∧ env.call c f s = resultOf x s'

theorem Corresponds.standsFor (x : Except Failure Value) : Corresponds Value.StandsFor x x :=
  .refl fun _ _ => .inl rfl

theorem Reading.environment_follows (A : Reading) (depth : Nat) (known : Value → Prop) :
    (A.environment depth).Follows A (fun _ => True) known where
  elements _ _ _ _ := rfl
  call s c f _ _ _ := ⟨_, s, trivial, .standsFor (A.answer c f), rfl⟩

/-! ## Copies -/

section Copies

variable {env : Environment σ} {env' : Environment τ}

theorem resolve_data (env : Environment σ) (owner : Fragment) {v : Value} (h : v.IsData) :
    resolve env owner v = pure (.scalar v) := by
  obtain ⟨hscalar, hnone⟩ := h
  rw [resolve, hnone]
  exact congrArg pure hscalar

/-- The same known fragment, or a copy of one. -/
def Rebuilt (known : Value → Prop) (f g : Fragment) : Prop :=
  f = g ∧ known (.fragment g) ∨ (Value.fragment f).Copy (.fragment g)

theorem settle_copy {known : Value → Prop} (R : σ → τ → Prop) (f g : Fragment) {v w : Value}
    (h : v.Copy w) :
    Lockstep R (Content.Alike (Rebuilt known) Eq) (settle env f v) (settle env' g w) := by
  cases h with
  | data h =>
    rw [settle, settle, resolve_data env f h, resolve_data env' g h]
    exact .pure (.single rfl rfl rfl)
  | skip => exact .pure .skip
  | fragment hsegments hdelimiter hjoined hslots =>
    exact .pure (.fragment (.inr (.fragment hsegments hdelimiter hjoined hslots)))

end Copies

/-! ## The passes by a reading -/

theorem resultOf_bind (x : Except Failure α) (f : α → Except Failure β) :
    resultOf (x >>= f) = bind (m := Pass σ) (resultOf x) fun a => resultOf (f a) := by
  cases x <;> rfl

namespace Reading

variable (A : Reading) (owner : Fragment) (depth : Nat)

theorem resolve_environment (v : Value) :
    SqlFragments.resolve (A.environment depth) owner v = resultOf (A.resolve owner v) := by
  unfold SqlFragments.resolve Reading.resolve
  cases v.callable? with
  | some c =>
    rw [resultOf_bind]
    rfl
  | none => rfl

theorem resolveItems_environment (vs : List Value) :
    SqlFragments.resolveItems (A.environment depth) owner vs =
      resultOf (A.resolveItems owner vs) := by
  induction vs with
  | nil => rfl
  | cons v rest ih =>
    rw [SqlFragments.resolveItems, Reading.resolveItems, resolve_environment, ih, resultOf_bind]
    refine bind_congr fun r => ?_
    rw [resultOf_bind]
    rfl

theorem itemRuns_environment (vs : List Value) :
    itemRuns (A.environment depth) owner vs =
      resultOf (if vs.isEmpty then pure [.group []] else do
        let rs ← A.resolveItems owner vs
        pure (group rs)) := by
  unfold itemRuns
  split_ifs
  · rfl
  · rw [resolveItems_environment, resultOf_bind]
    rfl

theorem sequenceRuns_environment (s : Sequence) :
    SqlFragments.sequenceRuns (A.environment depth) owner s =
      resultOf (A.sequenceRuns owner s) := by
  cases s with
  | list r =>
    -- nothing changes what a list object holds
    have hfixed : ∀ t, (A.environment depth).elements t r = A.elements r := fun _ => rfl
    have hruns := A.itemRuns_environment owner depth (A.elements r)
    rw [itemRuns, ← resolveList_of_fixed _ _ hfixed] at hruns
    exact hruns
  | tuple vs => exact A.itemRuns_environment owner depth vs
  | segments vs => exact A.itemRuns_environment owner depth vs

/-- **What a slot holds** in the environment of a reading. -/
theorem settle_environment (v : Value) :
    SqlFragments.settle (A.environment depth) owner v = resultOf (A.settle owner v) := by
  rw [SqlFragments.settle, Reading.settle, resolve_environment, resultOf_bind]
  refine bind_congr fun r => ?_
  cases r with
  | sequence s =>
    rw [SqlFragments.settleResolved, Reading.settleResolved, sequenceRuns_environment,
      resultOf_bind]
    rfl
  | _ => rfl

end Reading

theorem Corresponds.lockstep {R : σ → τ → Prop} {Q : α → β → Prop} {x : Except Failure α}
    {y : Except Failure β} (h : Corresponds Q x y) :
    Lockstep R Q (resultOf x : Pass σ α) (resultOf y) := by
  intro s t hst
  cases h with
  | ok h => exact ⟨h, hst⟩
  | error e => exact ⟨rfl, hst⟩

section Pieces

variable (A : Reading) (depth : Nat) {f : Fragment}

theorem Reading.flatten_eq_pieces {d : Dialect} {token : Nat → String} (hd : d.Writes token) :
    A.flatten depth d f =
      (fun ps => dropNewlines (spell token 1 ps)) <$> A.pieces depth f := by
  unfold flatten
  rw [f.statement_eq_pieces _ hd, outcome_map]
  rfl

theorem Reading.collect_eq_pieces :
    A.collect depth f = boundValues <$> A.pieces depth f := by
  unfold collect
  rw [f.bindings_eq_pieces, outcome_map]
  rfl

end Pieces

theorem keepBound_visitsAlike (R : σ → τ → Prop) : VisitsAlike R Eq Eq keepBound keepBound := by
  constructor
  · rintro s bs _ rfl
    exact .pure rfl
  · rintro x _ bs _ rfl rfl
    exact .pure rfl

theorem notePiece_visitsAlike (R : σ → τ → Prop) : VisitsAlike R Eq Eq notePiece notePiece := by
  constructor
  · rintro s ps _ rfl
    exact .pure rfl
  · rintro x _ ps _ rfl rfl
    exact .pure rfl

namespace Environment.Follows

variable {env : Environment σ} {A : Reading} {I : σ → Prop} {known : Value → Prop}
  (h : env.Follows A I known) (hc : A.Closed known)

include h hc

theorem alike : env.Alike (A.environment env.depth) (fun s _ => I s)
    (fun f g => f = g ∧ known (.fragment g)) (Rebuilt known) known where
  depth := rfl
  elements s _ r hs hr := (h.elements s r hs hr).symm
  element := by
    intro s _ r hs hr v hv
    rw [h.elements s r hs hr] at hv
    exact hc.element r v hr hv
  item := by
    rintro vs (hvs | hvs) v hv
    · exact hc.item vs v hvs hv
    · exact hc.segment vs v hvs hv
  call := by
    rintro c f _ hasked ⟨rfl, hf⟩ s ⟨⟩ hs
    obtain ⟨x, s', hs', hx, hcall⟩ := h.call s c f hs hasked hf
    rw [hcall]
    change Agree _ _ _ (resultOf (A.answer c f) ())
    have hanswer := hc.answer c f
    cases hx' : A.answer c f with
    | error e =>
      rw [hx'] at hx
      cases hx
      exact ⟨rfl, hs'⟩
    | ok w =>
      rw [hx'] at hx
      have hw := hanswer w hasked hf hx'
      cases hx with
      | ok hvw =>
        refine ⟨?_, hs'⟩
        rcases hvw with rfl | hcopy
        · exact .same hw
        · cases hcopy with
          | data => exact .same hw
          | skip => exact .same hw
          | fragment hsegments hdelimiter hjoined hslots =>
            exact .fragment (.inr (.fragment hsegments hdelimiter hjoined hslots))
  self _ hg := .inl ⟨rfl, hg⟩

theorem walksAlike :
    WalksAlike env (A.environment env.depth) (fun s _ => I s) (Rebuilt known) Eq where
  segments := by
    rintro f g (⟨rfl, -⟩ | hcopy)
    · rfl
    · cases hcopy with
      | data hdata => rfl
      | fragment hsegments => exact hsegments
  delimiter := by
    rintro f g (⟨rfl, -⟩ | hcopy)
    · rfl
    · cases hcopy with
      | data hdata => rfl
      | fragment _ hdelimiter => exact hdelimiter
  joined := by
    rintro f g (⟨rfl, -⟩ | hcopy)
    · rfl
    · cases hcopy with
      | data hdata => rfl
      | fragment _ _ hjoined => exact hjoined
  slots := by
    rintro f g (⟨rfl, hf⟩ | hcopy)
    · refine List.forall₂_same.mpr fun v hv => ?_
      exact ((h.alike hc).settle ⟨rfl, hf⟩ (.same (hc.slot f v hf hv))).mono
        fun x y hxy => hxy.mono fun b b' hb => hb.1
    · cases hcopy with
      | data hdata => cases hdata.1
      | fragment _ _ _ hslots => exact hslots.imp fun v w hvw => settle_copy _ f g hvw

/-- **The walk follows the reading**, for a visitor that treats a piece in one way everywhere. -/
theorem walk_lockstep {visit : Piece → β → Pass σ β} {visit' : Piece → β → Pass Unit β}
    (hv : VisitsAlike (fun s _ => I s) Eq Eq visit visit') (n : Nat) {f : Fragment}
    (hf : known (.fragment f)) (b : β) :
    Gives I (f.walk env visit n b) (outcome (f.walk (A.environment env.depth) visit' n b) ()) :=
  .of_lockstep (f.walk_lockstep (h.walksAlike hc) hv n (.inl ⟨rfl, hf⟩) rfl)

variable {f : Fragment} (hf : known (.fragment f))

include hf

theorem pieces : Gives I (f.pieces env env.depth) (A.pieces env.depth f) :=
  h.walk_lockstep hc (notePiece_visitsAlike _) _ hf []

/-- **The bound values follow the reading.** -/
theorem bindings : Gives I (f.bindings env) (A.collect env.depth f) := by
  unfold Reading.collect Fragment.bindings
  rw [Fragment.collect_eq_walk, Fragment.collect_eq_walk]
  exact h.walk_lockstep hc (keepBound_visitsAlike _) _ hf []

/-- **The statement follows the reading.** -/
theorem statement (d : Dialect) : Gives I (f.statement env d) (A.flatten env.depth d f) := by
  refine .of_lockstep ?_
  unfold Fragment.statement
  rw [Fragment.write_eq_walk, Fragment.write_eq_walk]
  refine .bind (f.walk_lockstep (h.walksAlike hc) (writePiece_visitsAlike _ _ d) env.depth
    (.inl ⟨rfl, hf⟩) rfl) ?_
  rintro ⟨text, k⟩ _ rfl
  exact .pure rfl

end Environment.Follows

end SqlFragments
