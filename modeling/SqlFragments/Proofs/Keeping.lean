import SqlFragments.Proofs.Reading

/-!
# What a pass keeps as it is

A pass changes its state through the callables that it asks, and in no other way. So whatever each
call keeps, a whole pass keeps, and one that fails as well.

* `stateAfter`, `Keeps`: the state that a pass leaves; a pass that keeps a property of its state.
* `Keeps.pure`, `Keeps.throw`, `Keeps.bind`: the rules. **`keeps_iff_lockstep`**: a pass keeps a
  property if it stays in lockstep with itself.
* **`settle_keeps`**: one slot. **`Fragment.walk_keeps`**: a whole walk.
* **`Fragment.statement_keeps`**, **`Fragment.bindings_keeps`**: the two passes.
-/

namespace SqlFragments

variable {σ α β : Type}

/-- The state that a pass leaves, whether it succeeds or fails. -/
def stateAfter (p : Pass σ α) (s : σ) : σ :=
  match p s with
  | .ok _ s' => s'
  | .error _ s' => s'

theorem stateAfter_ok {p : Pass σ α} {s s' : σ} {a : α} (h : p s = .ok a s') :
    stateAfter p s = s' := by
  unfold stateAfter
  rw [h]

theorem stateAfter_error {p : Pass σ α} {s s' : σ} {e : Failure} (h : p s = .error e s') :
    stateAfter p s = s' := by
  unfold stateAfter
  rw [h]

theorem stateAfter_bind_ok {p : Pass σ α} {s s' : σ} {a : α} (h : p s = .ok a s')
    (f : α → Pass σ β) : stateAfter (p >>= f) s = stateAfter (f a) s' := by
  unfold stateAfter
  rw [Pass.bind_ok h]

theorem stateAfter_bind_error {p : Pass σ α} {s s' : σ} {e : Failure} (h : p s = .error e s')
    (f : α → Pass σ β) : stateAfter (p >>= f) s = s' :=
  stateAfter_error (Pass.bind_error h f)

theorem stateAfter_bind {I J : σ → Prop} {p : Pass σ α} {f : α → Pass σ β} {s : σ}
    (hp : J (stateAfter p s)) (herror : ∀ s', J s' → I s')
    (hf : ∀ a s', J s' → I (stateAfter (f a) s')) : I (stateAfter (p >>= f) s) := by
  cases hrun : p s with
  | ok a s' =>
    rw [stateAfter_ok hrun] at hp
    rw [stateAfter_bind_ok hrun]
    exact hf a s' hp
  | error e s' =>
    rw [stateAfter_error hrun] at hp
    rw [stateAfter_bind_error hrun]
    exact herror s' hp

/-- A pass keeps a property of its state. -/
def Keeps (I : σ → Prop) (p : Pass σ α) : Prop := ∀ s, I s → I (stateAfter p s)

section Rules

variable {I : σ → Prop}

namespace Keeps

theorem pure (a : α) : Keeps I (Pure.pure a : Pass σ α) := fun _ hs => hs

theorem throw (e : Failure) : Keeps I (MonadExcept.throw e : Pass σ α) := fun _ hs => hs

theorem bind {p : Pass σ α} {f : α → Pass σ β} (hp : Keeps I p) (hf : ∀ a, Keeps I (f a)) :
    Keeps I (p >>= f) :=
  fun s hs => stateAfter_bind (hp s hs) (fun _ h => h) fun a s' hs' => hf a s' hs'

theorem get_bind {f : σ → Pass σ α} (hf : ∀ s, Keeps I (f s)) : Keeps I (get >>= f) :=
  fun s hs => hf s s hs

theorem ok {p : Pass σ α} {s s' : σ} {a : α} (h : Keeps I p) (hs : I s) (hp : p s = .ok a s') :
    I s' := by
  have hkept := h s hs
  rwa [stateAfter_ok hp] at hkept

theorem error {p : Pass σ α} {s s' : σ} {e : Failure} (h : Keeps I p) (hs : I s)
    (hp : p s = .error e s') : I s' := by
  have hkept := h s hs
  rwa [stateAfter_error hp] at hkept

end Keeps

/-- **A pass keeps a property** if it stays in lockstep with itself where the property holds. -/
theorem keeps_iff_lockstep {p : Pass σ α} :
    Keeps I p ↔ Lockstep (fun s t => s = t ∧ I s) Eq p p := by
  constructor
  · rintro h s _ ⟨rfl, hs⟩
    have hkept := h s hs
    unfold stateAfter at hkept
    cases hp : p s with
    | ok a s' =>
      rw [hp] at hkept
      exact ⟨rfl, rfl, hkept⟩
    | error e s' =>
      rw [hp] at hkept
      exact ⟨rfl, rfl, hkept⟩
  · intro h s hs
    have hagree := h s s ⟨rfl, hs⟩
    unfold stateAfter
    cases hp : p s with
    | ok a s' =>
      rw [hp] at hagree
      exact hagree.2.2
    | error e s' =>
      rw [hp] at hagree
      exact hagree.2.2

end Rules

/-! ## Passes over a fragment -/

section Walk

variable {env : Environment σ} {I : σ → Prop} (hcall : ∀ c f, Keeps I (env.call c f))

include hcall

theorem resolve_keeps (owner : Fragment) (v : Value) : Keeps I (resolve env owner v) := by
  unfold resolve
  cases v.callable? with
  | some c => exact (hcall c owner).bind fun v => .pure v.classify
  | none => exact .pure v.classify

theorem resolveItems_keeps (owner : Fragment) (vs : List Value) :
    Keeps I (resolveItems env owner vs) := by
  induction vs with
  | nil => exact .pure []
  | cons v rest ih =>
    exact (resolve_keeps hcall owner v).bind fun r => ih.bind fun rs => .pure (r :: rs)

theorem resolveFrom_keeps (owner : Fragment) (r : ListRef) (n i : Nat) :
    Keeps I (resolveFrom env owner r n i) := by
  induction n generalizing i with
  | zero => exact .pure []
  | succ n ih =>
    refine .get_bind fun s => ?_
    cases (env.elements s r)[i]? with
    | none => exact .pure []
    | some v =>
      exact (resolve_keeps hcall owner v).bind fun x => (ih (i + 1)).bind fun xs => .pure (x :: xs)

theorem resolveRounds_keeps (owner : Fragment) (r : ListRef) (rounds i : Nat) :
    Keeps I (resolveRounds env owner r rounds i) := by
  induction rounds generalizing i with
  | zero =>
    refine .get_bind fun s => ?_
    split_ifs
    · exact .pure []
    · exact .throw _
  | succ rounds ih =>
    refine .get_bind fun s => ?_
    change Keeps I (if (env.elements s r).length ≤ i then pure [] else _)
    split_ifs
    · exact .pure []
    · exact (resolveFrom_keeps hcall owner r _ i).bind fun xs => (ih _).bind fun more =>
        .pure (xs ++ more)

theorem itemRuns_keeps (owner : Fragment) (vs : List Value) : Keeps I (itemRuns env owner vs) := by
  unfold itemRuns
  split_ifs
  · exact .pure _
  · exact (resolveItems_keeps hcall owner vs).bind fun rs => .pure (group rs)

theorem sequenceRuns_keeps (owner : Fragment) (s : Sequence) :
    Keeps I (sequenceRuns env owner s) := by
  cases s with
  | list r =>
    refine .get_bind fun s => ?_
    split_ifs
    · exact .pure _
    · exact (resolveRounds_keeps hcall owner r _ _).bind fun rs => .pure (group rs)
  | tuple vs => exact itemRuns_keeps hcall owner vs
  | segments vs => exact itemRuns_keeps hcall owner vs

/-- **One slot** keeps what the calls keep. -/
theorem settle_keeps (owner : Fragment) (v : Value) : Keeps I (settle env owner v) := by
  refine (resolve_keeps hcall owner v).bind fun r => ?_
  cases r with
  | sequence s => exact (sequenceRuns_keeps hcall owner s).bind fun rs => .pure (Content.runs rs)
  | _ => exact .pure _

/-- **A walk** keeps what the calls keep, if visits leave the state alone. -/
theorem Fragment.walk_keeps {visit : Piece → β → Pass σ β}
    (hvisit : VisitsAlike (fun s t => s = t ∧ I s) Eq Eq visit visit) (n : Nat) (f : Fragment)
    (b : β) : Keeps I (f.walk env visit n b) := by
  have halike : WalksAlike env env (fun s t => s = t ∧ I s) Eq Eq := by
    refine .of_eq (fun _ _ h => h) fun f _ v _ => ?_
    refine (keeps_iff_lockstep.mp (settle_keeps hcall f v)).mono ?_
    rintro x _ rfl
    exact Content.alike_self (fun _ _ => rfl) (fun _ _ => rfl) fun _ => rfl
  exact keeps_iff_lockstep.mpr (f.walk_lockstep halike hvisit n rfl rfl)

/-- **The text pass** keeps what the calls keep. -/
theorem Fragment.statement_keeps (d : Dialect) (f : Fragment) : Keeps I (f.statement env d) := by
  unfold statement
  rw [write_eq_walk]
  exact (f.walk_keeps hcall (writePiece_visitsAlike _ _ d) _ _).bind fun x =>
    .pure (dropNewlines x.1)

/-- **The value pass** keeps what the calls keep. -/
theorem Fragment.bindings_keeps (f : Fragment) : Keeps I (f.bindings env) := by
  unfold bindings
  rw [collect_eq_walk]
  exact f.walk_keeps hcall (keepBound_visitsAlike _) _ _

end Walk

end SqlFragments
