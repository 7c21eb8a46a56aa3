import SqlFragments.Slot.Resolution

/-!
# Passes side by side

Two passes are compared from related states: both succeed with related results, or both fail with
one failure, and the states that are left are related again. The passes may keep different states.

* `Agree`, `Lockstep`: the comparison of two results, and of two passes.
* `Lockstep.pure`, `Lockstep.throw`, `Lockstep.bind`: the rules, one for each way to build a pass.
* **`Lockstep.eq_map`**: a pass in lockstep with another from equal states is a function of it.
-/

namespace SqlFragments

variable {σ τ α β γ δ : Type}

/-- Two results agree: related values or the same failure, and related states. -/
def Agree (R : σ → τ → Prop) (Q : α → β → Prop) :
    EStateM.Result Failure σ α → EStateM.Result Failure τ β → Prop
  | .ok a s, .ok b t => Q a b ∧ R s t
  | .error e s, .error e' t => e = e' ∧ R s t
  | _, _ => False

/-- From related states, two passes give results that agree. -/
def Lockstep (R : σ → τ → Prop) (Q : α → β → Prop) (p : Pass σ α) (q : Pass τ β) : Prop :=
  ∀ s t, R s t → Agree R Q (p s) (q t)

section Rules

variable {R : σ → τ → Prop} {Q : α → β → Prop} {Q' : γ → δ → Prop}

theorem Agree.mono {P : α → β → Prop} (hPQ : ∀ a b, P a b → Q a b)
    {x : EStateM.Result Failure σ α} {y : EStateM.Result Failure τ β} (h : Agree R P x y) :
    Agree R Q x y := by
  cases x with
  | ok a s => cases y with
    | ok b t => exact ⟨hPQ a b h.1, h.2⟩
    | error e t => exact h
  | error e s => cases y with
    | ok b t => exact h
    | error e' t => exact h

theorem Agree.ok_left {a : α} {s : σ} {y : EStateM.Result Failure τ β}
    (h : Agree R Q (.ok a s) y) : ∃ b t, y = .ok b t ∧ Q a b ∧ R s t := by
  cases y with
  | ok b t => exact ⟨b, t, rfl, h⟩
  | error e t => exact h.elim

theorem Agree.ok_right {b : β} {t : τ} {x : EStateM.Result Failure σ α}
    (h : Agree R Q x (.ok b t)) : ∃ a s, x = .ok a s ∧ Q a b ∧ R s t := by
  cases x with
  | ok a s => exact ⟨a, s, rfl, h⟩
  | error e s => exact h.elim

theorem Agree.error_left {e : Failure} {s : σ} {y : EStateM.Result Failure τ β}
    (h : Agree R Q (.error e s) y) : ∃ t, y = .error e t ∧ R s t := by
  cases y with
  | ok b t => exact h.elim
  | error e' t => exact ⟨t, by rw [h.1], h.2⟩

theorem Agree.error_right {e : Failure} {t : τ} {x : EStateM.Result Failure σ α}
    (h : Agree R Q x (.error e t)) : ∃ s, x = .error e s ∧ R s t := by
  cases x with
  | ok a s => exact h.elim
  | error e' s => exact ⟨s, by rw [h.1], h.2⟩

namespace Lockstep

theorem pure {a : α} {b : β} (h : Q a b) :
    Lockstep R Q (Pure.pure a : Pass σ α) (Pure.pure b : Pass τ β) :=
  fun _ _ hst => ⟨h, hst⟩

theorem throw (e : Failure) :
    Lockstep R Q (MonadExcept.throw e : Pass σ α) (MonadExcept.throw e : Pass τ β) :=
  fun _ _ hst => ⟨rfl, hst⟩

theorem bind {p : Pass σ α} {q : Pass τ β} {f : α → Pass σ γ} {g : β → Pass τ δ}
    (h : Lockstep R Q p q) (hfg : ∀ a b, Q a b → Lockstep R Q' (f a) (g b)) :
    Lockstep R Q' (p >>= f) (q >>= g) := by
  intro s t hst
  have hpq := h s t hst
  cases hp : p s with
  | ok a s' =>
    rw [hp] at hpq
    obtain ⟨b, t', hq, hab, hst'⟩ := hpq.ok_left
    rw [Pass.bind_ok hp, Pass.bind_ok hq]
    exact hfg a b hab s' t' hst'
  | error e s' =>
    rw [hp] at hpq
    obtain ⟨t', hq, hst'⟩ := hpq.error_left
    rw [Pass.bind_error hp, Pass.bind_error hq]
    exact ⟨rfl, hst'⟩

theorem mono {P : α → β → Prop} {p : Pass σ α} {q : Pass τ β} (h : Lockstep R P p q)
    (hPQ : ∀ a b, P a b → Q a b) : Lockstep R Q p q :=
  fun s t hst => (h s t hst).mono hPQ

theorem map {p : Pass σ α} {q : Pass τ β} {f : α → γ} {g : β → δ} (h : Lockstep R Q p q)
    (hfg : ∀ a b, Q a b → Q' (f a) (g b)) : Lockstep R Q' (f <$> p) (g <$> q) := by
  rw [← bind_pure_comp, ← bind_pure_comp]
  exact bind h fun a b hab => pure (hfg a b hab)

theorem get_bind {p : σ → Pass σ α} {q : τ → Pass τ β}
    (h : ∀ s t, R s t → Lockstep R Q (p s) (q t)) : Lockstep R Q (get >>= p) (get >>= q) :=
  fun s t hst => h s t hst s t hst

theorem refl (p : Pass σ α) : Lockstep Eq Eq p p := by
  rintro s _ rfl
  cases p s with
  | ok a s' => exact ⟨rfl, rfl⟩
  | error e s' => exact ⟨rfl, rfl⟩

/-- **A pass in lockstep with another from equal states is a function of it.** -/
theorem eq_map {p : Pass σ α} {q : Pass σ β} {f : β → α}
    (h : Lockstep Eq (fun a b => a = f b) p q) : p = f <$> q := by
  funext s
  have hpq := h s s rfl
  cases hq : q s with
  | ok b s' =>
    rw [hq] at hpq
    obtain ⟨a, t, hp, rfl, rfl⟩ := hpq.ok_right
    rw [hp, Pass.map_ok hq]
  | error e s' =>
    rw [hq] at hpq
    obtain ⟨t, hp, rfl⟩ := hpq.error_right
    rw [hp, Pass.map_error hq]

end Lockstep

end Rules

end SqlFragments
