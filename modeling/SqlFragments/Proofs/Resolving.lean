import SqlFragments.Proofs.Alike

/-!
# Resolving in two environments

Two environments are compared while they resolve the slots of related fragments. If list objects
hold the same and callables give answers that are alike, the slots hold contents that are alike,
whatever else the environments keep.

* `Value.Alike`, `Resolved.Alike`: the same known value, or related fragments.
* `Environment.Alike`: list objects hold the same, and callables give answers that are alike to
  related owners, as far as known values go.
* **`Environment.Alike.settle`**: then a slot holds contents that are alike.
* `Collected`: the same was collected, and known values only.
* **`Environment.Alike.statement`**, **`Environment.Alike.bindings`**: the two passes. The values
  depend on the slots alone, the text on the literal parts as well.
-/

namespace SqlFragments

variable {σ τ : Type}

/-- What is asked in place of some known value. -/
def Asked (known : Value → Prop) (c : Callable) : Prop := ∃ v, known v ∧ v.callable? = some c

section Alike

variable (K : Fragment → Fragment → Prop) (known : Value → Prop)

inductive Value.Alike : Value → Value → Prop
  | same {v : Value} (h : known v) : Value.Alike v v
  | fragment {f g : Fragment} (h : K f g) : Value.Alike (.fragment f) (.fragment g)

inductive Resolved.Alike : Resolved → Resolved → Prop
  | same {r : Resolved} (h : known r.toValue) : Resolved.Alike r r
  | fragment {f g : Fragment} (h : K f g) : Resolved.Alike (.fragment f) (.fragment g)

end Alike

/-- A bound value that is made of known values. -/
def Bound.Within (known : Value → Prop) : Bound → Prop
  | scalar v => known v
  | group vs => ∀ v ∈ vs, known v

theorem Bound.within_all (b : Bound) : b.Within fun _ => True := by
  cases b with
  | scalar v => trivial
  | group vs => exact fun _ _ => trivial

def Bound.Same (known : Value → Prop) (b b' : Bound) : Prop := b = b' ∧ b.Within known

/-- From related states, list objects hold the same known values, and callables give answers that
are alike to owners that are related by `O`, as far as known values go. -/
structure Environment.Alike (env : Environment σ) (env' : Environment τ) (R : σ → τ → Prop)
    (O K : Fragment → Fragment → Prop) (known : Value → Prop) : Prop where
  depth : env'.depth = env.depth
  elements : ∀ s t r, R s t → known (.list r) → env'.elements t r = env.elements s r
  element : ∀ s t r, R s t → known (.list r) → ∀ v ∈ env.elements s r, known v
  item : ∀ vs, known (.tuple vs) ∨ known (.segments vs) → ∀ v ∈ vs, known v
  call : ∀ c f g, Asked known c → O f g →
    Lockstep R (Value.Alike K known) (env.call c f) (env'.call c g)
  self : ∀ g, known (.fragment g) → K g g

/-- Slots that are the same, and known. -/
theorem Value.Alike.of_eq {K : Fragment → Fragment → Prop} {vs ws : List Value} (h : vs = ws) :
    List.Forall₂ (Value.Alike K fun _ => True) vs ws :=
  h ▸ List.forall₂_same.mpr fun _ _ => .same trivial

/-! ## Grouping -/

section Grouping

variable {K : Fragment → Fragment → Prop} {known : Value → Prop}

theorem Value.Alike.classify {v w : Value} (h : Value.Alike K known v w) :
    Resolved.Alike K known v.classify w.classify := by
  cases h with
  | same h => exact .same (by rwa [Value.toValue_classify])
  | fragment h => exact .fragment h

theorem consScalar_alike {v : Value} (hv : known v) {rs rs' : List Run}
    (h : List.Forall₂ (Run.Alike K (Bound.Same known)) rs rs') :
    List.Forall₂ (Run.Alike K (Bound.Same known)) (consScalar v rs) (consScalar v rs') := by
  have hnew : Run.Alike K (Bound.Same known) (.group [v]) (.group [v]) :=
    .group ⟨rfl, List.forall_mem_singleton.mpr hv⟩
  cases h with
  | nil => exact .cons hnew .nil
  | cons hr hrest =>
    cases hr with
    | fragment hK adjacent => exact .cons hnew (.cons (.fragment hK adjacent) hrest)
    | group hC =>
      obtain ⟨hvs, hwithin⟩ := hC
      cases hvs
      exact .cons (.group ⟨rfl, List.forall_mem_cons.mpr ⟨hv, hwithin⟩⟩) hrest

/-- **Grouping** keeps results alike. -/
theorem groupAfter_alike (hself : ∀ g, known (.fragment g) → K g g) {xs ys : List Resolved}
    (h : List.Forall₂ (Resolved.Alike K known) xs ys) (b : Bool) :
    List.Forall₂ (Run.Alike K (Bound.Same known)) (groupAfter b xs) (groupAfter b ys) := by
  induction h generalizing b with
  | nil => exact .nil
  | @cons x y _ _ hxy _ ih =>
    cases hxy with
    | fragment hK => exact .cons (.fragment hK b) (ih true)
    | same hx =>
      cases x with
      | fragment g => exact .cons (.fragment (hself g hx) b) (ih true)
      | sequence s => exact consScalar_alike hx (ih false)
      | scalar v => exact consScalar_alike hx (ih false)
      | skip => exact ih b

end Grouping

/-! ## Slots -/

namespace Environment.Alike

variable {env : Environment σ} {env' : Environment τ} {R : σ → τ → Prop}
  {O K : Fragment → Fragment → Prop} {known : Value → Prop} (h : env.Alike env' R O K known)
  {f g : Fragment} (hfg : O f g)

include h hfg

theorem resolve {v w : Value} (hvw : Value.Alike K known v w) :
    Lockstep R (Resolved.Alike K known) (resolve env f v) (resolve env' g w) := by
  cases hvw with
  | fragment hK => exact .pure (.fragment hK)
  | same hv =>
    unfold SqlFragments.resolve
    cases hcall : v.callable? with
    | none => exact .pure (Value.Alike.same hv).classify
    | some c =>
      exact .bind (h.call c f g ⟨v, hv, hcall⟩ hfg) fun x y hxy => .pure hxy.classify

theorem resolveItems {vs : List Value} (hvs : ∀ v ∈ vs, known v) :
    Lockstep R (List.Forall₂ (Resolved.Alike K known)) (resolveItems env f vs)
      (resolveItems env' g vs) := by
  induction vs with
  | nil => exact .pure .nil
  | cons v rest ih =>
    refine .bind (h.resolve hfg (.same (hvs v List.mem_cons_self))) fun x y hxy => ?_
    refine .bind (ih fun w hw => hvs w (List.mem_cons_of_mem v hw)) fun xs ys hxys => ?_
    exact .pure (.cons hxy hxys)

theorem resolveFrom {r : ListRef} (hr : known (.list r)) (n i : Nat) :
    Lockstep R (List.Forall₂ (Resolved.Alike K known)) (resolveFrom env f r n i)
      (resolveFrom env' g r n i) := by
  induction n generalizing i with
  | zero => exact .pure .nil
  | succ n ih =>
    refine .get_bind fun s t hst => ?_
    rw [h.elements s t r hst hr]
    cases hv : (env.elements s r)[i]? with
    | none => exact .pure .nil
    | some v =>
      have hknown := h.element s t r hst hr v (List.mem_of_getElem? hv)
      refine .bind (h.resolve hfg (.same hknown)) fun x y hxy => ?_
      exact .bind (ih (i + 1)) fun xs ys hxys => .pure (.cons hxy hxys)

theorem resolveRounds {r : ListRef} (hr : known (.list r)) (rounds i : Nat) :
    Lockstep R (List.Forall₂ (Resolved.Alike K known)) (resolveRounds env f r rounds i)
      (resolveRounds env' g r rounds i) := by
  induction rounds generalizing i with
  | zero =>
    refine .get_bind fun s t hst => ?_
    rw [h.elements s t r hst hr]
    split_ifs
    · exact .pure .nil
    · exact .throw _
  | succ rounds ih =>
    refine .get_bind fun s t hst => ?_
    rw [h.elements s t r hst hr]
    dsimp only
    split_ifs
    · exact .pure .nil
    · refine .bind (h.resolveFrom hfg hr _ i) fun xs ys hxys => ?_
      exact .bind (ih _) fun xs' ys' hxys' => .pure (List.rel_append hxys hxys')

omit h hfg in
theorem empty_alike : List.Forall₂ (Run.Alike K (Bound.Same known)) [.group []] [.group []] :=
  .cons (.group ⟨rfl, fun v hv => by cases hv⟩) .nil

theorem itemRuns {vs : List Value} (hvs : ∀ v ∈ vs, known v) :
    Lockstep R (List.Forall₂ (Run.Alike K (Bound.Same known))) (itemRuns env f vs)
      (itemRuns env' g vs) := by
  unfold SqlFragments.itemRuns
  split_ifs
  · exact .pure empty_alike
  · exact .bind (h.resolveItems hfg hvs) fun xs ys hxys =>
      .pure (groupAfter_alike h.self hxys false)

theorem listRuns {r : ListRef} (hr : known (.list r)) :
    Lockstep R (List.Forall₂ (Run.Alike K (Bound.Same known))) (listRuns env f r)
      (listRuns env' g r) := by
  refine .get_bind fun s t hst => ?_
  rw [h.elements s t r hst hr]
  split_ifs
  · exact .pure empty_alike
  · unfold resolveList
    rw [h.depth]
    exact .bind (h.resolveRounds hfg hr _ 0) fun xs ys hxys =>
      .pure (groupAfter_alike h.self hxys false)

theorem sequenceRuns {x : Sequence} (hx : known x.toValue) :
    Lockstep R (List.Forall₂ (Run.Alike K (Bound.Same known))) (sequenceRuns env f x)
      (sequenceRuns env' g x) := by
  cases x with
  | list r => exact h.listRuns hfg hx
  | tuple vs => exact h.itemRuns hfg (h.item vs (.inl hx))
  | segments vs => exact h.itemRuns hfg (h.item vs (.inr hx))

/-- **A slot holds contents that are alike** in both environments. -/
theorem settle {v w : Value} (hvw : Value.Alike K known v w) :
    Lockstep R (Content.Alike K (Bound.Same known)) (settle env f v) (settle env' g w) := by
  refine .bind (h.resolve hfg hvw) fun x y hxy => ?_
  cases hxy with
  | fragment hK => exact .pure (.fragment hK)
  | same hx =>
    cases x with
    | fragment g' => exact .pure (.fragment (h.self g' hx))
    | sequence s => exact .bind (h.sequenceRuns hfg hx) fun rs rs' hrs => .pure (.runs hrs)
    | scalar v => exact .pure (.single rfl rfl ⟨rfl, hx⟩)
    | skip => exact .pure .skip

end Environment.Alike

/-! ## The passes -/

theorem writePiece_visitsAlike (R : σ → τ → Prop) (C : Bound → Bound → Prop) (d : Dialect) :
    VisitsAlike R C Eq (writePiece d) (writePiece d) := by
  have hplaceholder : ∀ k, Lockstep R Eq (writePlaceholder d k) (writePlaceholder d k) := by
    intro k
    unfold writePlaceholder
    split
    · exact .pure rfl
    · exact .throw _
  constructor
  · rintro s ⟨text, k⟩ _ rfl
    exact .pure rfl
  · rintro x y ⟨text, k⟩ _ - rfl
    refine .bind (hplaceholder k) ?_
    rintro ⟨token, k'⟩ _ rfl
    exact .pure rfl

/-- The same was collected in both environments, and no more than known values. -/
def Collected (known : Value → Prop) (bs bs' : List Bound) : Prop :=
  bs = bs' ∧ ∀ b ∈ bs, b.Within known

theorem collected_of_same {known : Value → Prop} {bs bs' : List Bound}
    (h : List.Forall₂ (Bound.Same known) bs bs') : Collected known bs bs' := by
  induction h with
  | nil => exact ⟨rfl, fun b hb => by cases hb⟩
  | cons hb _ ih =>
    obtain ⟨rfl, hwithin⟩ := hb
    obtain ⟨rfl, hrest⟩ := ih
    exact ⟨rfl, List.forall_mem_cons.mpr ⟨hwithin, hrest⟩⟩

namespace Environment.Alike

variable {env : Environment σ} {env' : Environment τ} {R : σ → τ → Prop}
  {K : Fragment → Fragment → Prop} {known : Value → Prop} (h : env.Alike env' R K K known)
  (hslots : ∀ f g, K f g → List.Forall₂ (Value.Alike K known) f.slots g.slots)

include h hslots

theorem settlesAlike : SettlesAlike env env' R K (Bound.Same known) where
  slots f g hfg := (hslots f g hfg).imp fun _ _ hvw => h.settle hfg hvw

variable {f g : Fragment} (hfg : K f g)

include hfg

/-- **The values** of related fragments, whatever their literal parts are. -/
theorem bindings : Lockstep R (Collected known) (f.bindings env) (g.bindings env') := by
  unfold Fragment.bindings
  rw [h.depth]
  exact (f.collect_lockstep (h.settlesAlike hslots) env.depth hfg).mono fun _ _ => collected_of_same

/-- **The text** of related fragments with the same literal parts. -/
theorem statement (hform : ∀ f g, K f g →
      f.segments = g.segments ∧ f.delimiter = g.delimiter ∧ f.joined = g.joined) (d : Dialect) :
    Lockstep R Eq (f.statement env d) (g.statement env' d) := by
  have hwalks : WalksAlike env env' R K (Bound.Same known) :=
    ⟨h.settlesAlike hslots, fun f g hfg => (hform f g hfg).1, fun f g hfg => (hform f g hfg).2.1,
      fun f g hfg => (hform f g hfg).2.2⟩
  unfold Fragment.statement
  rw [Fragment.write_eq_walk, Fragment.write_eq_walk, h.depth]
  refine .bind (f.walk_lockstep hwalks (writePiece_visitsAlike R _ d) env.depth hfg rfl) ?_
  rintro x _ rfl
  exact .pure rfl

end Environment.Alike

end SqlFragments
