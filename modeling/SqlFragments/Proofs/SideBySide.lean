import SqlFragments.Proofs.OnePass

/-!
# Sessions side by side

Two sessions that differ in nothing a fragment can come across are compared while it is read in
both. Callables may have any effect, as long as they answer alike in both sessions.

* `SideBySide`: related sessions keep the same for related fragments, and what getters change
  themselves leaves them related.
* `Read.InStep`: the passes that a read needs. **`SideBySide.read`**: if they stay in lockstep, the
  read gives the same in both sessions.
-/

namespace SqlFragments

variable {σ τ ω α β : Type}

theorem Lockstep.stateAfter {R : σ → τ → Prop} {Q : α → β → Prop} {p : Pass σ α} {q : Pass τ β}
    (h : Lockstep R Q p q) {s : σ} {t : τ} (hst : R s t) :
    R (stateAfter p s) (stateAfter q t) := by
  have hpq := h s t hst
  cases hp : p s with
  | ok a s' =>
    rw [hp] at hpq
    obtain ⟨b, t', hq, -, hst'⟩ := hpq.ok_left
    rwa [stateAfter_ok hp, stateAfter_ok hq]
  | error e s' =>
    rw [hp] at hpq
    obtain ⟨t', hq, hst'⟩ := hpq.error_left
    rwa [stateAfter_error hp, stateAfter_error hq]

theorem Lockstep.outcome_eq {R : σ → τ → Prop} {p : Pass σ α} {q : Pass τ α}
    (h : Lockstep R Eq p q) {s : σ} {t : τ} (hst : R s t) : outcome p s = outcome q t :=
  (h.corresponds hst).eq

/-! ## The getters -/

/-- Related sessions keep the same for related fragments, made of known values, and hold the same
dialects. What getters change themselves leaves them related. -/
structure SideBySide (R : Session ω → Session ω → Prop) (K : Fragment → Fragment → Prop)
    (known : Value → Prop) : Prop where
  nextRef : ∀ s t, R s t → t.heap.nextRef = s.heap.nextRef
  made : ∀ s t, R s t → known (.list s.heap.nextRef)
  registry : ∀ s t, R s t → t.registry = s.registry
  fresh : ∀ s t, R s t → t.fresh = s.fresh
  kept : ∀ s t f g, R s t → K f g → t.cacheOf g = s.cacheOf f
  gathered : ∀ s t f g bs, R s t → K f g → (s.cacheOf f).values = some bs →
    ∀ b ∈ bs, b.Plain ∧ b.Within known
  record : ∀ s t x y, R s t → R (s.record x) (t.record y)
  cache : ∀ s t f g c, R s t → K f g →
    (∀ bs, c.values = some bs → ∀ b ∈ bs, b.Plain ∧ b.Within known) →
    R (s.putCache f c) (t.putCache g c)
  allocate : ∀ s t items, R s t → (∀ v ∈ items, known v) →
    R { s with heap := s.heap.allocate items } { t with heap := t.heap.allocate items }
  renew : ∀ s t registry n, R s t →
    R { s with registry := registry, fresh := n } { t with registry := registry, fresh := n }

namespace SideBySide

variable {R : Session ω → Session ω → Prop} {K : Fragment → Fragment → Prop}
  {known : Value → Prop} (h : SideBySide R K known)

include h

theorem createDialect (target : String) :
    Lockstep R Eq (createDialect (.str target)) (createDialect (.str target)) := by
  intro s t hst
  rw [createDialect_str, createDialect_str, h.registry s t hst, h.fresh s t hst]
  cases s.registry.create s.fresh target with
  | ok x => exact ⟨rfl, h.renew s t _ _ hst⟩
  | error e => cases e <;> exact ⟨rfl, hst⟩

theorem newListRef {items : List Value} (hitems : ∀ v ∈ items, known v) :
    Lockstep R (fun r r' => r = r' ∧ known (.list r)) (newListRef items) (newListRef items) := by
  intro s t hst
  exact ⟨⟨(h.nextRef s t hst).symm, h.made s t hst⟩, h.allocate s t items hst hitems⟩

theorem handOut {bs : List Bound} (hbs : ∀ b ∈ bs, b.Within known) :
    Lockstep R (fun xs ys => xs = ys ∧ ∀ v ∈ xs, known v) (handOut bs) (handOut bs) := by
  induction bs with
  | nil => exact .pure ⟨rfl, fun v hv => by cases hv⟩
  | cons b rest ih =>
    obtain ⟨hb, hrest⟩ := List.forall_mem_cons.mp hbs
    cases b with
    | scalar v =>
      refine .bind (ih hrest) ?_
      rintro tail _ ⟨rfl, htail⟩
      exact .pure ⟨rfl, List.forall_mem_cons.mpr ⟨hb, htail⟩⟩
    | group vs =>
      have hown : Lockstep R (fun v w => v = w ∧ known v) (newList vs) (newList vs) := by
        refine .bind (h.newListRef hb) ?_
        rintro r _ ⟨rfl, hr⟩
        exact .pure ⟨rfl, hr⟩
      refine .bind hown ?_
      rintro own _ ⟨rfl, hv⟩
      refine .bind (ih hrest) ?_
      rintro tail _ ⟨rfl, htail⟩
      exact .pure ⟨rfl, List.forall_mem_cons.mpr ⟨hv, htail⟩⟩

variable {host : Host ω} {f g : Fragment} (hfg : K f g)

include hfg

theorem memoText {d : Dialect}
    (hpass : Lockstep R Eq (f.statement host.environment d) (g.statement host.environment d))
    (key : TextKey) : Lockstep R Eq (f.memoText host key d) (g.memoText host key d) := by
  intro s t hst
  have hcache := h.kept s t f g hst hfg
  cases hkept : (s.cacheOf f).texts.get? key with
  | some text =>
    have hs : f.memoText host key d s = .ok text s := Fragment.memoText_of_kept hkept d
    rw [← hcache] at hkept
    have ht : g.memoText host key d t = .ok text t := Fragment.memoText_of_kept hkept d
    rw [hs, ht]
    exact ⟨rfl, hst⟩
  | none =>
    rw [Fragment.memoText_of_missing host hkept d]
    rw [← hcache] at hkept
    rw [Fragment.memoText_of_missing host hkept d]
    have hrun := hpass _ _
      (h.record s t (.rendering (.text key) f.shown) (.rendering (.text key) g.shown) hst)
    cases hp : f.statement host.environment d (s.record (.rendering (.text key) f.shown)) with
    | ok text s' =>
      rw [hp] at hrun
      obtain ⟨_, t', hq, rfl, hst'⟩ := hrun.ok_left
      rw [hq]
      refine ⟨rfl, ?_⟩
      unfold Session.rememberText
      rw [h.kept s' t' f g hst' hfg]
      exact h.cache s' t' f g _ hst' hfg fun bs => h.gathered s' t' f g bs hst' hfg
    | error e s' =>
      rw [hp] at hrun
      obtain ⟨t', hq, hst'⟩ := hrun.error_left
      rw [hq]
      exact ⟨rfl, hst'⟩

section Values

variable (hpass : Lockstep R (Collected known) (f.bindings host.environment)
  (g.bindings host.environment))

include hpass

theorem memoValues : Lockstep R (fun bs bs' => bs = bs' ∧ ∀ b ∈ bs, b.Plain ∧ b.Within known)
    (f.memoValues host) (g.memoValues host) := by
  intro s t hst
  have hcache := h.kept s t f g hst hfg
  cases hkept : (s.cacheOf f).values with
  | some bs =>
    have hs : f.memoValues host s = .ok bs s := Fragment.memoValues_of_kept hkept
    have hgathered := h.gathered s t f g bs hst hfg hkept
    rw [← hcache] at hkept
    have ht : g.memoValues host t = .ok bs t := Fragment.memoValues_of_kept hkept
    rw [hs, ht]
    exact ⟨⟨rfl, hgathered⟩, hst⟩
  | none =>
    rw [Fragment.memoValues_of_missing host hkept]
    rw [← hcache] at hkept
    rw [Fragment.memoValues_of_missing host hkept]
    have hrun := hpass _ _
      (h.record s t (.rendering .values f.shown) (.rendering .values g.shown) hst)
    cases hp : f.bindings host.environment (s.record (.rendering .values f.shown)) with
    | ok bs s' =>
      have hplain := Fragment.bindings_plain hp
      rw [hp] at hrun
      obtain ⟨_, t', hq, ⟨rfl, hwithin⟩, hst'⟩ := hrun.ok_left
      rw [hq]
      have hgathered : ∀ b ∈ bs, b.Plain ∧ b.Within known :=
        fun b hb => ⟨hplain b hb, hwithin b hb⟩
      refine ⟨⟨rfl, hgathered⟩, ?_⟩
      unfold Session.rememberValues
      rw [h.kept s' t' f g hst' hfg]
      refine h.cache s' t' f g _ hst' hfg fun bs' hbs' => ?_
      cases hbs'
      exact hgathered
    | error e s' =>
      rw [hp] at hrun
      obtain ⟨t', hq, hst'⟩ := hrun.error_left
      rw [hq]
      exact ⟨rfl, hst'⟩

theorem values : Lockstep R Eq (f.values host) (g.values host) := by
  refine .bind (h.memoValues hfg hpass) ?_
  rintro bs _ ⟨rfl, hbs⟩
  refine .bind (h.handOut fun b hb => (hbs b hb).2) ?_
  rintro items _ ⟨rfl, hitems⟩
  exact (h.newListRef hitems).mono fun _ _ hr => hr.1

theorem values_read (give : List Bound → β) {P : β → Prop}
    (hgive : ∀ bs, (∀ b ∈ bs, b.Within known) → P (give bs)) (touch : Session ω → Session ω)
    (htouch : ∀ s t, R s t → R (touch s) (touch t)) :
    Lockstep R (fun a a' => a = a' ∧ P a)
      (f.values host >>= fun r => modifyGet fun s => (give (boundsIn s.heap r), touch s))
      (g.values host >>= fun r => modifyGet fun s => (give (boundsIn s.heap r), touch s)) := by
  intro s t hst
  have hmemo := h.memoValues hfg hpass s t hst
  have hvalues := h.values hfg hpass s t hst
  cases hs : f.memoValues host s with
  | ok bs s' =>
    rw [hs] at hmemo
    obtain ⟨_, t', ht, ⟨rfl, hgathered⟩, -⟩ := hmemo.ok_left
    have hplain : ∀ b ∈ bs, b.Plain := fun b hb => (hgathered b hb).1
    obtain ⟨r, s₁, hs₁, -, hread⟩ := Fragment.values_of_memoValues hs hplain
    obtain ⟨r', t₁, ht₁, -, hread'⟩ := Fragment.values_of_memoValues ht hplain
    rw [hs₁, ht₁] at hvalues
    rw [Pass.bind_ok hs₁, Pass.bind_ok ht₁]
    refine ⟨⟨?_, ?_⟩, htouch s₁ t₁ hvalues.2⟩
    · rw [hread s₁ (.refl s₁), hread' t₁ (.refl t₁)]
    · rw [hread s₁ (.refl s₁)]
      exact hgive bs fun b hb => (hgathered b hb).2
  | error e s' =>
    rw [hs] at hmemo
    obtain ⟨t', ht, hst'⟩ := hmemo.error_left
    have hs₁ : f.values host s = .error e s' := Pass.bind_error hs _
    have ht₁ : g.values host t = .error e t' := Pass.bind_error ht _
    rw [Pass.bind_error hs₁, Pass.bind_error ht₁]
    exact ⟨rfl, hst'⟩

end Values

end SideBySide

/-- The passes over `f` and over `g` that a read needs stay in lockstep. The name of the fragment is
in what a compile gives. -/
structure Read.InStep (R : Session ω → Session ω → Prop) (known : Value → Prop) (host : Host ω)
    (f g : Fragment) (r : Read) : Prop where
  texts : r ≠ .values → ∀ d,
    Lockstep R Eq (f.statement host.environment d) (g.statement host.environment d)
  values : r = .values ∨ (∃ target, r = .compile target) →
    Lockstep R (Collected known) (f.bindings host.environment) (g.bindings host.environment)
  name : (∃ target, r = .compile target) → f.name = g.name

/-- The values in an answer are made of known values. -/
def Answer.Within (known : Value → Prop) : Answer → Prop
  | text _ => True
  | values bs | query _ bs _ _ => ∀ b ∈ bs, b.Within known

/-- **A read gives the same in both sessions** if the passes that it needs stay in lockstep. -/
theorem SideBySide.read {R : Session ω → Session ω → Prop} {K : Fragment → Fragment → Prop}
    {known : Value → Prop} (h : SideBySide R K known) {host : Host ω} {f g : Fragment}
    (hfg : K f g) {r : Read} (hr : r.InStep R known host f g) :
    Lockstep R (fun a a' => a = a' ∧ a.Within known) (r.perform host f) (r.perform host g) := by
  have htext : r ≠ .values → ∀ key d, Lockstep R (fun a a' => a = a' ∧ a.Within known)
      (f.memoText host key d >>= fun t => pure (Answer.text t))
      (g.memoText host key d >>= fun t => pure (Answer.text t)) := by
    intro hne key d
    refine .bind (h.memoText hfg (hr.texts hne d) key) ?_
    rintro text _ rfl
    exact .pure ⟨rfl, trivial⟩
  cases r with
  | text => exact htext Read.noConfusion _ _
  | sql => exact htext Read.noConfusion _ _
  | str => exact htext Read.noConfusion _ _
  | values =>
    exact h.values_read hfg (hr.values (.inl rfl)) Answer.values (fun _ hbs => hbs) id
      fun _ _ hst => hst
  | compile target =>
    rw [Read.perform_compile, Read.perform_compile, hr.name ⟨target, rfl⟩]
    refine .bind (h.createDialect target) ?_
    rintro o _ rfl
    refine .bind (h.memoText hfg (hr.texts Read.noConfusion _) _) ?_
    rintro text _ rfl
    refine h.values_read hfg (hr.values (.inr ⟨target, rfl⟩))
      (fun bs => Answer.query (.str text) bs (.str target) (.ofName g.name))
      (fun _ hbs => hbs) (fun s => { s with fresh := s.fresh + 1 }) fun s t hst => ?_
    have hrenewed := h.renew s t s.registry (s.fresh + 1) hst
    have hsame : { t with registry := s.registry, fresh := s.fresh + 1 } =
        { t with fresh := t.fresh + 1 } := by
      rw [← h.registry s t hst, ← h.fresh s t hst]
    rwa [hsame] at hrenewed

end SqlFragments
