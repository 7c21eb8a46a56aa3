import SqlFragments.Proofs.SideBySide

/-!
# The same pass in two environments

A pass looks at its state through list objects and callables only. So if list objects hold the same
and callables answer alike in two environments, the passes stay in lockstep, whatever else the two
environments keep. The getters look at a little more: at what is kept for their fragment, and at the
registry.

* `Environment.Mirrors`: from related states, list objects hold the same and callables answer alike.
* `Environment.Mirrors.alike`: then slots hold the same.
* **`Environment.Mirrors.statement`**, **`Environment.Mirrors.bindings`**: the two passes.
* `ReadsAlike`: related sessions agree on all that the getters of a fragment look at, and stay
  related by what getters do.
* **`ReadsAlike.read`**: then a read gives the same in both.
-/

namespace SqlFragments

variable {σ τ ω ω' α β : Type}

/-! ## Passes -/

/-- From related states, list objects hold the same and callables answer alike. -/
structure Environment.Mirrors (env : Environment σ) (R : σ → τ → Prop) (env' : Environment τ) :
    Prop where
  elements : ∀ s t, R s t → env'.elements t = env.elements s
  call : ∀ c f, Lockstep R Eq (env.call c f) (env'.call c f)
  depth : env'.depth = env.depth

namespace Environment.Mirrors

variable {env : Environment σ} {env' : Environment τ} {R : σ → τ → Prop} (h : env.Mirrors R env')

include h

theorem alike : env.Alike env' R Eq Eq fun _ => True where
  depth := h.depth
  elements s t r hst _ := congrFun (h.elements s t hst) r
  element _ _ _ _ _ _ _ := trivial
  item _ _ _ _ := trivial
  call := by
    rintro c f _ - rfl
    refine (h.call c f).mono ?_
    rintro v _ rfl
    exact .same trivial
  self _ _ := rfl

/-- **The text pass** is the same in both environments. -/
theorem statement (f : Fragment) (d : Dialect) :
    Lockstep R Eq (f.statement env d) (f.statement env' d) := by
  refine h.alike.statement (fun _ _ hfg => Value.Alike.of_eq (congrArg Fragment.slots hfg)) rfl ?_ d
  rintro f _ rfl
  exact ⟨rfl, rfl, rfl⟩

/-- **The value pass** is the same in both environments. -/
theorem bindings (f : Fragment) : Lockstep R Eq (f.bindings env) (f.bindings env') :=
  (h.alike.bindings (fun _ _ hfg => Value.Alike.of_eq (congrArg Fragment.slots hfg)) rfl).mono
    fun _ _ hbs => hbs.1

end Environment.Mirrors

/-! ## Getters -/

/-- Related sessions agree on all that the getters of a fragment look at, and what getters do leaves
them related. -/
structure ReadsAlike (f : Fragment) (R : Session ω → Session ω' → Prop) : Prop where
  heap : ∀ s t, R s t → t.heap = s.heap
  registry : ∀ s t, R s t → t.registry = s.registry
  fresh : ∀ s t, R s t → t.fresh = s.fresh
  kept : ∀ s t, R s t → t.cacheOf f = s.cacheOf f
  record : ∀ s t x, R s t → R (s.record x) (t.record x)
  cache : ∀ s t c, R s t → R (s.putCache f c) (t.putCache f c)
  allocate : ∀ s t items, R s t →
    R { s with heap := s.heap.allocate items } { t with heap := t.heap.allocate items }
  renew : ∀ s t registry n, R s t →
    R { s with registry := registry, fresh := n } { t with registry := registry, fresh := n }

namespace ReadsAlike

variable {f : Fragment} {R : Session ω → Session ω' → Prop} (h : ReadsAlike f R)

include h

theorem createDialect (target : String) :
    Lockstep R Eq (createDialect (.str target)) (createDialect (.str target)) := by
  intro s t hst
  rw [createDialect_str, createDialect_str, h.registry s t hst, h.fresh s t hst]
  cases s.registry.create s.fresh target with
  | ok x => exact ⟨rfl, h.renew s t _ _ hst⟩
  | error e => cases e <;> exact ⟨rfl, hst⟩

theorem newListRef (items : List Value) :
    Lockstep R Eq (newListRef items) (newListRef items) := by
  intro s t hst
  refine ⟨?_, h.allocate s t items hst⟩
  rw [h.heap s t hst]

theorem handOut (bs : List Bound) : Lockstep R Eq (handOut bs) (handOut bs) := by
  induction bs with
  | nil => exact .pure rfl
  | cons b rest ih =>
    cases b with
    | scalar v =>
      refine .bind ih ?_
      rintro tail _ rfl
      exact .pure rfl
    | group vs =>
      have hnew : Lockstep R Eq (newList vs) (newList vs) := by
        refine .bind (h.newListRef vs) ?_
        rintro r _ rfl
        exact .pure rfl
      refine .bind hnew ?_
      rintro own _ rfl
      refine .bind ih ?_
      rintro tail _ rfl
      exact .pure rfl

theorem freshId : Lockstep R Eq freshId freshId := by
  intro s t hst
  refine ⟨(h.fresh s t hst).symm, ?_⟩
  have hrenewed := h.renew s t s.registry (s.fresh + 1) hst
  have hsame : { t with registry := s.registry, fresh := s.fresh + 1 } =
      { t with fresh := t.fresh + 1 } := by
    rw [← h.registry s t hst, ← h.fresh s t hst]
  rwa [hsame] at hrenewed

variable {host : Host ω} {host' : Host ω'}
  (hmirrors : host.environment.Mirrors R host'.environment)

include hmirrors

theorem memoText (key : TextKey) (d : Dialect) :
    Lockstep R Eq (f.memoText host key d) (f.memoText host' key d) := by
  intro s t hst
  have hcache := h.kept s t hst
  cases hkept : (s.cacheOf f).texts.get? key with
  | some text =>
    have hs : f.memoText host key d s = .ok text s := Fragment.memoText_of_kept hkept d
    rw [← hcache] at hkept
    have ht : f.memoText host' key d t = .ok text t := Fragment.memoText_of_kept hkept d
    rw [hs, ht]
    exact ⟨rfl, hst⟩
  | none =>
    rw [Fragment.memoText_of_missing host hkept d]
    rw [← hcache] at hkept
    rw [Fragment.memoText_of_missing host' hkept d]
    have hrun := hmirrors.statement f d _ _ (h.record s t (.rendering (.text key) f.shown) hst)
    cases hp : f.statement host.environment d (s.record (.rendering (.text key) f.shown)) with
    | ok text s' =>
      rw [hp] at hrun
      obtain ⟨_, t', hq, rfl, hst'⟩ := hrun.ok_left
      rw [hq]
      refine ⟨rfl, ?_⟩
      unfold Session.rememberText
      rw [h.kept s' t' hst']
      exact h.cache s' t' _ hst'
    | error e s' =>
      rw [hp] at hrun
      obtain ⟨t', hq, hst'⟩ := hrun.error_left
      rw [hq]
      exact ⟨rfl, hst'⟩

theorem memoValues : Lockstep R Eq (f.memoValues host) (f.memoValues host') := by
  intro s t hst
  have hcache := h.kept s t hst
  cases hkept : (s.cacheOf f).values with
  | some bs =>
    have hs : f.memoValues host s = .ok bs s := Fragment.memoValues_of_kept hkept
    rw [← hcache] at hkept
    have ht : f.memoValues host' t = .ok bs t := Fragment.memoValues_of_kept hkept
    rw [hs, ht]
    exact ⟨rfl, hst⟩
  | none =>
    rw [Fragment.memoValues_of_missing host hkept]
    rw [← hcache] at hkept
    rw [Fragment.memoValues_of_missing host' hkept]
    have hrun := hmirrors.bindings f _ _ (h.record s t (.rendering .values f.shown) hst)
    cases hp : f.bindings host.environment (s.record (.rendering .values f.shown)) with
    | ok bs s' =>
      rw [hp] at hrun
      obtain ⟨_, t', hq, rfl, hst'⟩ := hrun.ok_left
      rw [hq]
      refine ⟨rfl, ?_⟩
      unfold Session.rememberValues
      rw [h.kept s' t' hst']
      exact h.cache s' t' _ hst'
    | error e s' =>
      rw [hp] at hrun
      obtain ⟨t', hq, hst'⟩ := hrun.error_left
      rw [hq]
      exact ⟨rfl, hst'⟩

theorem values : Lockstep R Eq (f.values host) (f.values host') := by
  refine .bind (h.memoValues hmirrors) ?_
  rintro bs _ rfl
  refine .bind (h.handOut bs) ?_
  rintro items _ rfl
  exact h.newListRef items

/-- **A read gives the same** in both sessions. -/
theorem read (r : Read) : Lockstep R Eq (r.perform host f) (r.perform host' f) := by
  have htext : ∀ key d, Lockstep R Eq (f.memoText host key d >>= fun t => pure (Answer.text t))
      (f.memoText host' key d >>= fun t => pure (Answer.text t)) := by
    intro key d
    refine .bind (h.memoText hmirrors key d) ?_
    rintro text _ rfl
    exact .pure rfl
  cases r with
  | text => exact htext _ _
  | sql => exact htext _ _
  | str => exact htext _ _
  | values =>
    refine .bind (h.values hmirrors) ?_
    rintro l _ rfl s t hst
    refine ⟨?_, hst⟩
    rw [h.heap s t hst]
  | compile target =>
    rw [Read.perform_compile_eq, Read.perform_compile_eq]
    refine .bind (h.createDialect target) ?_
    rintro o _ rfl
    refine .bind (h.memoText hmirrors _ _) ?_
    rintro text _ rfl
    refine .bind (h.values hmirrors) ?_
    rintro l _ rfl s t hst
    obtain ⟨-, hfresh⟩ := h.freshId s t hst
    refine ⟨?_, hfresh⟩
    rw [h.heap s t hst]

end ReadsAlike

end SqlFragments
