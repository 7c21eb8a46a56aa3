import SqlFragments.Proofs.Moments

/-!
# What a read gives at present

If callables depend on nothing but the fragment that asks, what a read gives is decided by what is
kept for the fragment and, where nothing is kept, by what the fragment renders to at present.

* `Rendering.read`: what a read gives, by a cache and a rendering. **`Rendering.read_empty`**: where
  nothing is kept, what is rendered afresh; **`Rendering.Current.read_eq`**: the same where what is
  kept is still what the fragment renders to.
* **`Read.outcome_eq`**: what a read gives in a session.
* `Session.forget`: a session in which nothing is kept for one fragment.
  **`Read.outcome_forget`**: it makes no difference while what is kept is current.
-/

namespace SqlFragments

variable {ω α : Type}

/-- What is kept, or else what is made. -/
def keptOr (kept : Option α) (made : Except Failure α) : Except Failure α :=
  match kept with
  | some a => .ok a
  | none => made

namespace Rendering

variable (U : Rendering)

/-- What a read gives if `c` is kept for the fragment. -/
def read (c : Cache) (f : Fragment) : Read → Except Failure Answer
  | .text | .str => Answer.text <$> keptOr (c.texts.get? .text) (U.flatten .postgres f)
  | .sql => Answer.text <$> keptOr (c.texts.get? .sql) (U.flatten .mysql f)
  | .values => Answer.values <$> keptOr c.values (U.collect f)
  | .compile target => do
    let d ← U.dialectFor target
    let t ← keptOr (c.texts.get? (.target target)) (U.flatten d f)
    let bs ← keptOr c.values (U.collect f)
    .ok (.query (.str t) bs (.str target) (.ofName f.name))

theorem read_compile (c : Cache) (f : Fragment) (target : String) :
    U.read c f (.compile target) =
      (U.dialectFor target >>= fun d =>
        keptOr (c.texts.get? (.target target)) (U.flatten d f) >>= fun t =>
          keptOr c.values (U.collect f) >>= fun bs =>
            .ok (.query (.str t) bs (.str target) (.ofName f.name))) := rfl

/-- **Where nothing is kept**, a read gives what is rendered afresh. -/
theorem read_empty (f : Fragment) (r : Read) : U.read .empty f r = U.answer f r := by
  cases r with
  | compile target => rfl
  | text => exact (bind_pure_comp _ _).symm
  | str => exact (bind_pure_comp _ _).symm
  | sql => exact (bind_pure_comp _ _).symm
  | values => exact (bind_pure_comp _ _).symm

/-- Whatever is kept for the fragment is what it renders to. -/
structure Current (c : Cache) (f : Fragment) : Prop where
  texts : ∀ key text, c.texts.get? key = some text →
    ∃ d, U.dialectOf key = .ok d ∧ U.flatten d f = .ok text
  values : ∀ bs, c.values = some bs → U.collect f = .ok bs

namespace Current

variable {U} {c : Cache} {f : Fragment} (h : U.Current c f)

include h

theorem keptOr_text {key : TextKey} {d : Dialect} (hd : U.dialectOf key = .ok d) :
    keptOr (c.texts.get? key) (U.flatten d f) = U.flatten d f := by
  cases hkept : c.texts.get? key with
  | none => rfl
  | some text =>
    obtain ⟨d', hd', htext⟩ := h.texts key text hkept
    rw [hd] at hd'
    cases hd'
    exact htext.symm

theorem keptOr_values : keptOr c.values (U.collect f) = U.collect f := by
  cases hkept : c.values with
  | none => rfl
  | some bs => exact (h.values bs hkept).symm

/-- **Where what is kept is current**, a read gives what is rendered afresh. -/
theorem read_eq (r : Read) : U.read c f r = U.answer f r := by
  rw [← U.read_empty f r]
  cases r with
  | text => exact congrArg (Answer.text <$> ·) (h.keptOr_text (show U.dialectOf .text = _ from rfl))
  | str => exact congrArg (Answer.text <$> ·) (h.keptOr_text (show U.dialectOf .text = _ from rfl))
  | sql => exact congrArg (Answer.text <$> ·) (h.keptOr_text (show U.dialectOf .sql = _ from rfl))
  | values => exact congrArg (Answer.values <$> ·) h.keptOr_values
  | compile target =>
    rw [read_compile, read_compile, h.keptOr_values]
    cases hd : U.dialectFor target with
    | error e => rfl
    | ok d =>
      have htext := h.keptOr_text (show U.dialectOf (.target target) = .ok d from hd)
      change (keptOr (c.texts.get? (.target target)) (U.flatten d f) >>= _) = _
      rw [htext]
      rfl

end Current

end Rendering

/-! ## Reads in a session -/

theorem stateAfter_of_resultOf {σ : Type} {p : Pass σ α} {s s' : σ} {x : Except Failure α}
    (h : p s = resultOf x s') : stateAfter p s = s' := by
  cases x with
  | ok a => exact stateAfter_ok h
  | error e => exact stateAfter_error h

section Reads

variable {host : Host ω} {answer : Callable → Fragment → Except Failure Value}
  (hhost : host.Obeys answer) {f : Fragment} {s : Session ω}

theorem createDialect_now (hs : s.registry.Sound) (target : String)
    (answer : Callable → Fragment → Except Failure Value) (depth : Nat) :
    (∃ o s', createDialect (.str target) s = .ok o s' ∧
        (s.rendering answer depth).dialectFor target = .ok o.dialect) ∨
      ∃ e, createDialect (.str target) s = .error e s ∧
        (s.rendering answer depth).dialectFor target = .error e := by
  have hrun := createDialect_str target s
  cases hcreate : s.registry.create s.fresh target with
  | ok x =>
    rw [hcreate] at hrun
    exact .inl ⟨x.1, _, hrun, createDialect_registered hs hrun answer depth⟩
  | error e =>
    rw [hcreate] at hrun
    have hnone : s.registry.object? target = none := by
      cases ho : s.registry.object? target with
      | none => rfl
      | some o =>
        rw [Registry.create_of_object? ho] at hcreate
        cases hcreate
    cases hclass : s.registry.class? target with
    | none =>
      simp only [Registry.create, hnone, hclass] at hcreate
      cases hcreate
      refine .inr ⟨_, hrun, ?_⟩
      simp only [Rendering.dialectFor, Session.rendering, hclass]
    | some c =>
      cases hdialect : c.dialect? with
      | none =>
        simp only [Registry.create, hnone, hclass, DialectClass.instantiate?, hdialect,
          Option.map_none] at hcreate
        cases hcreate
        refine .inr ⟨_, hrun, ?_⟩
        simp only [Rendering.dialectFor, Session.rendering, hclass, hdialect]
      | some d =>
        simp only [Registry.create, hnone, hclass, DialectClass.instantiate?, hdialect,
          Option.map_some] at hcreate
        cases hcreate

include hhost

theorem Fragment.memoText_keptOr (key : TextKey) (d : Dialect) :
    ∃ s', f.memoText host key d s =
        resultOf (keptOr ((s.cacheOf f).texts.get? key)
          ((s.rendering answer host.depth).flatten d f)) s' ∧
      s'.reading answer = s.reading answer ∧ (s'.cacheOf f).values = (s.cacheOf f).values := by
  cases hkept : (s.cacheOf f).texts.get? key with
  | some text => exact ⟨s, memoText_of_kept hkept d, rfl, rfl⟩
  | none =>
    obtain ⟨s', hs', ⟨text, htext, hrun⟩ | ⟨e, he, hrun⟩⟩ := memoText_now hhost hkept d
    · refine ⟨s'.rememberText f key text, ?_, hs'.reading_eq, ?_⟩
      · rw [hrun, htext]
        rfl
      · rw [Session.cacheOf_rememberText, if_pos rfl, Session.cacheOf, hs'.caches]
        rfl
    · refine ⟨s', ?_, hs'.reading_eq, ?_⟩
      · rw [hrun, he]
        rfl
      · rw [Session.cacheOf, hs'.caches]
        rfl

theorem Fragment.values_keptOr (hs : s.Gathered) :
    (∃ bs r s', f.values host s = .ok r s' ∧ boundsIn s'.heap r = bs ∧
        keptOr (s.cacheOf f).values ((s.rendering answer host.depth).collect f) = .ok bs) ∨
      ∃ e s', f.values host s = .error e s' ∧
        keptOr (s.cacheOf f).values ((s.rendering answer host.depth).collect f) = .error e := by
  cases hkept : (s.cacheOf f).values with
  | some bs =>
    have hmemo : f.memoValues host s = .ok bs s := memoValues_of_kept hkept
    obtain ⟨r, s', hrun, -, hread⟩ := values_of_memoValues hmemo (hs f bs hkept)
    exact .inl ⟨bs, r, s', hrun, hread s' (.refl s'), rfl⟩
  | none =>
    obtain ⟨s₁, -, ⟨bs, hbs, hmemo⟩ | ⟨e, he, hmemo⟩⟩ := memoValues_now hhost hkept
    · obtain ⟨r, s', hrun, -, hread⟩ := values_of_memoValues hmemo (Reading.collect_plain hbs)
      exact .inl ⟨bs, r, s', hrun, hread s' (.refl s'), hbs⟩
    · exact .inr ⟨e, s₁, Pass.bind_error hmemo _, he⟩

theorem Fragment.outcome_finishCompile (hs : s.Gathered) (target text : String) :
    outcome (f.finishCompile host target text) s =
      (keptOr (s.cacheOf f).values ((s.rendering answer host.depth).collect f) >>= fun bs =>
        .ok (.query (.str text) bs (.str target) (.ofName f.name))) := by
  rw [finishCompile, outcome_bind]
  rcases values_keptOr (f := f) hhost hs with
    ⟨bs, l, s', hrun, hread, hkept⟩ | ⟨e, s', hrun, hkept⟩
  · rw [hrun, hkept, ← hread]
    rfl
  · rw [hrun, hkept]
    rfl

/-- **What a read gives** is decided by what is kept and by what the fragment renders to. -/
theorem Read.outcome_eq (hregistry : s.registry.Sound) (hs : s.Gathered) (r : Read) :
    outcome (r.perform host f) s =
      (s.rendering answer host.depth).read (s.cacheOf f) f r := by
  have htext : ∀ key d, outcome (f.memoText host key d >>= fun t => pure (Answer.text t)) s =
      Answer.text <$> keptOr ((s.cacheOf f).texts.get? key)
        ((s.rendering answer host.depth).flatten d f) := by
    intro key d
    obtain ⟨s', hrun, -⟩ := Fragment.memoText_keptOr (f := f) (s := s) hhost key d
    rw [outcome_bind, hrun]
    cases keptOr ((s.cacheOf f).texts.get? key)
      ((s.rendering answer host.depth).flatten d f) <;> rfl
  cases r with
  | text => exact htext .text .postgres
  | str => exact htext .text .postgres
  | sql => exact htext .sql .mysql
  | values =>
    change outcome (f.values host >>= _) s = Answer.values <$> _
    rw [outcome_bind]
    rcases Fragment.values_keptOr (f := f) hhost hs with
      ⟨bs, l, s', hrun, hread, hkept⟩ | ⟨e, s', hrun, hkept⟩
    · rw [hrun, hkept]
      exact congrArg (fun bs => Except.ok (Answer.values bs)) hread
    · rw [hrun, hkept]
      rfl
  | compile target =>
    rw [perform_compile_eq, outcome_bind, Rendering.read_compile]
    rcases createDialect_now hregistry target answer host.depth with
      ⟨o, s₁, hcreate, hd⟩ | ⟨e, hcreate, hd⟩
    · have hreading₁ := createDialect_reading hcreate answer
      have hcaches₁ := (createDialect_ok hcreate).1
      have hcache₁ : s₁.cacheOf f = s.cacheOf f := by
        rw [Session.cacheOf, Session.cacheOf, hcaches₁]
      obtain ⟨s₂, hrun, hreading₂, hvalues₂⟩ :=
        Fragment.memoText_keptOr (f := f) (s := s₁) hhost (.target target) o.dialect
      have hs₂ : s₂.Gathered := by
        rw [← stateAfter_of_resultOf hrun]
        exact hhost.leavesCaches.gathers.maintains.text f _ _ s₁ (hs.of_caches hcaches₁)
      have hflatten : (s₁.rendering answer host.depth).flatten o.dialect f =
          (s.rendering answer host.depth).flatten o.dialect f :=
        congrArg (fun A : Reading => A.flatten host.depth o.dialect f) hreading₁
      have hcollect : (s₂.rendering answer host.depth).collect f =
          (s.rendering answer host.depth).collect f :=
        congrArg (fun A : Reading => A.collect host.depth f) (hreading₂.trans hreading₁)
      rw [hcache₁, hflatten] at hrun
      rw [hcreate, hd]
      change outcome (f.memoText host (.target target) o.dialect >>= _) s₁ =
        (keptOr _ ((s.rendering answer host.depth).flatten o.dialect f) >>= _)
      rw [outcome_bind, hrun]
      cases keptOr ((s.cacheOf f).texts.get? (.target target))
        ((s.rendering answer host.depth).flatten o.dialect f) with
      | error e => rfl
      | ok text =>
        have hfinish := Fragment.outcome_finishCompile (f := f) hhost hs₂ target text
        rw [hvalues₂, hcache₁, hcollect] at hfinish
        exact hfinish
    · rw [hcreate, hd]
      rfl

end Reads

/-! ## Forgetting -/

/-- A session in which nothing is kept for one fragment. -/
def Session.forget (s : Session ω) (f : Fragment) : Session ω :=
  { s with caches := s.caches.erase f.id }

theorem Session.cacheOf_forget (s : Session ω) (f : Fragment) :
    (s.forget f).cacheOf f = .empty := by
  rw [cacheOf, forget, Table.get?_erase, if_pos rfl]
  rfl

theorem Session.gathered_forget {s : Session ω} (hs : s.Gathered) (f : Fragment) :
    (s.forget f).Gathered := by
  intro g bs hkept
  rw [cacheOf, forget, Table.get?_erase] at hkept
  split_ifs at hkept
  · cases hkept
  · exact hs g bs hkept

/-- **Forgetting makes no difference** while what is kept is current. -/
theorem Read.outcome_forget {host : Host ω} {answer : Callable → Fragment → Except Failure Value}
    (hhost : host.Obeys answer) {f : Fragment} {s : Session ω} (hregistry : s.registry.Sound)
    (hs : s.Gathered) (hcurrent : (s.rendering answer host.depth).Current (s.cacheOf f) f)
    (r : Read) : outcome (r.perform host f) (s.forget f) = outcome (r.perform host f) s := by
  rw [r.outcome_eq hhost hregistry hs, hcurrent.read_eq,
    r.outcome_eq hhost (s := s.forget f) hregistry (Session.gathered_forget hs f), s.cacheOf_forget,
    Rendering.read_empty]
  rfl

end SqlFragments
