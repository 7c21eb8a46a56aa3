import SqlFragments.Proofs.Histories

/-!
# What fragments render to at present

List objects grow and dialects are registered while a session goes on. If callables depend on
nothing but the fragment that asks, a session decides at any time what each fragment renders to. A
getter gives just that where it has kept nothing yet.

* `Session.rendering`: everything that decides what fragments render to at present.
  **`Fragment.memoText_now`**, **`Fragment.memoValues_now`**: what is missing is made by it.
* `Registry.Sound`: objects of dialects are of the classes that are registered.
  **`createDialect_registered`**: so is an object that is looked up.
* `Session.Renders`: whatever is newly kept is what one fragment renders to.
  **`Read.perform_renders`**: a read keeps nothing else.
-/

namespace SqlFragments

variable {ω : Type}

/-! ## Callables that depend on nothing -/

namespace Session

variable (s : Session ω) (answer : Callable → Fragment → Except Failure Value)

/-- What list objects hold at present, and what callables answer. -/
def reading : Reading := ⟨s.heap.elements, answer⟩

/-- Everything that decides what fragments render to at present. -/
def rendering (depth : Nat) : Rendering := ⟨s.reading answer, depth, s.registry⟩

variable {s answer}

theorem Steady.reading_eq {s' : Session ω} (h : s.Steady s') :
    s'.reading answer = s.reading answer := by
  have hsame : s'.heap.elements = s.heap.elements := funext h.elements
  rw [reading, reading, hsame]

end Session

section Obeys

variable {host : Host ω} {answer : Callable → Fragment → Except Failure Value}
  (hhost : host.Obeys answer)

include hhost

namespace Host.Obeys

theorem keeps {I : Session ω → Prop} (hI : ∀ s s', s.Steady s' → I s → I s') (c : Callable)
    (f : Fragment) : Keeps I (host.call c f) := by
  intro s hs
  obtain ⟨x, s', hsteady, -, hcall⟩ := hhost c f s
  have hafter : stateAfter (host.call c f) s = s' := by
    unfold stateAfter
    rw [hcall]
    cases x <;> rfl
  rw [hafter]
  exact hI s s' hsteady hs

theorem leavesCaches : host.LeavesCaches := fun c f s =>
  hhost.keeps (I := fun s' => s'.caches = s.caches) (fun _ _ h hs => h.caches.trans hs) c f s rfl

theorem sustains_extends (s : Session ω) : host.Sustains fun s' => s.Extends s' where
  call := hhost.keeps fun _ _ h hs => hs.trans h.toSpared.extends
  record s' r hs := hs.trans (s'.undisturbed_record r).toSpared.extends
  cache _ _ _ hs := hs.trans ⟨Nat.le_refl _, rfl, fun _ _ h => h, fun _ hr => ⟨hr, rfl⟩⟩
  allocate s' items hs := hs.trans (s'.undisturbed_allocate items).toSpared.extends
  fresh s' hs := hs.trans (s'.undisturbed_fresh (s'.fresh + 1)).toSpared.extends
  create _ _ _ _ hs h := hs.trans (Session.extends_create h)

theorem follows (s : Session ω) :
    host.environment.Follows (s.reading answer) (fun s' => s.Steady s') fun _ => True where
  elements _ r hs _ := hs.elements r
  call s' c f hs _ _ := by
    obtain ⟨x, s'', hsteady, hx, hcall⟩ := hhost c f s'
    exact ⟨x, s'', hs.trans hsteady, hx, hcall⟩

end Host.Obeys

/-- **A text that is missing** is what the fragment renders to at present. -/
theorem Fragment.memoText_now {f : Fragment} {key : TextKey} {s : Session ω}
    (h : (s.cacheOf f).texts.get? key = none) (d : Dialect) :
    ∃ s', s.Steady s' ∧
      ((∃ text, (s.rendering answer host.depth).flatten d f = .ok text ∧
        f.memoText host key d s = .ok text (s'.rememberText f key text)) ∨
      ∃ e, (s.rendering answer host.depth).flatten d f = .error e ∧
        f.memoText host key d s = .error e s') := by
  obtain ⟨s', hs', hpass⟩ := (hhost.follows s).statement (s.reading answer).closed_true (f := f)
    trivial d (s.record (.rendering (.text key) f.shown)) (s.steady_record _)
  have hrun := memoText_of_missing host h d
  change _ = resultOf ((s.rendering answer host.depth).flatten d f) s' at hpass
  rw [hpass] at hrun
  refine ⟨s', hs', ?_⟩
  cases htext : (s.rendering answer host.depth).flatten d f with
  | ok text =>
    rw [htext] at hrun
    exact .inl ⟨text, rfl, hrun⟩
  | error e =>
    rw [htext] at hrun
    exact .inr ⟨e, rfl, hrun⟩

/-- **Values that are missing** are what is collected at present. -/
theorem Fragment.memoValues_now {f : Fragment} {s : Session ω} (h : (s.cacheOf f).values = none) :
    ∃ s', s.Steady s' ∧
      ((∃ bs, (s.rendering answer host.depth).collect f = .ok bs ∧
        f.memoValues host s = .ok bs (s'.rememberValues f bs)) ∨
      ∃ e, (s.rendering answer host.depth).collect f = .error e ∧
        f.memoValues host s = .error e s') := by
  obtain ⟨s', hs', hpass⟩ := (hhost.follows s).bindings (s.reading answer).closed_true (f := f)
    trivial (s.record (.rendering .values f.shown)) (s.steady_record _)
  have hrun := memoValues_of_missing host h
  change _ = resultOf ((s.rendering answer host.depth).collect f) s' at hpass
  rw [hpass] at hrun
  refine ⟨s', hs', ?_⟩
  cases hvalues : (s.rendering answer host.depth).collect f with
  | ok bs =>
    rw [hvalues] at hrun
    exact .inl ⟨bs, rfl, hrun⟩
  | error e =>
    rw [hvalues] at hrun
    exact .inr ⟨e, rfl, hrun⟩

theorem Fragment.memoText_ok {f : Fragment} {key : TextKey} {d : Dialect} {s : Session ω}
    {text : String} (h : (s.cacheOf f).texts.get? key = some text ∨
      (s.cacheOf f).texts.get? key = none ∧
        (s.rendering answer host.depth).flatten d f = .ok text) :
    ∃ s', f.memoText host key d s = .ok text s' ∧ s'.reading answer = s.reading answer ∧
      (s'.cacheOf f).values = (s.cacheOf f).values := by
  rcases h with hkept | ⟨hmissing, htext⟩
  · exact ⟨s, memoText_of_kept hkept d, rfl, rfl⟩
  · obtain ⟨s', hs', ⟨text', htext', hrun⟩ | ⟨e, he, -⟩⟩ := memoText_now hhost hmissing d
    · rw [htext] at htext'
      cases htext'
      refine ⟨_, hrun, hs'.reading_eq, ?_⟩
      rw [Session.cacheOf_rememberText, if_pos rfl, Session.cacheOf, hs'.caches]
      rfl
    · rw [htext] at he
      cases he

theorem Fragment.memoValues_ok {f : Fragment} {s : Session ω} {bs : List Bound}
    (h : (s.cacheOf f).values = some bs ∨
      (s.cacheOf f).values = none ∧ (s.rendering answer host.depth).collect f = .ok bs) :
    ∃ s', f.memoValues host s = .ok bs s' := by
  rcases h with hkept | ⟨hmissing, hvalues⟩
  · exact ⟨s, memoValues_of_kept hkept⟩
  · obtain ⟨s', -, ⟨bs', hvalues', hrun⟩ | ⟨e, he, -⟩⟩ := memoValues_now hhost hmissing
    · rw [hvalues] at hvalues'
      cases hvalues'
      exact ⟨_, hrun⟩
    · rw [hvalues] at he
      cases he

end Obeys

/-! ## Registered dialects -/

/-- Each object that the registry holds is of the class that is registered. -/
def Registry.Sound (r : Registry) : Prop :=
  ∀ t o, r.object? t = some o → ∃ c, r.class? t = some c ∧ c.dialect? = some o.dialect

theorem Rendering.dialectFor_eq_ok_iff {U : Rendering} {t : String} {d : Dialect} :
    U.dialectFor t = .ok d ↔ ∃ c, U.registry.class? t = some c ∧ c.dialect? = some d := by
  unfold dialectFor
  cases U.registry.class? t with
  | none => simp
  | some c => cases h : c.dialect? <;> simp [h]

namespace Registry.Sound

variable {r : Registry}

theorem initial : Registry.initial.Sound := by
  intro t o ho
  cases ho

theorem register (h : r.Sound) (name : String) (c : DialectClass) : (r.register name c).Sound := by
  intro t o ho
  rw [object?_register] at ho
  rw [class?_register]
  split_ifs at ho ⊢
  exact h t o ho

theorem create {r' : Registry} {fresh : Nat} {name : String} {o : DialectObject} (h : r.Sound)
    (hcreate : r.create fresh name = .ok (o, r')) : r'.Sound := by
  cases ho : r.object? name with
  | some o' =>
    rw [create_of_object? ho] at hcreate
    cases hcreate
    exact h
  | none =>
    simp only [Registry.create, ho] at hcreate
    split at hcreate
    · cases hcreate
    · next c hc =>
      split at hcreate
      · cases hcreate
      · next o' hnew =>
        cases hcreate
        obtain ⟨d, hd, rfl⟩ := Option.map_eq_some_iff.mp hnew
        intro t o ho'
        change (r.objects.insert name _).get? t = some o at ho'
        rw [Table.get?_insert] at ho'
        split_ifs at ho' with hname
        · cases ho'
          cases hname
          exact ⟨c, hc, hd⟩
        · exact h t o ho'

end Registry.Sound

theorem createDialect_reading {s s' : Session ω} {t : String} {o : DialectObject}
    (h : createDialect (.str t) s = .ok o s')
    (answer : Callable → Fragment → Except Failure Value) :
    s'.reading answer = s.reading answer := by
  obtain ⟨-, -, -, hheap, -⟩ := createDialect_ok h
  rw [Session.reading, hheap]
  rfl

/-- **An object that is looked up** is of the class that is registered at present. -/
theorem createDialect_registered {s s' : Session ω} {t : String} {o : DialectObject}
    (hs : s.registry.Sound) (h : createDialect (.str t) s = .ok o s')
    (answer : Callable → Fragment → Except Failure Value) (depth : Nat) :
    (s.rendering answer depth).dialectFor t = .ok o.dialect := by
  obtain ⟨-, -, -, -, hobject, hclasses⟩ := createDialect_ok h
  have hs' : s'.registry.Sound :=
    (createDialect_keeps (fun _ _ _ _ hs hc => Registry.Sound.create hs hc) (.str t)).ok hs h
  obtain ⟨c, hclass, hd⟩ := hs' t o hobject
  rw [Registry.class?, hclasses] at hclass
  exact Rendering.dialectFor_eq_ok_iff.mpr ⟨c, hclass, hd⟩

theorem createDialect_of_dialectFor {s : Session ω} {t : String} {d : Dialect}
    {answer : Callable → Fragment → Except Failure Value} {depth : Nat} (hs : s.registry.Sound)
    (hd : (s.rendering answer depth).dialectFor t = .ok d) :
    ∃ o s', createDialect (.str t) s = .ok o s' ∧ o.dialect = d := by
  have hfound : ∃ o s', createDialect (.str t) s = .ok o s' := by
    obtain ⟨c, hc, hcd⟩ := Rendering.dialectFor_eq_ok_iff.mp hd
    change s.registry.class? t = some c at hc
    rw [createDialect_str]
    cases ho : s.registry.object? t with
    | some o =>
      rw [Registry.create_of_object? ho]
      exact ⟨o, _, rfl⟩
    | none =>
      simp only [Registry.create, ho, hc, DialectClass.instantiate?, hcd, Option.map_some]
      exact ⟨_, _, rfl⟩
  obtain ⟨o, s', hcreate⟩ := hfound
  have hsame := createDialect_registered hs hcreate answer depth
  rw [hd] at hsame
  cases hsame
  exact ⟨o, s', hcreate, rfl⟩

/-! ## What a read keeps -/

/-- Whatever is kept in `s'` and was not in `s` is what `g` renders to. -/
structure Session.Renders (U : Rendering) (g : Fragment) (s s' : Session ω) : Prop where
  texts : ∀ f key text, (s'.cacheOf f).texts.get? key = some text →
    (s.cacheOf f).texts.get? key = some text ∨
      g.id = f.id ∧ ∃ d, U.dialectOf key = .ok d ∧ U.flatten d g = .ok text
  values : ∀ f bs, (s'.cacheOf f).values = some bs →
    (s.cacheOf f).values = some bs ∨ g.id = f.id ∧ U.collect g = .ok bs

namespace Session.Renders

variable {U : Rendering} {g : Fragment} {s s' s'' : Session ω}

theorem of_caches (h : s'.caches = s.caches) : s.Renders U g s' := by
  have hcache : ∀ f, s'.cacheOf f = s.cacheOf f := by
    intro f
    rw [cacheOf, cacheOf, h]
  constructor
  · intro f key text hkept
    rw [hcache] at hkept
    exact .inl hkept
  · intro f bs hkept
    rw [hcache] at hkept
    exact .inl hkept

theorem trans (h : s.Renders U g s') (h' : s'.Renders U g s'') : s.Renders U g s'' := by
  constructor
  · intro f key text hkept
    rcases h'.texts f key text hkept with hkept | hnew
    · exact h.texts f key text hkept
    · exact .inr hnew
  · intro f bs hkept
    rcases h'.values f bs hkept with hkept | hnew
    · exact h.values f bs hkept
    · exact .inr hnew

theorem rememberText {key : TextKey} {d : Dialect} {text : String} (hd : U.dialectOf key = .ok d)
    (htext : U.flatten d g = .ok text) (s : Session ω) :
    s.Renders U g (s.rememberText g key text) := by
  constructor
  · intro f key' text' hkept
    rw [cacheOf_rememberText] at hkept
    split_ifs at hkept with hid
    · rw [Table.get?_insert] at hkept
      split_ifs at hkept with hkey
      · cases hkept
        cases hkey
        exact .inr ⟨hid, d, hd, htext⟩
      · rw [← s.cacheOf_congr hid]
        exact .inl hkept
    · exact .inl hkept
  · intro f bs hkept
    rw [cacheOf_rememberText] at hkept
    split_ifs at hkept with hid
    · rw [← s.cacheOf_congr hid]
      exact .inl hkept
    · exact .inl hkept

theorem rememberValues {bs : List Bound} (hvalues : U.collect g = .ok bs) (s : Session ω) :
    s.Renders U g (s.rememberValues g bs) := by
  constructor
  · intro f key text hkept
    rw [cacheOf_rememberValues] at hkept
    split_ifs at hkept with hid
    · rw [← s.cacheOf_congr hid]
      exact .inl hkept
    · exact .inl hkept
  · intro f bs' hkept
    rw [cacheOf_rememberValues] at hkept
    split_ifs at hkept with hid
    · cases hkept
      exact .inr ⟨hid, hvalues⟩
    · exact .inl hkept

end Session.Renders

section Reads

variable {host : Host ω} {answer : Callable → Fragment → Except Failure Value}
  (hhost : host.Obeys answer) (g : Fragment) {s : Session ω}

theorem Fragment.caches_values (host : Host ω) (s : Session ω) :
    (stateAfter (g.values host) s).caches = (stateAfter (g.memoValues host) s).caches := by
  let I : Session ω → Prop := fun s' => s'.caches = (stateAfter (g.memoValues host) s).caches
  refine stateAfter_bind (I := I) (J := I) rfl (fun _ h => h) fun bs => ?_
  exact (handOut_keeps (fun _ _ hs => hs) bs).bind fun items => fun _ hs => hs

include hhost

theorem Fragment.memoText_renders {key : TextKey} {d : Dialect}
    (hd : (s.rendering answer host.depth).dialectOf key = .ok d) :
    Keeps (fun s' => s'.reading answer = s.reading answer ∧
      s.Renders (s.rendering answer host.depth) g s') (g.memoText host key d) := by
  rintro s₁ ⟨hreading, hrenders⟩
  cases hkept : (s₁.cacheOf g).texts.get? key with
  | some text =>
    have hrun : g.memoText host key d s₁ = .ok text s₁ := memoText_of_kept hkept d
    rw [stateAfter_ok hrun]
    exact ⟨hreading, hrenders⟩
  | none =>
    obtain ⟨s₂, hs₂, ⟨text, htext, hrun⟩ | ⟨e, -, hrun⟩⟩ := memoText_now hhost hkept d
    · have htext' : (s.rendering answer host.depth).flatten d g = .ok text := by
        rw [← htext]
        change (s.reading answer).flatten host.depth d g =
          (s₁.reading answer).flatten host.depth d g
        rw [hreading]
      rw [stateAfter_ok hrun]
      refine ⟨hs₂.reading_eq.trans hreading, ?_⟩
      exact (hrenders.trans (.of_caches hs₂.caches)).trans (.rememberText hd htext' s₂)
    · rw [stateAfter_error hrun]
      exact ⟨hs₂.reading_eq.trans hreading, hrenders.trans (.of_caches hs₂.caches)⟩

theorem Fragment.memoValues_renders :
    Keeps (fun s' => s'.reading answer = s.reading answer ∧
      s.Renders (s.rendering answer host.depth) g s') (g.memoValues host) := by
  rintro s₁ ⟨hreading, hrenders⟩
  cases hkept : (s₁.cacheOf g).values with
  | some bs =>
    have hrun : g.memoValues host s₁ = .ok bs s₁ := memoValues_of_kept hkept
    rw [stateAfter_ok hrun]
    exact ⟨hreading, hrenders⟩
  | none =>
    obtain ⟨s₂, hs₂, ⟨bs, hbs, hrun⟩ | ⟨e, -, hrun⟩⟩ := memoValues_now hhost hkept
    · have hbs' : (s.rendering answer host.depth).collect g = .ok bs := by
        rw [← hbs]
        change (s.reading answer).collect host.depth g = (s₁.reading answer).collect host.depth g
        rw [hreading]
      rw [stateAfter_ok hrun]
      refine ⟨hs₂.reading_eq.trans hreading, ?_⟩
      exact (hrenders.trans (.of_caches hs₂.caches)).trans (.rememberValues hbs' s₂)
    · rw [stateAfter_error hrun]
      exact ⟨hs₂.reading_eq.trans hreading, hrenders.trans (.of_caches hs₂.caches)⟩

theorem Fragment.values_renders {s' : Session ω} (hreading : s'.reading answer = s.reading answer)
    (hrenders : s.Renders (s.rendering answer host.depth) g s') :
    s.Renders (s.rendering answer host.depth) g (stateAfter (g.values host) s') := by
  obtain ⟨-, hvalues⟩ := g.memoValues_renders hhost s' ⟨hreading, hrenders⟩
  exact hvalues.trans (.of_caches (g.caches_values host s'))

/-- **A read keeps** nothing but what the fragment renders to at present. -/
theorem Read.perform_renders (hs : s.registry.Sound) (r : Read) :
    s.Renders (s.rendering answer host.depth) g (stateAfter (r.perform host g) s) := by
  have hself : s.reading answer = s.reading answer ∧
      s.Renders (s.rendering answer host.depth) g s := ⟨rfl, .of_caches rfl⟩
  have htext : ∀ key d, (s.rendering answer host.depth).dialectOf key = .ok d →
      s.Renders (s.rendering answer host.depth) g
        (stateAfter (g.memoText host key d >>= fun t => pure (Answer.text t)) s) := by
    intro key d hd
    exact (((g.memoText_renders hhost hd).bind fun t => .pure (Answer.text t)) s hself).2
  cases r with
  | text => exact htext .text _ rfl
  | str => exact htext .text _ rfl
  | sql => exact htext .sql _ rfl
  | values =>
    refine stateAfter_bind (g.values_renders hhost hself.1 hself.2) (fun _ h => h) ?_
    exact fun l s' hs' => hs'
  | compile t =>
    rw [perform_compile]
    cases hcreate : createDialect (.str t) s with
    | error e s' =>
      rw [stateAfter_bind_error hcreate, createDialect_error hcreate]
      exact hself.2
    | ok o s₁ =>
      obtain ⟨hcaches, -⟩ := createDialect_ok hcreate
      have hd := createDialect_registered hs hcreate answer host.depth
      have hreading := createDialect_reading hcreate answer
      have hkey : (s.rendering answer host.depth).dialectOf (.target t) = .ok o.dialect := hd
      have hkeys := g.memoText_renders hhost hkey
      let I : Session ω → Prop := fun s' => s.Renders (s.rendering answer host.depth) g s'
      let J : Session ω → Prop := fun s' => s'.reading answer = s.reading answer ∧ I s'
      rw [stateAfter_bind_ok hcreate]
      refine stateAfter_bind (I := I) (J := J) (hkeys s₁ ⟨hreading, .of_caches hcaches⟩)
        (fun _ h => h.2) ?_
      rintro text s₂ ⟨hreading₂, hrenders₂⟩
      refine stateAfter_bind (I := I) (J := I) (g.values_renders hhost hreading₂ hrenders₂)
        (fun _ h => h) ?_
      exact fun l s₃ hs₃ => hs₃.trans (.of_caches rfl)

end Reads

end SqlFragments
