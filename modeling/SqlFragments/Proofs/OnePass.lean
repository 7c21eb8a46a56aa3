import SqlFragments.Proofs.Histories

/-!
# One pass for each key

A getter that has nothing to give runs one pass. If the pass fails, nothing is kept and the next
access runs another. Once it has succeeded, no access runs a pass again: none asks a callable or
writes to the log, whatever has happened since. To compile is to look up the target, then to access
the text and then the values.

* `Session.renderings`: what the log says was rendered. `Session.Passed`: one pass has run, and
  nothing is kept of it yet.
* `Host.UsesNoGetters`, `Host.KeepsTarget`: callables that use no getters, and callables that do not
  register a target again.
* `Session.Gathered`: values that are kept were gathered by a pass. **`after_gathered`**: so it is
  in every history.
* `Session.Quiet`: no callable was asked, nothing rendered and nothing kept.
* `Read.SettledIn`: everything that a read needs is kept. **`Read.settledIn_of_ok`**,
  **`Read.SettledIn.after`**, **`Read.SettledIn.perform`**: it is once the read succeeded, it stays
  so, and the read gives the same.
* **`passes_all_or_nothing`**.
-/

namespace SqlFragments

variable {ω α : Type}

/-! ## What was rendered -/

def LogRecord.rendering? : LogRecord → Option (GetterKey × String)
  | rendering key fragment => some (key, fragment)
  | builtFromTemplate _ => none

/-- The renderings in the log, each with the fragment as it was shown. -/
def Session.renderings (s : Session ω) : List (GetterKey × String) :=
  s.log.toList.filterMap LogRecord.rendering?

/-- A pass has run, and nothing is kept of it yet. -/
structure Session.Passed (s : Session ω) (f : Fragment) (key : GetterKey) (s' : Session ω) :
    Prop where
  caches : s'.caches = s.caches
  renderings : s'.renderings = s.renderings ++ [(key, f.shown)]

theorem Session.passed_record (s : Session ω) (f : Fragment) (key : GetterKey) :
    s.Passed f key (s.record (.rendering key f.shown)) := by
  refine ⟨rfl, ?_⟩
  rw [renderings, record, Array.toList_push, List.filterMap_append]
  rfl

/-! ## Callables -/

/-- Callables that use no getters: while they answer, nothing is kept and nothing is rendered. Their
answers may depend on anything, and they may fail. -/
structure Host.UsesNoGetters (host : Host ω) : Prop where
  caches : host.LeavesCaches
  renderings : ∀ c f s, (stateAfter (host.call c f) s).renderings = s.renderings

theorem Host.UsesNoGetters.passed {host : Host ω} (h : host.UsesNoGetters) (s : Session ω)
    (f : Fragment) (key : GetterKey) (c : Callable) (g : Fragment) :
    Keeps (fun s' => s.Passed f key s') (host.call c g) := by
  intro s' hs'
  refine ⟨?_, ?_⟩
  · rw [h.caches]
    exact hs'.caches
  · rw [h.renderings]
    exact hs'.renderings

/-- Callables that do not register `t` again. -/
def Host.KeepsTarget (host : Host ω) (t : String) : Prop :=
  ∀ c f o, Keeps (fun s => s.registry.object? t = some o) (host.call c f)

theorem Host.KeepsTarget.sustains {host : Host ω} {t : String} (h : host.KeepsTarget t)
    (o : DialectObject) : host.Sustains fun s => s.registry.object? t = some o where
  call c f := h c f o
  record _ _ hs := hs
  cache _ _ _ hs := hs
  allocate _ _ hs := hs
  fresh _ hs := hs
  create _ _ _ _ hs hcreate := (Registry.create_ok hcreate).2.2 t o hs

/-! ## Accesses -/

section Access

variable {host : Host ω} {f : Fragment} {s s' : Session ω}

theorem Fragment.kept_of_memoText {key : TextKey} {d : Dialect} {text : String}
    (h : f.memoText host key d s = .ok text s') :
    (s'.cacheOf f).texts.get? key = some text := by
  rcases f.memoText_cases (I := fun _ => True) (fun _ _ _ _ => trivial) key d (s := s) trivial with
    ⟨text', hkept, hrun⟩ | ⟨-, ⟨text', s₁, -, -, hrun⟩ | ⟨e, s₁, -, -, hrun⟩⟩
  · rw [h] at hrun
    cases hrun
    exact hkept
  · rw [h] at hrun
    cases hrun
    rw [Session.cacheOf_rememberText, if_pos rfl]
    exact Table.get?_insert_self _ _ _
  · rw [h] at hrun
    cases hrun

/-- The session differs in new list objects and identities only: no callable was asked, nothing was
rendered, and nothing kept or dropped. -/
structure Session.Quiet (s s' : Session ω) : Prop where
  undisturbed : s.Undisturbed s'
  log : s'.log = s.log
  memory : s'.memory = s.memory

theorem Session.Quiet.refl (s : Session ω) : s.Quiet s := ⟨.refl s, rfl, rfl⟩

theorem Session.Quiet.trans {s s' s'' : Session ω} (h : s.Quiet s') (h' : s'.Quiet s'') :
    s.Quiet s'' :=
  ⟨h.undisturbed.trans h'.undisturbed, h'.log.trans h.log, h'.memory.trans h.memory⟩

theorem Session.quiet_allocate (s : Session ω) (items : List Value) :
    s.Quiet { s with heap := s.heap.allocate items } :=
  ⟨s.undisturbed_allocate items, rfl, rfl⟩

theorem Session.quiet_fresh (s : Session ω) (n : Nat) : s.Quiet { s with fresh := n } :=
  ⟨s.undisturbed_fresh n, rfl, rfl⟩

/-- **Values are handed out** in a list object that stands for them from then on. -/
theorem Fragment.values_of_memoValues {bs : List Bound} (h : f.memoValues host s = .ok bs s')
    (hbs : ∀ b ∈ bs, b.Plain) :
    ∃ r s'', f.values host s = .ok r s'' ∧ s'.Quiet s'' ∧
      ∀ t : Session ω, s''.Undisturbed t → boundsIn t.heap r = bs := by
  obtain ⟨items, s₁, hout, -, hread⟩ := handOut_eq hbs s'
  have hquiet : s'.Quiet s₁ :=
    (handOut_keeps (I := fun s₁ => s'.Quiet s₁)
      (fun s₁ items hs₁ => hs₁.trans (s₁.quiet_allocate items)) bs).ok (.refl s') hout
  have hnew := s₁.quiet_allocate items
  refine ⟨s₁.heap.nextRef, _, ?_, hquiet.trans hnew, fun t ht => ?_⟩
  · rw [values, Pass.bind_ok h, Pass.bind_ok hout]
    rfl
  · obtain ⟨-, he⟩ := ht.lists _ (holds_nextRef_allocate s₁.heap items)
    have hitems : t.heap.elements s₁.heap.nextRef = items :=
      he.trans (s₁.heap.elements_allocate_self items)
    rw [boundsIn, hitems]
    exact hread t (hnew.undisturbed.trans ht)

end Access

/-- Values that are kept were gathered by a pass, so no list object is kept by itself. -/
def Session.Gathered (s : Session ω) : Prop :=
  ∀ f bs, (s.cacheOf f).values = some bs → ∀ b ∈ bs, b.Plain

theorem Session.Gathered.of_caches {s s' : Session ω} (hs : s.Gathered)
    (h : s'.caches = s.caches) : s'.Gathered := by
  intro f bs hkept
  rw [cacheOf, h] at hkept
  exact hs f bs hkept

/-- Calls let values be kept only as a pass gathers them. -/
def Host.Gathers (host : Host ω) : Prop := ∀ c f, Keeps Session.Gathered (host.call c f)

theorem Host.LeavesCaches.gathers {host : Host ω} (h : host.LeavesCaches) : host.Gathers :=
  fun c f s hs => hs.of_caches (h c f s)

section Gathered

variable {host : Host ω} (hhost : host.Gathers)

include hhost

/-- **Getters keep** what a pass gathered. -/
theorem Host.Gathers.maintains : host.Maintains Session.Gathered where
  text := by
    intro f key d s hs
    rcases f.memoText_cases hhost key d (s := s) (hs.of_caches rfl) with
      ⟨text, -, hrun⟩ | ⟨-, ⟨text, s', hs', -, hrun⟩ | ⟨e, s', hs', -, hrun⟩⟩
    · rwa [stateAfter_ok hrun]
    · rw [stateAfter_ok hrun]
      intro g bs hkept
      rw [Session.cacheOf_rememberText] at hkept
      split_ifs at hkept
      · exact hs' f bs hkept
      · exact hs' g bs hkept
    · rwa [stateAfter_error hrun]
  values := by
    intro f s hs
    rcases f.memoValues_cases hhost (s := s) (hs.of_caches rfl) with
      ⟨bs, -, hrun⟩ | ⟨-, ⟨bs, s', hs', hpass, hrun⟩ | ⟨e, s', hs', -, hrun⟩⟩
    · rwa [stateAfter_ok hrun]
    · rw [stateAfter_ok hrun]
      intro g bs' hkept
      rw [Session.cacheOf_rememberValues] at hkept
      split_ifs at hkept
      · cases hkept
        exact Fragment.bindings_plain hpass
      · exact hs' g bs' hkept
    · rwa [stateAfter_error hrun]
  allocate _ _ hs := hs.of_caches rfl
  fresh _ hs := hs.of_caches rfl
  create _ _ _ _ hs _ := hs.of_caches rfl

/-- **In every history**, values that are kept were gathered by a pass. -/
theorem after_gathered (xs : List (Act ω)) {b : Bench (Session ω)} (hb : b.state.Gathered) :
    (after host b xs).state.Gathered := by
  induction xs generalizing b with
  | nil => exact hb
  | cons x xs ih =>
    exact ih (Act.keeps hhost.maintains.read (fun hx => hb.of_caches (Act.perform_caches hx b)) hb)

end Gathered

theorem Session.gathered_initial (memory : ω) : (Session.initial memory).Gathered := by
  intro f bs hkept
  cases hkept

/-! ## Reads that need no pass -/

theorem createDialect_of_object {s : Session ω} {t : String} {o : DialectObject}
    (h : s.registry.object? t = some o) :
    createDialect (.str t) s = .ok o { s with fresh := s.fresh + 1 } := by
  rw [createDialect_str, Registry.create_of_object? h]

namespace Read

/-- Everything that a read needs is kept, and it gives `a`. -/
def SettledIn (f : Fragment) (a : Answer) (s : Session ω) : Read → Prop
  | text | str => ∃ t, a = .text t ∧ (s.cacheOf f).texts.get? .text = some t
  | sql => ∃ t, a = .text t ∧ (s.cacheOf f).texts.get? .sql = some t
  | values => ∃ bs, a = .values bs ∧ (s.cacheOf f).values = some bs ∧ ∀ b ∈ bs, b.Plain
  | compile target => ∃ o t bs, a = .query (.str t) bs (.str target) (.ofName f.name) ∧
    s.registry.object? target = some o ∧ (s.cacheOf f).texts.get? (.target target) = some t ∧
    (s.cacheOf f).values = some bs ∧ ∀ b ∈ bs, b.Plain

/-- The target of a read, if it has one, is not registered again. -/
def TargetStays (host : Host ω) (xs : List (Act ω)) : Read → Prop
  | compile t => host.KeepsTarget t ∧ ∀ c, .register t c ∉ xs
  | _ => True

end Read

section Settled

variable {host : Host ω} {f : Fragment} {s s' : Session ω} {r : Read} {a : Answer}

theorem Fragment.kept_of_memoValues {bs : List Bound} (h : f.memoValues host s = .ok bs s') :
    (s'.cacheOf f).values = some bs := by
  rcases f.memoValues_cases (I := fun _ => True) (fun _ _ _ _ => trivial) (s := s) trivial with
    ⟨bs', hkept, hrun⟩ | ⟨-, ⟨bs', s₁, -, -, hrun⟩ | ⟨e, s₁, -, -, hrun⟩⟩
  · rw [h] at hrun
    cases hrun
    exact hkept
  · rw [h] at hrun
    cases hrun
    rw [Session.cacheOf_rememberValues, if_pos rfl]
  · rw [h] at hrun
    cases hrun

theorem Fragment.values_ok (hhost : host.Gathers) (hs : s.Gathered) {l : ListRef}
    (h : f.values host s = .ok l s') :
    ∃ bs, (s'.cacheOf f).values = some bs ∧ (∀ b ∈ bs, b.Plain) ∧ boundsIn s'.heap l = bs := by
  obtain ⟨bs, s₁, hmemo, -⟩ := Pass.bind_eq_ok h
  have hkept := kept_of_memoValues hmemo
  have hplain := (hhost.maintains.values f).ok hs hmemo f bs hkept
  obtain ⟨l', s'', hvalues, hquiet, hread⟩ := values_of_memoValues hmemo hplain
  rw [h] at hvalues
  cases hvalues
  refine ⟨bs, ?_, hplain, hread s' (.refl s')⟩
  rw [Session.cacheOf, hquiet.undisturbed.caches]
  exact hkept

/-- **A read that succeeded** leaves everything that it needs. -/
theorem Read.settledIn_of_ok (hhost : host.LeavesCaches) (hs : s.Gathered)
    (ht : r.TargetStays host []) (h : r.perform host f s = .ok a s') : r.SettledIn f a s' := by
  cases r with
  | values =>
    obtain ⟨l, s₁, hvalues, hrest⟩ := Pass.bind_eq_ok h
    cases hrest
    obtain ⟨bs, hkept, hplain, hread⟩ := Fragment.values_ok hhost.gathers hs hvalues
    exact ⟨bs, congrArg Answer.values hread, hkept, hplain⟩
  | compile target =>
    rw [perform_compile] at h
    obtain ⟨o, s₁, hcreate, h⟩ := Pass.bind_eq_ok h
    obtain ⟨text, s₂, htext, h⟩ := Pass.bind_eq_ok h
    obtain ⟨l, s₃, hvalues, h⟩ := Pass.bind_eq_ok h
    cases h
    have hsustains := ht.1.sustains o
    obtain ⟨-, -, -, -, hobject, -⟩ := createDialect_ok hcreate
    have hgathers := hhost.gathers.maintains
    have hs₁ := (hgathers.createDialect (.str target)).ok hs hcreate
    have hs₂ := (hgathers.text f _ _).ok hs₁ htext
    have hobject₂ := (hsustains.memoText f _ _).ok hobject htext
    have hobject₃ := (hsustains.maintains.handedOut f).ok hobject₂ hvalues
    obtain ⟨bs, hkept, hplain, hread⟩ := Fragment.values_ok hhost.gathers hs₂ hvalues
    have hkeptIn : s₂.KeptIn s₃ :=
      ((hhost.dropsNothing.maintains s₂).handedOut f).ok (.of_caches rfl) hvalues
    refine ⟨o, text, bs, ?_, hobject₃, hkeptIn.texts f _ _ (Fragment.kept_of_memoText htext), hkept,
      hplain⟩
    rw [hread]
  | _ =>
    obtain ⟨t, s₁, htext, hrest⟩ := Pass.bind_eq_ok h
    cases hrest
    exact ⟨t, rfl, Fragment.kept_of_memoText htext⟩

theorem after_object {t : String} (hhost : host.KeepsTarget t) {o : DialectObject}
    (xs : List (Act ω)) (hxs : ∀ c, .register t c ∉ xs) {b : Bench (Session ω)}
    (hb : b.state.registry.object? t = some o) :
    (after host b xs).state.registry.object? t = some o := by
  induction xs generalizing b with
  | nil => exact hb
  | cons x xs ih =>
    refine ih (fun c hc => hxs c (List.mem_cons_of_mem x hc)) ?_
    refine Act.keeps (hhost.sustains o).read (fun hx => ?_) hb
    refine (Act.perform_frame host hx b).objects t o (fun c hc => ?_) hb
    rw [hc] at hxs
    exact hxs c List.mem_cons_self

/-- **Whatever happens**, what a read needs stays. -/
theorem Read.SettledIn.after (hhost : host.LeavesCaches) {b : Bench (Session ω)}
    (h : r.SettledIn f a b.state) (xs : List (Act ω)) (ht : r.TargetStays host xs) :
    r.SettledIn f a (SqlFragments.after host b xs).state := by
  have hkept := after_keptIn hhost.dropsNothing xs b
  cases r with
  | values =>
    obtain ⟨bs, ha, hvalues, hplain⟩ := h
    exact ⟨bs, ha, hkept.values f bs hvalues, hplain⟩
  | compile target =>
    obtain ⟨o, t, bs, ha, hobject, htext, hvalues, hplain⟩ := h
    exact ⟨o, t, bs, ha, after_object ht.1 xs ht.2 hobject, hkept.texts f _ t htext,
      hkept.values f bs hvalues, hplain⟩
  | _ =>
    obtain ⟨t, ha, htext⟩ := h
    exact ⟨t, ha, hkept.texts f _ t htext⟩

/-- **A read that needs no pass** gives the same whoever would answer the callables. -/
theorem Read.SettledIn.perform (h : r.SettledIn f a s) (host : Host ω) :
    ∃ s', r.perform host f s = .ok a s' ∧ s.Quiet s' := by
  have htext : ∀ {key t} (d : Dialect), (s.cacheOf f).texts.get? key = some t →
      f.memoText host key d s = .ok t s := fun d => Fragment.memoText_of_kept (d := d)
  cases r with
  | values =>
    obtain ⟨bs, rfl, hkept, hplain⟩ := h
    have hmemo : f.memoValues host s = .ok bs s := Fragment.memoValues_of_kept hkept
    obtain ⟨l, s', hvalues, hquiet, hread⟩ := Fragment.values_of_memoValues hmemo hplain
    refine ⟨s', ?_, hquiet⟩
    rw [Read.perform, Pass.bind_ok hvalues, Pass.get_bind, hread s' (.refl s')]
    rfl
  | compile target =>
    obtain ⟨o, t, bs, rfl, hobject, hkept, hvalues, hplain⟩ := h
    let s₁ : Session ω := { s with fresh := s.fresh + 1 }
    have hmemo : f.memoText host (.target target) o.dialect s₁ = .ok t s₁ :=
      Fragment.memoText_of_kept (s := s₁) hkept o.dialect
    have hmemo' : f.memoValues host s₁ = .ok bs s₁ :=
      Fragment.memoValues_of_kept (s := s₁) hvalues
    obtain ⟨l, s', hlist, hquiet, hread⟩ := Fragment.values_of_memoValues hmemo' hplain
    refine ⟨{ s' with fresh := s'.fresh + 1 }, ?_, ?_⟩
    · rw [perform_compile, Pass.bind_ok (createDialect_of_object hobject), Pass.bind_ok hmemo,
        Pass.bind_ok hlist, ← hread s' (.refl s')]
      rfl
    · exact ((s.quiet_fresh _).trans hquiet).trans (s'.quiet_fresh _)
  | _ =>
    obtain ⟨t, rfl, hkept⟩ := h
    exact ⟨s, Pass.bind_ok (htext _ hkept) _, .refl s⟩

end Settled

/-! ## Compiling -/

/-- The end of a compile, once there is a text: the values are accessed. -/
def Fragment.finishCompile (host : Host ω) (f : Fragment) (t text : String) : Op ω Answer := do
  let l ← f.values host
  modifyGet fun s =>
    (.query (.str text) (boundsIn s.heap l) (.str t) (.ofName f.name),
      { s with fresh := s.fresh + 1 })

section Compile

variable {host : Host ω} (hhost : host.UsesNoGetters) {f : Fragment} {s s₀ s₁ s₂ : Session ω}
  {t text : String} {o : DialectObject} {e : Failure}

theorem Read.perform_compile_eq (host : Host ω) (f : Fragment) (t : String) :
    (Read.compile t).perform host f = (do
      let o ← createDialect (.str t)
      let text ← f.memoText host (.target t) o.dialect
      f.finishCompile host t text) :=
  perform_compile host f t

include hhost

theorem Fragment.memoText_of_absent {key : TextKey} (h : (s.cacheOf f).texts.get? key = none)
    (d : Dialect) :
    (∃ text s', f.statement host.environment d (s.record (.rendering (.text key) f.shown)) =
        .ok text s' ∧ s.Passed f (.text key) s' ∧
        f.memoText host key d s = .ok text (s'.rememberText f key text)) ∨
      ∃ e s', f.statement host.environment d (s.record (.rendering (.text key) f.shown)) =
        .error e s' ∧ s.Passed f (.text key) s' ∧ f.memoText host key d s = .error e s' := by
  rcases f.memoText_cases (hhost.passed s f (.text key)) key d (s.passed_record f _) with
    ⟨text, hkept, -⟩ | ⟨-, ⟨text, s', hs', hpass, hrun⟩ | ⟨e, s', hs', hpass, hrun⟩⟩
  · rw [h] at hkept
    cases hkept
  · exact .inl ⟨text, s', hpass, hs', hrun⟩
  · exact .inr ⟨e, s', hpass, hs', hrun⟩

theorem Fragment.values_of_absent (h : (s.cacheOf f).values = none) :
    (∃ bs s' l s'', f.bindings host.environment (s.record (.rendering .values f.shown)) =
        .ok bs s' ∧ s.Passed f .values s' ∧ f.values host s = .ok l s'' ∧
        (s'.rememberValues f bs).Quiet s'' ∧ boundsIn s''.heap l = bs) ∨
      ∃ e s', f.bindings host.environment (s.record (.rendering .values f.shown)) =
        .error e s' ∧ s.Passed f .values s' ∧ f.values host s = .error e s' := by
  rcases f.memoValues_cases (hhost.passed s f .values) (s.passed_record f _) with
    ⟨bs, hkept, -⟩ | ⟨-, ⟨bs, s', hs', hpass, hrun⟩ | ⟨e, s', hs', hpass, hrun⟩⟩
  · rw [h] at hkept
    cases hkept
  · obtain ⟨l, s'', hvalues, hquiet, hread⟩ := values_of_memoValues hrun (bindings_plain hpass)
    exact .inl ⟨bs, s', l, s'', hpass, hs', hvalues, hquiet, hread s'' (.refl s'')⟩
  · exact .inr ⟨e, s', hpass, hs', Pass.bind_error hrun _⟩

theorem Fragment.renderings_memoText (f : Fragment) (key : TextKey) (d : Dialect) (s : Session ω) :
    ∃ more, more.Sublist [(.text key, f.shown)] ∧
      (∀ text, (s.cacheOf f).texts.get? key = some text → more = []) ∧
      (stateAfter (f.memoText host key d) s).renderings = s.renderings ++ more := by
  rcases f.memoText_cases (hhost.passed s f (.text key)) key d (s.passed_record f _) with
    ⟨text, -, hrun⟩ | ⟨hmissing, ⟨text, s', hs', -, hrun⟩ | ⟨e, s', hs', -, hrun⟩⟩
  · refine ⟨[], List.nil_sublist _, fun _ _ => rfl, ?_⟩
    rw [stateAfter_ok hrun, List.append_nil]
  · refine ⟨_, .refl _, by simp [hmissing], ?_⟩
    rw [stateAfter_ok hrun]
    exact hs'.renderings
  · refine ⟨_, .refl _, by simp [hmissing], ?_⟩
    rw [stateAfter_error hrun]
    exact hs'.renderings

theorem Fragment.renderings_values (f : Fragment) (s : Session ω) :
    ∃ more, more.Sublist [(.values, f.shown)] ∧
      (∀ bs, (s.cacheOf f).values = some bs → more = []) ∧
      (stateAfter (f.values host) s).renderings = s.renderings ++ more := by
  have hout : ∀ bs (renderings : List (GetterKey × String)),
      Keeps (fun s : Session ω => s.renderings = renderings)
        (handOut bs >>= fun items => newListRef items) := by
    intro bs renderings
    exact (handOut_keeps (fun _ _ hs => hs) bs).bind fun items => fun _ hs => hs
  rcases f.memoValues_cases (hhost.passed s f .values) (s.passed_record f _) with
    ⟨bs, -, hrun⟩ | ⟨hmissing, ⟨bs, s', hs', -, hrun⟩ | ⟨e, s', hs', -, hrun⟩⟩
  · refine ⟨[], List.nil_sublist _, fun _ _ => rfl, ?_⟩
    rw [values, stateAfter_bind_ok hrun, List.append_nil]
    exact hout bs s.renderings s rfl
  · refine ⟨_, .refl _, by simp [hmissing], ?_⟩
    rw [values, stateAfter_bind_ok hrun, ← hs'.renderings]
    exact hout bs s'.renderings (s'.rememberValues f bs) rfl
  · refine ⟨_, .refl _, by simp [hmissing], ?_⟩
    rw [values, stateAfter_bind_error hrun]
    exact hs'.renderings

/-- **A compile** renders the text for its target if it is missing, and then the values if they are
missing, and nothing else. -/
theorem Read.renderings_compile (f : Fragment) (t : String) (s : Session ω) :
    ∃ first second, first.Sublist [(.text (.target t), f.shown)] ∧
      second.Sublist [(.values, f.shown)] ∧
      (∀ text, (s.cacheOf f).texts.get? (.target t) = some text → first = []) ∧
      (∀ bs, (s.cacheOf f).values = some bs → second = []) ∧
      (stateAfter ((compile t).perform host f) s).renderings = s.renderings ++ first ++ second := by
  rw [perform_compile_eq]
  cases hcreate : createDialect (.str t) s with
  | error e s₀ =>
    refine ⟨[], [], List.nil_sublist _, List.nil_sublist _, fun _ _ => rfl, fun _ _ => rfl, ?_⟩
    rw [stateAfter_bind_error hcreate, createDialect_error hcreate, List.append_nil,
      List.append_nil]
  | ok o s₀ =>
    obtain ⟨hcaches, hlog, -⟩ := createDialect_ok hcreate
    have hsame : s₀.renderings = s.renderings := by
      unfold Session.renderings
      rw [hlog]
    have hkept₀ : s.KeptIn s₀ := .of_caches hcaches
    obtain ⟨first, hfirst, hnone, htext⟩ := f.renderings_memoText hhost (.target t) o.dialect s₀
    have hnone' : ∀ text, (s.cacheOf f).texts.get? (.target t) = some text → first = [] :=
      fun text hkept => hnone text (hkept₀.texts f _ text hkept)
    rw [hsame] at htext
    cases hrun : f.memoText host (.target t) o.dialect s₀ with
    | error e s₁ =>
      refine ⟨first, [], hfirst, List.nil_sublist _, hnone', fun _ _ => rfl, ?_⟩
      rw [stateAfter_error hrun] at htext
      rw [stateAfter_bind_ok hcreate, stateAfter_bind_error hrun, htext, List.append_nil]
    | ok text s₁ =>
      have hkept₁ : s₀.KeptIn (stateAfter (f.memoText host (.target t) o.dialect) s₀) :=
        (hhost.caches.dropsNothing.maintains s₀).text f _ _ s₀ (.of_caches rfl)
      obtain ⟨second, hsecond, hempty, hvalues⟩ := f.renderings_values hhost s₁
      rw [stateAfter_ok hrun] at htext hkept₁
      refine ⟨first, second, hfirst, hsecond, hnone', fun bs hkept => ?_, ?_⟩
      · exact hempty bs ((hkept₀.trans hkept₁).values f bs hkept)
      · let I : Session ω → Prop := fun s' =>
          s'.renderings = (stateAfter (f.values host) s₁).renderings
        rw [← htext, ← hvalues, stateAfter_bind_ok hcreate, stateAfter_bind_ok hrun]
        exact stateAfter_bind (I := I) (J := I) rfl (fun _ h => h) fun l s₂ hs₂ => hs₂

/-- **After the values failed**, the text stays, and all that is left of a compile is the end. -/
theorem Read.compile_retry (hcreate : createDialect (.str t) s = .ok o s₀)
    (htext : f.memoText host (.target t) o.dialect s₀ = .ok text s₁)
    (hvalues : f.values host s₁ = .error e s₂) :
    (s₂.cacheOf f).texts.get? (.target t) = some text ∧
      ∀ pool xs, (Read.compile t).TargetStays host xs →
        let s' := (after host ⟨pool, s₂⟩ xs).state
        ∀ host' : Host ω, (Read.compile t).perform host' f s' =
          f.finishCompile host' t text { s' with fresh := s'.fresh + 1 } := by
  have hkept : s₁.KeptIn s₂ :=
    ((hhost.caches.dropsNothing.maintains s₁).handedOut f).error (.of_caches rfl) hvalues
  have hstays := hkept.texts f _ _ (Fragment.kept_of_memoText htext)
  refine ⟨hstays, fun pool xs ht => ?_⟩
  intro s' host'
  have hsustains := ht.1.sustains o
  obtain ⟨-, -, -, -, hobject₀, -⟩ := createDialect_ok hcreate
  have hobject₁ := (hsustains.memoText f _ _).ok hobject₀ htext
  have hobject₂ := (hsustains.maintains.handedOut f).error
    hobject₁ hvalues
  have hobject : s'.registry.object? t = some o := after_object ht.1 xs ht.2 hobject₂
  have htext' : (s'.cacheOf f).texts.get? (.target t) = some text :=
    (after_keptIn hhost.caches.dropsNothing xs ⟨pool, s₂⟩).texts f _ _ hstays
  let s₃ : Session ω := { s' with fresh := s'.fresh + 1 }
  have hmemo : f.memoText host' (.target t) o.dialect s₃ = .ok text s₃ :=
    Fragment.memoText_of_kept (s := s₃) htext' o.dialect
  rw [perform_compile_eq, Pass.bind_ok (createDialect_of_object hobject), Pass.bind_ok hmemo]

/-- **Each pass is all or nothing, and happens at most once.** An access with nothing to give writes
one record and runs one pass; a failure leaves every cache as it was. Once a read has succeeded it
gives the same ever after, and asks no callable. A compile is a look-up, an access to the text and
an access to the values; after the values failed, a compile is only the access to the values. -/
theorem passes_all_or_nothing (f : Fragment) {s : Session ω} (hs : s.Gathered) :
    (∀ key d, (s.cacheOf f).texts.get? key = none →
      (∃ text s', f.statement host.environment d (s.record (.rendering (.text key) f.shown)) =
          .ok text s' ∧ s.Passed f (.text key) s' ∧
          f.memoText host key d s = .ok text (s'.rememberText f key text)) ∨
        ∃ e s', f.statement host.environment d (s.record (.rendering (.text key) f.shown)) =
          .error e s' ∧ s.Passed f (.text key) s' ∧ f.memoText host key d s = .error e s') ∧
    ((s.cacheOf f).values = none →
      (∃ bs s' l s'', f.bindings host.environment (s.record (.rendering .values f.shown)) =
          .ok bs s' ∧ s.Passed f .values s' ∧ f.values host s = .ok l s'' ∧
          (s'.rememberValues f bs).Quiet s'' ∧ boundsIn s''.heap l = bs) ∨
        ∃ e s', f.bindings host.environment (s.record (.rendering .values f.shown)) =
          .error e s' ∧ s.Passed f .values s' ∧ f.values host s = .error e s') ∧
    (∀ pool xs, s.KeptIn (after host ⟨pool, s⟩ xs).state) ∧
    (∀ (r : Read) a s₁, r.perform host f s = .ok a s₁ →
      ∀ pool xs, r.TargetStays host xs →
        let s' := (after host ⟨pool, s₁⟩ xs).state
        ∀ host' : Host ω, ∃ s'', r.perform host' f s' = .ok a s'' ∧ s'.Quiet s'') ∧
    (∀ t, (Read.compile t).perform host f = (do
        let o ← createDialect (.str t)
        let text ← f.memoText host (.target t) o.dialect
        f.finishCompile host t text) ∧
      (∀ o s₀, createDialect (.str t) s = .ok o s₀ → s₀.caches = s.caches ∧ s₀.log = s.log ∧
        s₀.memory = s.memory ∧ s₀.heap = s.heap) ∧
      ∃ first second, first.Sublist [(.text (.target t), f.shown)] ∧
        second.Sublist [(.values, f.shown)] ∧
        (∀ text, (s.cacheOf f).texts.get? (.target t) = some text → first = []) ∧
        (∀ bs, (s.cacheOf f).values = some bs → second = []) ∧
        (stateAfter ((Read.compile t).perform host f) s).renderings =
          s.renderings ++ first ++ second) ∧
    ∀ t o s₀ text s₁ e s₂, createDialect (.str t) s = .ok o s₀ →
      f.memoText host (.target t) o.dialect s₀ = .ok text s₁ → f.values host s₁ = .error e s₂ →
        (s₂.cacheOf f).texts.get? (.target t) = some text ∧
        ∀ pool xs, (Read.compile t).TargetStays host xs →
          let s' := (after host ⟨pool, s₂⟩ xs).state
          ∀ host' : Host ω, (Read.compile t).perform host' f s' =
            f.finishCompile host' t text { s' with fresh := s'.fresh + 1 } := by
  refine ⟨fun key d h => Fragment.memoText_of_absent hhost h d,
    fun h => Fragment.values_of_absent hhost h,
    fun pool xs => after_keptIn hhost.caches.dropsNothing xs ⟨pool, s⟩,
    fun r a s₁ h pool xs ht => ?_,
    fun t => ⟨Read.perform_compile_eq host f t, fun o s₀ hcreate => ?_,
      Read.renderings_compile hhost f t s⟩,
    fun t o s₀ text s₁ e s₂ hcreate htext hvalues =>
      Read.compile_retry hhost hcreate htext hvalues⟩
  · intro s' host'
    have ht' : r.TargetStays host [] := by
      cases r with
      | compile t => exact ⟨ht.1, fun c hc => by cases hc⟩
      | _ => trivial
    have hsettled := Read.settledIn_of_ok hhost.caches hs ht' h
    have hafter : r.SettledIn f a s' := hsettled.after hhost.caches (b := ⟨pool, s₁⟩) xs ht
    exact hafter.perform host'
  · obtain ⟨hcaches, hlog, hmemory, hheap, -⟩ := createDialect_ok hcreate
    exact ⟨hcaches, hlog, hmemory, hheap⟩

end Compile

/-- A callable that fails when it is asked first, and then answers with how often it was asked. -/
theorem passes_all_or_nothing_counting :
    let failure : Failure := .raised ⟨"RuntimeError", "not yet"⟩
    let host : Host Nat := ⟨fun _ _ s =>
      if s.memory = 0 then .error failure { s with memory := 1 }
      else .ok (.int s.memory) { s with memory := s.memory + 1 }, 1⟩
    let f : Fragment := ⟨0, ["a = ", ""], false, [.callable ⟨0, "count"⟩], "", none, false⟩
    let s := Session.initial 0
    ∃ s₁ s₂, f.values host s = .error failure s₁ ∧ s₁.caches = s.caches ∧
      Read.values.perform host f s₁ = .ok (.values [.scalar (.int 1)]) s₂ ∧
      ∀ memory, ∃ s₃,
        Read.values.perform host f (after host ⟨[f], s₂⟩ [.turn memory]).state =
          .ok (.values [.scalar (.int 1)]) s₃ ∧ s₃.memory = memory ∧ s₃.log = s₂.log := by
  intro failure host f s
  have hcall : ∀ c g (s : Session Nat),
      ∃ n, stateAfter (host.call c g) s = { s with memory := n } := by
    intro c g s
    by_cases h : s.memory = 0
    · refine ⟨1, stateAfter_error (e := failure) ?_⟩
      exact if_pos h
    · refine ⟨s.memory + 1, stateAfter_ok (a := .int s.memory) ?_⟩
      exact if_neg h
  have hhost : host.UsesNoGetters := by
    constructor
    · intro c g s
      obtain ⟨n, hn⟩ := hcall c g s
      rw [hn]
    · intro c g s
      obtain ⟨n, hn⟩ := hcall c g s
      rw [hn]
      rfl
  have hgathered := Session.gathered_initial 0
  obtain ⟨-, hvalues, -⟩ := passes_all_or_nothing hhost f hgathered
  rcases hvalues rfl with ⟨bs, s', l, s'', hpass, -⟩ | ⟨e, s₁, hpass, hpassed, hrun⟩
  · cases hpass
  · cases hpass
    have hgathered₁ := hgathered.of_caches hpassed.caches
    obtain ⟨-, -, -, hlater, -⟩ := passes_all_or_nothing hhost f hgathered₁
    refine ⟨_, _, hrun, hpassed.caches, rfl, fun memory => ?_⟩
    obtain ⟨s₃, hagain, hquiet⟩ := hlater .values _ _ rfl [f] [.turn memory] trivial host
    exact ⟨s₃, hagain, hquiet.memory, hquiet.log⟩

end SqlFragments
