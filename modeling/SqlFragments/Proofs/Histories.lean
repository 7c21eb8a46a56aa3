import SqlFragments.Builder.Basic
import SqlFragments.Proofs.Keeping
import SqlFragments.Proofs.Runs

/-!
# Histories of a session

Anything can happen in a session in any order: fragments are built, changed and read, list objects
grow, dialects are registered, and what callables remember changes. What is kept for a fragment is
there to stay.

* `Act`, `Act.perform`, `after`: what can be done, one act, a history.
* `Session.Extends`: what nothing but registering and appending changes. `Act.Frame`: what an act
  leaves as it is.
* `Host.Sustains`, `Host.Maintains`: a property that calls keep, and one that getters keep.
  **`Host.Maintains.read`**: then reads keep it.
* `Session.KeptIn`: what is kept in one session is kept in another.
  **`Host.DropsNothing.maintains`**, **`after_keptIn`**: getters, and a whole history, drop nothing.
-/

namespace SqlFragments

variable {ω α : Type}

/-! ## Acts -/

inductive Act (ω : Type) where
  | step (x : Step)
  /-- A fragment from segments and slots. -/
  | make (segments slots delimiter name : Value)
  /-- A fragment that lists items. -/
  | join (items delimiter : Value)
  /-- A builder is called. -/
  | call (b : Builder) (args : List Value)
  | list (items : List Value)
  | append (r : ListRef) (v : Value)
  | register (name : String) (c : DialectClass)
  | create (target : Value)
  /-- Callables remember something else from now on. -/
  | turn (memory : ω)

namespace Bench

/-- An operation that leaves the fragments alone. -/
def run (b : Bench (Session ω)) (p : Op ω α) : Bench (Session ω) := ⟨b.pool, stateAfter p b.state⟩

/-- The fragment that an operation gives joins the pool. -/
def build (b : Bench (Session ω)) (p : Op ω Fragment) : Bench (Session ω) :=
  match p b.state with
  | .ok g s => ⟨b.pool ++ [g], s⟩
  | .error _ s => ⟨b.pool, s⟩

end Bench

namespace Act

def perform (host : Host ω) (b : Bench (Session ω)) : Act ω → Bench (Session ω)
  | step x => (x.perform host b).2
  | make segments slots delimiter name => b.build (Fragment.make segments slots delimiter name)
  | join items delimiter => b.build (Fragment.join items delimiter)
  | call builder args => b.build (builder.call args)
  | list items => b.run (newListRef items)
  | append r v => b.run (appendTo r v)
  | register name c => b.run (registerDialect name c)
  | create target => b.run (createDialect target)
  | turn memory => ⟨b.pool, { b.state with memory := memory }⟩

def isRead : Act ω → Bool
  | step (.read _ _) => true
  | _ => false

theorem perform_read (host : Host ω) (b : Bench (Session ω)) (i : Nat) (r : Read) :
    (step (.read i r) : Act ω).perform host b =
      match b.pool[i]? with
      | none => b
      | some f => b.run (r.perform host f) := by
  rw [perform, Step.perform]
  cases b.pool[i]? with
  | none => rfl
  | some f =>
    unfold Bench.run stateAfter
    dsimp only
    cases r.perform host f b.state <;> rfl

end Act

/-- A history, from a bench on. -/
def after (host : Host ω) (b : Bench (Session ω)) (xs : List (Act ω)) : Bench (Session ω) :=
  xs.foldl (Act.perform host) b

theorem after_append (host : Host ω) (b : Bench (Session ω)) (xs ys : List (Act ω)) :
    after host b (xs ++ ys) = after host (after host b xs) ys := List.foldl_append

theorem after_concat (host : Host ω) (b : Bench (Session ω)) (xs : List (Act ω)) (x : Act ω) :
    after host b (xs ++ [x]) = x.perform host (after host b xs) := after_append host b xs [x]

/-! ## What an act leaves as it is -/

namespace Session

/-- The same classes are registered and objects made of them are there, list objects hold the same
elements, and identities have been given out only. -/
structure Extends (s s' : Session ω) : Prop where
  next : s.freshFragment ≤ s'.freshFragment
  classes : s'.registry.classes = s.registry.classes
  objects : ∀ t o, s.registry.object? t = some o → s'.registry.object? t = some o
  lists : ∀ r, s.heap.Holds r → s'.heap.Holds r ∧ s'.heap.elements r = s.heap.elements r

theorem Extends.refl (s : Session ω) : s.Extends s :=
  ⟨Nat.le_refl _, rfl, fun _ _ h => h, fun _ h => ⟨h, rfl⟩⟩

theorem Extends.trans {s s' s'' : Session ω} (h : s.Extends s') (h' : s'.Extends s'') :
    s.Extends s'' where
  next := Nat.le_trans h.next h'.next
  classes := h'.classes.trans h.classes
  objects := fun t o ho => h'.objects t o (h.objects t o ho)
  lists := by
    intro r hr
    obtain ⟨hr', he⟩ := h.lists r hr
    obtain ⟨hr'', he'⟩ := h'.lists r hr'
    exact ⟨hr'', he'.trans he⟩

theorem Spared.extends {s s' : Session ω} (h : s.Spared s') : s.Extends s' where
  next := h.nextFragment
  classes := by rw [h.registry]
  objects := by
    intro t o ho
    rwa [h.registry]
  lists := h.lists

end Session

theorem Registry.create_ok {r r' : Registry} {fresh : Nat} {name : String} {o : DialectObject}
    (h : r.create fresh name = .ok (o, r')) :
    r'.classes = r.classes ∧ r'.object? name = some o ∧
      ∀ t o', r.object? t = some o' → r'.object? t = some o' := by
  cases ho : r.object? name with
  | some o' =>
    rw [create_of_object? ho] at h
    cases h
    exact ⟨rfl, ho, fun _ _ ht => ht⟩
  | none =>
    simp only [create, ho] at h
    split at h
    · cases h
    · split at h
      · cases h
      · cases h
        refine ⟨rfl, Table.get?_insert_self _ _ _, fun t o' ht => ?_⟩
        have hne : name ≠ t := by
          rintro rfl
          rw [ho] at ht
          cases ht
        exact (Table.get?_insert_of_ne _ _ hne).trans ht

theorem createDialect_cases (target : Value) (s : Session ω) :
    (∃ e, createDialect target s = .error e s) ∨
      ∃ name o registry, target = .str name ∧ s.registry.create s.fresh name = .ok (o, registry) ∧
        createDialect target s = .ok o { s with registry := registry, fresh := s.fresh + 1 } := by
  cases target with
  | str name =>
    rw [createDialect_str]
    cases h : s.registry.create s.fresh name with
    | ok x => exact .inr ⟨name, x.1, x.2, rfl, h, rfl⟩
    | error e =>
      cases e with
      | unregistered => exact .inl ⟨_, rfl⟩
      | abstractClass title => exact .inl ⟨_, rfl⟩
  | _ =>
    refine .inl ?_
    rw [createDialect, Pass.get_bind]
    dsimp only
    split_ifs <;> exact ⟨_, rfl⟩

theorem createDialect_error {target : Value} {s s₀ : Session ω} {e : Failure}
    (h : createDialect target s = .error e s₀) : s₀ = s := by
  rcases createDialect_cases target s with ⟨e', he⟩ | ⟨_, _, _, -, -, hok⟩
  · rw [h] at he
    cases he
    rfl
  · rw [h] at hok
    cases hok

theorem createDialect_ok {t : String} {s s₀ : Session ω} {o : DialectObject}
    (h : createDialect (.str t) s = .ok o s₀) :
    s₀.caches = s.caches ∧ s₀.log = s.log ∧ s₀.memory = s.memory ∧ s₀.heap = s.heap ∧
      s₀.registry.object? t = some o ∧ s₀.registry.classes = s.registry.classes := by
  rcases createDialect_cases (.str t) s with ⟨e, he⟩ | ⟨name, o', registry, hname, hc, hok⟩
  · rw [h] at he
    cases he
  · rw [h] at hok
    cases hok
    cases hname
    obtain ⟨hclasses, hobject, -⟩ := Registry.create_ok hc
    exact ⟨rfl, rfl, rfl, rfl, hobject, hclasses⟩

theorem createDialect_keeps {I : Session ω → Prop}
    (h : ∀ s name o registry, I s → s.registry.create s.fresh name = .ok (o, registry) →
      I { s with registry := registry, fresh := s.fresh + 1 }) (target : Value) :
    Keeps I (createDialect target) := by
  intro s hs
  rcases createDialect_cases target s with ⟨e, he⟩ | ⟨name, o, registry, -, hcreate, hok⟩
  · rwa [stateAfter_error he]
  · rw [stateAfter_ok hok]
    exact h s name o registry hs hcreate

theorem Session.extends_create {s : Session ω} {name : String} {o : DialectObject}
    {registry : Registry} (h : s.registry.create s.fresh name = .ok (o, registry)) :
    s.Extends { s with registry := registry, fresh := s.fresh + 1 } := by
  obtain ⟨hclasses, -, hobjects⟩ := Registry.create_ok h
  exact ⟨Nat.le_refl _, hclasses, hobjects, fun _ hr => ⟨hr, rfl⟩⟩

/-- An operation that may give a fragment with the next identity and write to the log, and does
nothing else. -/
def Builds (p : Op ω Fragment) : Prop :=
  ∀ s, (∃ g log, p s = .ok g { s with freshFragment := s.freshFragment + 1, log := log } ∧
      g.id = s.freshFragment) ∨
    ∃ e log, p s = .error e { s with log := log }

theorem Fragment.ofParts_builds (joined : Bool) (x : Except Failure FragmentParts) :
    Builds (Fragment.ofParts joined x : Op ω Fragment) := by
  intro s
  cases x with
  | ok p => exact .inl ⟨p.toFragment joined s.freshFragment, s.log, rfl, rfl⟩
  | error e => exact .inr ⟨e, s.log, rfl⟩

theorem Fragment.make_builds (segments slots delimiter name : Value) :
    Builds (Fragment.make segments slots delimiter name : Op ω Fragment) :=
  fun s => Fragment.ofParts_builds false _ s

theorem Fragment.join_builds (items delimiter : Value) :
    Builds (Fragment.join items delimiter : Op ω Fragment) :=
  fun s => Fragment.ofParts_builds true _ s

theorem literalItems_cases (v : Value) (s : Session ω) :
    (∃ items, literalItems v s = .ok items s) ∨ ∃ e, literalItems v s = .error e s := by
  rw [literalItems, Pass.get_bind]
  split
  · exact .inr ⟨_, rfl⟩
  · exact .inr ⟨_, rfl⟩
  · cases v.iterate? s.heap with
    | none => exact .inr ⟨_, rfl⟩
    | some items => exact .inl ⟨items, rfl⟩

theorem Builder.ofTemplate_builds (strings : Value) (slots : List Value) :
    Builds (Builder.ofTemplate strings slots : Op ω Fragment) := by
  intro s
  rcases literalItems_cases strings s with ⟨items, hitems⟩ | ⟨e, he⟩
  · rw [ofTemplate, Pass.bind_ok hitems, Pass.modify_bind]
    rcases Fragment.make_builds (.segments items) (.tuple slots) (.str "") .null
        (s.record (.builtFromTemplate slots.length)) with ⟨g, log, hok, hid⟩ | ⟨e, log, he⟩
    · exact .inl ⟨g, log, hok, hid⟩
    · exact .inr ⟨e, log, he⟩
  · exact .inr ⟨e, s.log, Pass.bind_error he _⟩

theorem Builder.call_builds (b : Builder) (args : List Value) :
    Builds (b.call args : Op ω Fragment) := by
  unfold call
  split
  · exact Fragment.make_builds _ _ _ _
  · split_ifs
    · exact Builder.ofTemplate_builds _ _
    · exact fun s => .inr ⟨_, s.log, rfl⟩
  · exact Fragment.join_builds _ _

namespace Act

/-- What an act leaves as it is. A name means the same until it is registered again, and a list
object holds the same until it is appended to. -/
structure Frame (x : Act ω) (b b' : Bench (Session ω)) : Prop where
  pool : b'.pool = b.pool ∨ ∃ g, b'.pool = b.pool ++ [g] ∧
    (g ∈ b.pool ∨ b.state.freshFragment ≤ g.id ∧ g.id < b'.state.freshFragment)
  next : b.state.freshFragment ≤ b'.state.freshFragment
  classes : ∀ t, (∀ c, x ≠ .register t c) →
    b'.state.registry.class? t = b.state.registry.class? t
  objects : ∀ t o, (∀ c, x ≠ .register t c) → b.state.registry.object? t = some o →
    b'.state.registry.object? t = some o
  holds : ∀ r, b.state.heap.Holds r → b'.state.heap.Holds r
  lists : ∀ r, (∀ v, x ≠ .append r v) → b.state.heap.Holds r →
    b'.state.heap.elements r = b.state.heap.elements r

variable {x : Act ω} {b : Bench (Session ω)} {s : Session ω}

theorem Frame.of_extends (h : b.state.Extends s) : x.Frame b ⟨b.pool, s⟩ where
  pool := .inl rfl
  next := h.next
  classes := by
    intro t _
    unfold Registry.class?
    rw [h.classes]
  objects := fun t o _ ho => h.objects t o ho
  holds := fun r hr => (h.lists r hr).1
  lists := fun r _ hr => (h.lists r hr).2

theorem Frame.of_builds {p : Op ω Fragment} (h : Builds p) : x.Frame b (b.build p) := by
  unfold Bench.build
  rcases h b.state with ⟨g, log, hok, hid⟩ | ⟨e, log, he⟩
  · rw [hok]
    refine ⟨.inr ⟨g, rfl, .inr ⟨Nat.le_of_eq hid.symm, ?_⟩⟩, Nat.le_succ _, fun _ _ => rfl,
      fun _ _ _ ho => ho, fun _ hr => hr, fun _ _ _ => rfl⟩
    rw [hid]
    exact Nat.lt_succ_self _
  · rw [he]
    exact .of_extends ⟨Nat.le_refl _, rfl, fun _ _ h => h, fun _ hr => ⟨hr, rfl⟩⟩

theorem Frame.change (host : Host ω) (i : Nat) (c : Change) :
    x.Frame b ((Step.change i c).perform host b).2 := by
  rw [Step.perform]
  cases hi : b.pool[i]? with
  | none => exact .of_extends (.refl _)
  | some f =>
    rcases c.perform_eq (f := f) (s := b.state) rfl with ⟨g, next, happly, hok⟩ | ⟨-, e, he⟩
    · simp only [hok]
      rcases Change.apply_cases happly with ⟨rfl, rfl⟩ | ⟨d, n, rfl, rfl⟩
      · exact ⟨.inr ⟨g, rfl, .inl (List.mem_of_getElem? hi)⟩, Nat.le_refl _, fun _ _ => rfl,
          fun _ _ _ ho => ho, fun _ hr => hr, fun _ _ _ => rfl⟩
      · exact ⟨.inr ⟨_, rfl, .inr ⟨Nat.le_refl _, Nat.lt_succ_self _⟩⟩, Nat.le_succ _,
          fun _ _ => rfl, fun _ _ _ ho => ho, fun _ hr => hr, fun _ _ _ => rfl⟩
    · simp only [he]
      exact .of_extends (.refl _)

/-- **An act other than a read** leaves everything else as it is. -/
theorem perform_frame (host : Host ω) (hx : x.isRead = false) (b : Bench (Session ω)) :
    x.Frame b (x.perform host b) := by
  cases x with
  | step y =>
    cases y with
    | read i r => cases hx
    | change i c => exact .change host i c
  | make segments slots delimiter name => exact .of_builds (Fragment.make_builds _ _ _ _)
  | join items delimiter => exact .of_builds (Fragment.join_builds _ _)
  | call builder args => exact .of_builds (builder.call_builds args)
  | list items => exact .of_extends (b.state.undisturbed_allocate items).toSpared.extends
  | append r v =>
    refine ⟨.inl rfl, Nat.le_refl _, fun _ _ => rfl, fun _ _ _ ho => ho, fun r' hr' => ?_,
      fun r' hne hr' => ?_⟩
    · change r'.index < (b.state.heap.lists.modify r.index _).size
      rw [Array.size_modify]
      exact hr'
    · have hne' : r ≠ r' := by
        rintro rfl
        exact hne v rfl
      exact b.state.heap.elements_append_of_ne hne' v
  | register name c =>
    refine ⟨.inl rfl, Nat.le_refl _, fun t ht => ?_, fun t o ht ho => ?_, fun _ hr => hr,
      fun _ _ _ => rfl⟩
    · have hne : name ≠ t := by
        rintro rfl
        exact ht c rfl
      exact (Registry.class?_register _ _ _ _).trans (if_neg hne)
    · have hne : name ≠ t := by
        rintro rfl
        exact ht c rfl
      exact (Registry.object?_register _ _ _ _).trans ((if_neg hne).trans ho)
  | create target =>
    refine .of_extends ?_
    exact createDialect_keeps (fun s name o registry hs h => hs.trans (Session.extends_create h))
      target b.state (.refl _)
  | turn memory => exact .of_extends ⟨Nat.le_refl _, rfl, fun _ _ h => h, fun _ hr => ⟨hr, rfl⟩⟩

end Act

theorem Act.keeps_of_other {host : Host ω} {I : Session ω → Prop} {x : Act ω}
    (hx : x.isRead = false)
    (hbuild : ∀ s n log, I s → I { s with freshFragment := n, log := log })
    (hheap : ∀ s heap, I s → I { s with heap := heap })
    (hmemory : ∀ s memory, I s → I { s with memory := memory })
    (hregister : ∀ s name c, x = .register name c → I s →
      I { s with registry := s.registry.register name c })
    (hcreate : ∀ s name o registry, I s → s.registry.create s.fresh name = .ok (o, registry) →
      I { s with registry := registry, fresh := s.fresh + 1 })
    {b : Bench (Session ω)} (hb : I b.state) : I (x.perform host b).state := by
  have hbuilds : ∀ {p : Op ω Fragment}, Builds p → I (b.build p).state := by
    intro p hp
    unfold Bench.build
    rcases hp b.state with ⟨g, log, hok, -⟩ | ⟨e, log, he⟩
    · rw [hok]
      exact hbuild _ _ _ hb
    · rw [he]
      exact hbuild _ _ _ hb
  cases x with
  | step y =>
    cases y with
    | read i r => cases hx
    | change i c =>
      rw [perform, Step.perform]
      cases b.pool[i]? with
      | none => exact hb
      | some f =>
        rcases c.perform_eq (f := f) (s := b.state) rfl with ⟨g, next, -, hok⟩ | ⟨-, e, he⟩
        · simp only [hok]
          exact hbuild _ next _ hb
        · simpa only [he] using hb
  | make segments slots delimiter name => exact hbuilds (Fragment.make_builds _ _ _ _)
  | join items delimiter => exact hbuilds (Fragment.join_builds _ _)
  | call builder args => exact hbuilds (builder.call_builds args)
  | list items => exact hheap _ _ hb
  | append r v => exact hheap _ _ hb
  | register name c => exact hregister _ _ _ rfl hb
  | create target => exact createDialect_keeps hcreate target b.state hb
  | turn memory => exact hmemory _ _ hb

/-! ## What reads keep -/

/-- A property that calls keep, and that depends on nothing that getters change themselves. -/
structure Host.Sustains (host : Host ω) (I : Session ω → Prop) : Prop where
  call : ∀ c f, Keeps I (host.call c f)
  record : ∀ s r, I s → I (s.record r)
  cache : ∀ s f c, I s → I (s.putCache f c)
  allocate : ∀ s items, I s → I { s with heap := s.heap.allocate items }
  fresh : ∀ s, I s → I { s with fresh := s.fresh + 1 }
  create : ∀ s name o registry, I s → s.registry.create s.fresh name = .ok (o, registry) →
    I { s with registry := registry, fresh := s.fresh + 1 }

/-- A property that accesses to what is kept maintain, whatever they do to the caches, and that the
rest of what getters do leaves alone. -/
structure Host.Maintains (host : Host ω) (I : Session ω → Prop) : Prop where
  text : ∀ (f : Fragment) key d, Keeps I (f.memoText host key d)
  values : ∀ f : Fragment, Keeps I (f.memoValues host)
  allocate : ∀ s items, I s → I { s with heap := s.heap.allocate items }
  fresh : ∀ s, I s → I { s with fresh := s.fresh + 1 }
  create : ∀ s name o registry, I s → s.registry.create s.fresh name = .ok (o, registry) →
    I { s with registry := registry, fresh := s.fresh + 1 }

theorem handOut_keeps {I : Session ω → Prop}
    (halloc : ∀ s items, I s → I { s with heap := s.heap.allocate items }) (bs : List Bound) :
    Keeps I (handOut bs) := by
  induction bs with
  | nil => exact .pure []
  | cons b rest ih =>
    cases b with
    | scalar v => exact ih.bind fun tail => .pure (v :: tail)
    | group vs =>
      have hnew : Keeps I (newList vs) := fun s hs => halloc s vs hs
      exact hnew.bind fun own => ih.bind fun tail => .pure (own :: tail)

section Reads

variable {host : Host ω} {I : Session ω → Prop}

/-- **An access to a text** gives what is kept, or runs the pass. -/
theorem Fragment.memoText_cases (hcall : ∀ c f, Keeps I (host.call c f)) (f : Fragment)
    (key : TextKey) (d : Dialect) {s : Session ω}
    (hs : I (s.record (.rendering (.text key) f.shown))) :
    (∃ text, (s.cacheOf f).texts.get? key = some text ∧ f.memoText host key d s = .ok text s) ∨
    (s.cacheOf f).texts.get? key = none ∧
      ((∃ text s', I s' ∧
        f.statement host.environment d (s.record (.rendering (.text key) f.shown)) = .ok text s' ∧
        f.memoText host key d s = .ok text (s'.rememberText f key text)) ∨
      ∃ e s', I s' ∧
        f.statement host.environment d (s.record (.rendering (.text key) f.shown)) = .error e s' ∧
        f.memoText host key d s = .error e s') := by
  cases hkept : (s.cacheOf f).texts.get? key with
  | some text => exact .inl ⟨text, rfl, memoText_of_kept hkept d⟩
  | none =>
    refine .inr ⟨rfl, ?_⟩
    have hpass : Keeps I (f.statement host.environment d) := f.statement_keeps hcall d
    have hrun := memoText_of_missing host hkept d
    cases hp : f.statement host.environment d (s.record (.rendering (.text key) f.shown)) with
    | ok text s' =>
      rw [hp] at hrun
      exact .inl ⟨text, s', hpass.ok hs hp, rfl, hrun⟩
    | error e s' =>
      rw [hp] at hrun
      exact .inr ⟨e, s', hpass.error hs hp, rfl, hrun⟩

/-- **An access to the values** gives what is kept, or runs the pass. -/
theorem Fragment.memoValues_cases (hcall : ∀ c f, Keeps I (host.call c f)) (f : Fragment)
    {s : Session ω} (hs : I (s.record (.rendering .values f.shown))) :
    (∃ bs, (s.cacheOf f).values = some bs ∧ f.memoValues host s = .ok bs s) ∨
    (s.cacheOf f).values = none ∧
      ((∃ bs s', I s' ∧
        f.bindings host.environment (s.record (.rendering .values f.shown)) = .ok bs s' ∧
        f.memoValues host s = .ok bs (s'.rememberValues f bs)) ∨
      ∃ e s', I s' ∧
        f.bindings host.environment (s.record (.rendering .values f.shown)) = .error e s' ∧
        f.memoValues host s = .error e s') := by
  cases hkept : (s.cacheOf f).values with
  | some bs => exact .inl ⟨bs, rfl, memoValues_of_kept hkept⟩
  | none =>
    refine .inr ⟨rfl, ?_⟩
    have hpass : Keeps I (f.bindings host.environment) := f.bindings_keeps hcall
    have hrun := memoValues_of_missing host hkept
    cases hp : f.bindings host.environment (s.record (.rendering .values f.shown)) with
    | ok bs s' =>
      rw [hp] at hrun
      exact .inl ⟨bs, s', hpass.ok hs hp, rfl, hrun⟩
    | error e s' =>
      rw [hp] at hrun
      exact .inr ⟨e, s', hpass.error hs hp, rfl, hrun⟩

theorem Fragment.values_keeps {f : Fragment} (hmemo : Keeps I (f.memoValues host))
    (halloc : ∀ s items, I s → I { s with heap := s.heap.allocate items }) :
    Keeps I (f.values host) := by
  refine hmemo.bind fun bound => (handOut_keeps halloc bound).bind fun items => ?_
  exact fun s hs => halloc s items hs

theorem Read.keeps_of_getters {f : Fragment}
    (htext : ∀ key d, Keeps I (f.memoText host key d)) (hvalues : Keeps I (f.values host))
    (hcreate : ∀ target, Keeps I (createDialect target))
    (hfresh : ∀ s, I s → I { s with fresh := s.fresh + 1 }) (r : Read) :
    Keeps I (r.perform host f) := by
  cases r with
  | values => exact hvalues.bind fun r => .get_bind fun s => .pure _
  | compile target =>
    rw [perform_compile]
    refine (hcreate _).bind fun o => (htext _ _).bind fun text => hvalues.bind fun r => ?_
    exact hfresh
  | _ => exact (htext _ _).bind fun t => .pure (Answer.text t)

namespace Host.Maintains

variable (h : host.Maintains I)

include h

theorem handedOut (f : Fragment) : Keeps I (f.values host) :=
  Fragment.values_keeps (h.values f) h.allocate

theorem createDialect (target : Value) : Keeps I (createDialect target) :=
  createDialect_keeps h.create target

theorem read (f : Fragment) (r : Read) : Keeps I (r.perform host f) :=
  Read.keeps_of_getters (h.text f) (h.handedOut f) h.createDialect h.fresh r

end Host.Maintains

namespace Host.Sustains

variable (h : host.Sustains I)

include h

theorem memoText (f : Fragment) (key : TextKey) (d : Dialect) :
    Keeps I (f.memoText host key d) := by
  intro s hs
  rcases f.memoText_cases h.call key d (h.record s _ hs) with
    ⟨text, -, hrun⟩ | ⟨-, ⟨text, s', hs', -, hrun⟩ | ⟨e, s', hs', -, hrun⟩⟩
  · rwa [stateAfter_ok hrun]
  · rw [stateAfter_ok hrun]
    exact h.cache s' f _ hs'
  · rwa [stateAfter_error hrun]

theorem memoValues (f : Fragment) : Keeps I (f.memoValues host) := by
  intro s hs
  rcases f.memoValues_cases h.call (h.record s _ hs) with
    ⟨bs, -, hrun⟩ | ⟨-, ⟨bs, s', hs', -, hrun⟩ | ⟨e, s', hs', -, hrun⟩⟩
  · rwa [stateAfter_ok hrun]
  · rw [stateAfter_ok hrun]
    exact h.cache s' f _ hs'
  · rwa [stateAfter_error hrun]

theorem maintains : host.Maintains I where
  text := h.memoText
  values := h.memoValues
  allocate := h.allocate
  fresh := h.fresh
  create := h.create

/-- **A read keeps** what calls keep. -/
theorem read (f : Fragment) (r : Read) : Keeps I (r.perform host f) := h.maintains.read f r

end Host.Sustains

theorem Act.keeps {x : Act ω} {b : Bench (Session ω)}
    (hread : ∀ f (r : Read), Keeps I (r.perform host f))
    (hother : x.isRead = false → I (x.perform host b).state) (hb : I b.state) :
    I (x.perform host b).state := by
  cases hx : x.isRead with
  | false => exact hother hx
  | true =>
    match x, hx with
    | .step (.read i r), _ =>
      rw [perform_read]
      cases b.pool[i]? with
      | none => exact hb
      | some f => exact hread f r b.state hb

end Reads

/-! ## What is kept stays -/

namespace Session

/-- Whatever is kept for a fragment in `s` is kept in `s'`. -/
structure KeptIn (s s' : Session ω) : Prop where
  texts : ∀ f key text, (s.cacheOf f).texts.get? key = some text →
    (s'.cacheOf f).texts.get? key = some text
  values : ∀ f bs, (s.cacheOf f).values = some bs → (s'.cacheOf f).values = some bs

theorem KeptIn.of_caches {s s' : Session ω} (h : s'.caches = s.caches) : s.KeptIn s' := by
  have hcache : ∀ f, s'.cacheOf f = s.cacheOf f := by
    intro f
    rw [cacheOf, cacheOf, h]
  constructor
  · intro f key text hkept
    rwa [hcache]
  · intro f bs hkept
    rwa [hcache]

theorem KeptIn.trans {s s' s'' : Session ω} (h : s.KeptIn s') (h' : s'.KeptIn s'') :
    s.KeptIn s'' :=
  ⟨fun f key text hkept => h'.texts f key text (h.texts f key text hkept),
    fun f bs hkept => h'.values f bs (h.values f bs hkept)⟩

theorem cacheOf_congr (s : Session ω) {f g : Fragment} (h : f.id = g.id) :
    s.cacheOf f = s.cacheOf g := by
  rw [cacheOf, cacheOf, h]

theorem KeptIn.rememberText {s s' : Session ω} (h : s.KeptIn s') {f : Fragment} {key : TextKey}
    (hmissing : (s.cacheOf f).texts.get? key = none) (text : String) :
    s.KeptIn (s'.rememberText f key text) := by
  constructor
  · intro g key' text' hkept
    rw [cacheOf_rememberText]
    split_ifs with hid
    · rw [← s.cacheOf_congr hid] at hkept
      have hne : key ≠ key' := by
        rintro rfl
        rw [hmissing] at hkept
        cases hkept
      exact (Table.get?_insert_of_ne _ _ hne).trans (h.texts f key' text' hkept)
    · exact h.texts g key' text' hkept
  · intro g bs hkept
    rw [cacheOf_rememberText]
    split_ifs with hid
    · rw [← s.cacheOf_congr hid] at hkept
      exact h.values f bs hkept
    · exact h.values g bs hkept

theorem KeptIn.rememberValues {s s' : Session ω} (h : s.KeptIn s') {f : Fragment}
    (hmissing : (s.cacheOf f).values = none) (bs : List Bound) :
    s.KeptIn (s'.rememberValues f bs) := by
  constructor
  · intro g key text hkept
    rw [cacheOf_rememberValues]
    split_ifs with hid
    · rw [← s.cacheOf_congr hid] at hkept
      exact h.texts f key text hkept
    · exact h.texts g key text hkept
  · intro g bs' hkept
    rw [cacheOf_rememberValues]
    split_ifs with hid
    · rw [← s.cacheOf_congr hid, hmissing] at hkept
      cases hkept
    · exact h.values g bs' hkept

end Session

/-- Calls neither keep nor drop anything. -/
def Host.LeavesCaches (host : Host ω) : Prop :=
  ∀ c f s, (stateAfter (host.call c f) s).caches = s.caches

theorem Host.LeavesCaches.keeps {host : Host ω} (h : host.LeavesCaches) (caches : Table Nat Cache)
    (c : Callable) (f : Fragment) : Keeps (fun s => s.caches = caches) (host.call c f) := by
  intro s hs
  rw [h]
  exact hs

/-- Calls drop nothing that is kept, but may use getters. -/
def Host.DropsNothing (host : Host ω) : Prop :=
  ∀ c f (s : Session ω), s.KeptIn (stateAfter (host.call c f) s)

theorem Host.LeavesCaches.dropsNothing {host : Host ω} (h : host.LeavesCaches) :
    host.DropsNothing := fun c f s => .of_caches (h c f s)

section Kept

variable {host : Host ω} (hhost : host.DropsNothing)

include hhost

/-- **Getters drop nothing**, also where a call inside of one keeps something. -/
theorem Host.DropsNothing.maintains (s : Session ω) : host.Maintains fun s' => s.KeptIn s' := by
  have hcall : ∀ s₁ : Session ω, ∀ c f, Keeps (fun s' => s₁.KeptIn s') (host.call c f) :=
    fun _ c f s' h => h.trans (hhost c f s')
  have hsame : ∀ {s₁ s₂ : Session ω}, s.KeptIn s₁ → s₂.caches = s₁.caches → s.KeptIn s₂ :=
    fun h hcaches => h.trans (.of_caches hcaches)
  refine ⟨fun f key d s₁ h => h.trans ?_, fun f s₁ h => h.trans ?_, fun _ _ h => hsame h rfl,
    fun _ h => hsame h rfl, fun _ _ _ _ h _ => hsame h rfl⟩
  · rcases f.memoText_cases (hcall s₁) key d (.of_caches rfl) with
      ⟨text, -, hrun⟩ | ⟨hmissing, ⟨text, s', hs', -, hrun⟩ | ⟨e, s', hs', -, hrun⟩⟩
    · rw [stateAfter_ok hrun]
      exact .of_caches rfl
    · rw [stateAfter_ok hrun]
      exact hs'.rememberText hmissing text
    · rwa [stateAfter_error hrun]
  · rcases f.memoValues_cases (hcall s₁) (.of_caches rfl) with
      ⟨bs, -, hrun⟩ | ⟨hmissing, ⟨bs, s', hs', -, hrun⟩ | ⟨e, s', hs', -, hrun⟩⟩
    · rw [stateAfter_ok hrun]
      exact .of_caches rfl
    · rw [stateAfter_ok hrun]
      exact hs'.rememberValues hmissing bs
    · rwa [stateAfter_error hrun]

omit hhost in
theorem Act.perform_caches {x : Act ω} (hx : x.isRead = false) (b : Bench (Session ω)) :
    (x.perform host b).state.caches = b.state.caches :=
  keeps_of_other (I := fun s => s.caches = b.state.caches) hx (fun _ _ _ hs => hs)
    (fun _ _ hs => hs) (fun _ _ hs => hs) (fun _ _ _ _ hs => hs) (fun _ _ _ _ hs _ => hs) rfl

theorem Act.perform_keptIn (x : Act ω) (b : Bench (Session ω)) :
    b.state.KeptIn (x.perform host b).state :=
  Act.keeps (hhost.maintains b.state).read (fun hx => .of_caches (perform_caches hx b))
    (.of_caches rfl)

/-- **A history drops nothing.** -/
theorem after_keptIn (xs : List (Act ω)) (b : Bench (Session ω)) :
    b.state.KeptIn (after host b xs).state := by
  induction xs generalizing b with
  | nil => exact .of_caches rfl
  | cons x xs ih => exact (x.perform_keptIn hhost b).trans (ih (x.perform host b))

end Kept

end SqlFragments
