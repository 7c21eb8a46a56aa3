import Mathlib.Data.List.Nodup
import SqlFragments.Proofs.Reading
import SqlFragments.Session.Getters

/-!
# Sound sessions

A session is sound for a pool of fragments if whatever it keeps for one of them is what rendering
the fragment afresh would give. Getters keep a session sound, and give what rendering afresh gives.

* `Rendering`: what list objects hold, what callables answer, which dialects are registered and how
  deep fragments may be nested. It fixes what each fragment renders to.
* `Session.Spared`, `Session.Undisturbed`, `Session.Steady`: nothing that a getter depends on has
  changed.
* `Host.Obeys`: callables whose answers depend on the fragment that asks, and on nothing else.
* `Session.Sound`: the invariant. `Session.Sound.of_spared`, `Session.Sound.rememberText`,
  `Session.Sound.rememberValues`: what keeps it. `Session.Sound.of_empty`: where it begins.
* **`Fragment.memoText_gives`**, **`Fragment.memoValues_gives`**: what is kept makes no difference.
* **`createDialect_eq`**: looking up a target gives an object of the registered dialect.
-/

namespace SqlFragments

variable {ω : Type}

/-- Everything that decides what a fragment renders to. -/
structure Rendering where
  reading : Reading
  depth : Nat
  registry : Registry

namespace Rendering

variable (U : Rendering)

/-- The dialect that is registered for a target. -/
def dialectFor (target : String) : Except Failure Dialect :=
  match U.registry.class? target with
  | none => .error (.unsupportedTarget (.str target) (quoted target) U.registry.targets)
  | some c =>
    match c.dialect? with
    | none => .error (.abstractClass c.title)
    | some d => .ok d

/-- The dialect of each text that is kept. -/
def dialectOf : TextKey → Except Failure Dialect
  | .text => .ok .postgres
  | .sql => .ok .mysql
  | .target name => U.dialectFor name

def flatten (d : Dialect) (f : Fragment) : Except Failure String := U.reading.flatten U.depth d f

def collect (f : Fragment) : Except Failure (List Bound) := U.reading.collect U.depth f

end Rendering

namespace Session

/-! ## What a getter depends on -/

/-- The state has changed in nothing that a getter depends on, but fragments may have been built. -/
structure Spared (s s' : Session ω) : Prop where
  nextFragment : s.freshFragment ≤ s'.freshFragment
  registry : s'.registry = s.registry
  caches : s'.caches = s.caches
  lists : ∀ r, s.heap.Holds r → s'.heap.Holds r ∧ s'.heap.elements r = s.heap.elements r

theorem Spared.trans {s s' s'' : Session ω} (h : s.Spared s') (h' : s'.Spared s'') :
    s.Spared s'' where
  nextFragment := Nat.le_trans h.nextFragment h'.nextFragment
  registry := h'.registry.trans h.registry
  caches := h'.caches.trans h.caches
  lists := by
    intro r hr
    obtain ⟨hr', he⟩ := h.lists r hr
    obtain ⟨hr'', he'⟩ := h'.lists r hr'
    exact ⟨hr'', he'.trans he⟩

/-- The state has changed in nothing that a getter depends on, and no fragment was built. -/
structure Undisturbed (s s' : Session ω) : Prop extends s.Spared s' where
  sameNext : s'.freshFragment = s.freshFragment

theorem Undisturbed.of_same {s s' : Session ω} (hnext : s'.freshFragment = s.freshFragment)
    (hregistry : s'.registry = s.registry) (hcaches : s'.caches = s.caches)
    (hlists : ∀ r, s.heap.Holds r →
      s'.heap.Holds r ∧ s'.heap.elements r = s.heap.elements r) : s.Undisturbed s' :=
  ⟨⟨Nat.le_of_eq hnext.symm, hregistry, hcaches, hlists⟩, hnext⟩

theorem Undisturbed.refl (s : Session ω) : s.Undisturbed s :=
  .of_same rfl rfl rfl fun _ hr => ⟨hr, rfl⟩

theorem Undisturbed.trans {s s' s'' : Session ω} (h : s.Undisturbed s') (h' : s'.Undisturbed s'') :
    s.Undisturbed s'' :=
  ⟨h.toSpared.trans h'.toSpared, h'.sameNext.trans h.sameNext⟩

theorem undisturbed_record (s : Session ω) (r : LogRecord) : s.Undisturbed (s.record r) :=
  .of_same rfl rfl rfl fun _ hr => ⟨hr, rfl⟩

theorem undisturbed_fresh (s : Session ω) (n : Nat) : s.Undisturbed { s with fresh := n } :=
  .of_same rfl rfl rfl fun _ hr => ⟨hr, rfl⟩

theorem undisturbed_allocate (s : Session ω) (items : List Value) :
    s.Undisturbed { s with heap := s.heap.allocate items } := by
  refine .of_same rfl rfl rfl fun r hr => ⟨?_, Heap.elements_allocate hr items⟩
  unfold Heap.Holds at hr ⊢
  rw [Heap.allocate, Array.size_push]
  omega

/-- Nothing that a getter depends on has changed, and no list object was made. -/
structure Steady (s s' : Session ω) : Prop extends s.Spared s' where
  elements : ∀ r, s'.heap.elements r = s.heap.elements r

theorem Undisturbed.steady {s s' : Session ω} (h : s.Undisturbed s')
    (helements : ∀ r, s'.heap.elements r = s.heap.elements r) : s.Steady s' :=
  ⟨h.toSpared, helements⟩

theorem Steady.refl (s : Session ω) : s.Steady s := (Undisturbed.refl s).steady fun _ => rfl

theorem Steady.trans {s s' s'' : Session ω} (h : s.Steady s') (h' : s'.Steady s'') :
    s.Steady s'' :=
  ⟨h.toSpared.trans h'.toSpared, fun r => (h'.elements r).trans (h.elements r)⟩

theorem steady_record (s : Session ω) (r : LogRecord) : s.Steady (s.record r) :=
  (s.undisturbed_record r).steady fun _ => rfl

theorem steady_given (s : Session ω) {n : Nat} (hn : s.freshFragment ≤ n) :
    s.Steady { s with freshFragment := n } :=
  ⟨⟨hn, rfl, rfl, fun _ hr => ⟨hr, rfl⟩⟩, fun _ => rfl⟩

end Session

/-- Callables that answer as `answer` says, and change nothing that rendering depends on. They may
build fragments, and answer a copy of the fragment that `answer` says. -/
def Host.Obeys (host : Host ω) (answer : Callable → Fragment → Except Failure Value) : Prop :=
  ∀ c f s, ∃ x s', s.Steady s' ∧ Corresponds Value.StandsFor x (answer c f) ∧
    host.call c f s = resultOf x s'

/-- Callables that build nothing may answer as `answer` says. -/
theorem Host.Obeys.of_call {host : Host ω}
    {answer : Callable → Fragment → Except Failure Value}
    (h : ∀ c f s, host.call c f s = resultOf (answer c f) s) : host.Obeys answer :=
  fun c f s => ⟨_, s, .refl s, .standsFor _, h c f s⟩

namespace Session

/-! ## Soundness -/

/-- Whatever is kept for a fragment of the pool is what the rendering gives. Fragments of the pool
are told apart by their identities, which have been given. The identity of the next fragment is as
`next` says; it stays the same unless callables build fragments. -/
structure Sound (U : Rendering) (known : Value → Prop) (pool : List Fragment) (next : Nat → Prop)
    (s : Session ω) : Prop where
  nextFragment : next s.freshFragment
  lists : ∀ r, known (.list r) → s.heap.Holds r ∧ s.heap.elements r = U.reading.elements r
  classes : s.registry.classes = U.registry.classes
  objects : ∀ name o, s.registry.object? name = some o → U.dialectFor name = .ok o.dialect
  identity : ∀ f ∈ pool, ∀ g ∈ pool, f.id = g.id → f = g
  below : ∀ f ∈ pool, f.id < s.freshFragment
  texts : ∀ f ∈ pool, ∀ key text, (s.cacheOf f).texts.get? key = some text →
    ∃ d, U.dialectOf key = .ok d ∧ U.flatten d f = .ok text
  values : ∀ f ∈ pool, ∀ bs, (s.cacheOf f).values = some bs → U.collect f = .ok bs
  unused : ∀ i, s.freshFragment ≤ i → s.caches.get? i = none

variable {U : Rendering} {known : Value → Prop} {pool : List Fragment}
  {next : Nat → Prop}
  {s s' : Session ω}

/-- **A state that was spared** stays sound, also if identities were given to new fragments. -/
theorem Sound.of_spared (hs : s.Sound U known pool next) (h : s.Spared s') {next' : Nat → Prop}
    (hnext : next' s'.freshFragment) : s'.Sound U known pool next' where
  nextFragment := hnext
  lists := by
    intro r hr
    obtain ⟨hholds, he⟩ := hs.lists r hr
    obtain ⟨hholds', he'⟩ := h.lists r hholds
    exact ⟨hholds', he'.trans he⟩
  classes := by rw [h.registry, hs.classes]
  objects := by rw [h.registry]; exact hs.objects
  identity := hs.identity
  below f hf := Nat.lt_of_lt_of_le (hs.below f hf) h.nextFragment
  texts := by
    unfold cacheOf
    rw [h.caches]
    exact hs.texts
  values := by
    unfold cacheOf
    rw [h.caches]
    exact hs.values
  unused i hi := by
    rw [h.caches]
    exact hs.unused i (Nat.le_trans h.nextFragment hi)

theorem Sound.of_undisturbed (hs : s.Sound U known pool next) (h : s.Undisturbed s') :
    s'.Sound U known pool next :=
  hs.of_spared h.toSpared (h.sameNext ▸ hs.nextFragment)

theorem Sound.putCache (hs : s.Sound U known pool next) {f : Fragment} (hf : f ∈ pool) {c : Cache}
    (htexts : ∀ key text, c.texts.get? key = some text →
      ∃ d, U.dialectOf key = .ok d ∧ U.flatten d f = .ok text)
    (hvalues : ∀ bs, c.values = some bs → U.collect f = .ok bs) :
    (s.putCache f c).Sound U known pool next where
  nextFragment := hs.nextFragment
  lists := hs.lists
  classes := hs.classes
  objects := hs.objects
  identity := hs.identity
  below := hs.below
  texts := by
    intro g hg key text hkept
    rw [cacheOf_putCache] at hkept
    split_ifs at hkept with hid
    · rw [← hs.identity f hf g hg hid]
      exact htexts key text hkept
    · exact hs.texts g hg key text hkept
  values := by
    intro g hg bs hkept
    rw [cacheOf_putCache] at hkept
    split_ifs at hkept with hid
    · rw [← hs.identity f hf g hg hid]
      exact hvalues bs hkept
    · exact hs.values g hg bs hkept
  unused := by
    intro i hi
    have hne : f.id ≠ i := by
      have hlt := hs.below f hf
      change s.freshFragment ≤ i at hi
      omega
    exact (Table.get?_insert_of_ne _ _ hne).trans (hs.unused i hi)

theorem Sound.rememberText (hs : s.Sound U known pool next) {f : Fragment} (hf : f ∈ pool)
    {key : TextKey} {d : Dialect} (hd : U.dialectOf key = .ok d) {text : String}
    (h : U.flatten d f = .ok text) : (s.rememberText f key text).Sound U known pool next := by
  refine hs.putCache hf ?_ (hs.values f hf)
  intro key' text' hkept
  rw [Table.get?_insert] at hkept
  split_ifs at hkept with hkey
  · cases hkept
    rw [← hkey]
    exact ⟨d, hd, h⟩
  · exact hs.texts f hf key' text' hkept

theorem Sound.rememberValues (hs : s.Sound U known pool next) {f : Fragment} (hf : f ∈ pool)
    {bs : List Bound} (h : U.collect f = .ok bs) :
    (s.rememberValues f bs).Sound U known pool next := by
  refine hs.putCache hf (hs.texts f hf) ?_
  intro bs' hkept
  cases hkept
  exact h

theorem Sound.of_empty (hnext : next s.freshFragment)
    (hlists : ∀ r, known (.list r) → s.heap.Holds r ∧ s.heap.elements r = U.reading.elements r)
    (hclasses : s.registry.classes = U.registry.classes) (hobjects : s.registry.objects = .empty)
    (hids : (pool.map Fragment.id).Nodup) (hbelow : ∀ f ∈ pool, f.id < s.freshFragment)
    (hcaches : s.caches = .empty) : s.Sound U known pool next where
  nextFragment := hnext
  lists := hlists
  classes := hclasses
  objects := by
    intro name o ho
    rw [Registry.object?, hobjects] at ho
    cases ho
  identity := fun _ hf _ hg => List.inj_on_of_nodup_map hids hf hg
  below := hbelow
  texts := by
    intro f _ key text hkept
    rw [cacheOf, hcaches] at hkept
    cases hkept
  values := by
    intro f _ bs hkept
    rw [cacheOf, hcaches] at hkept
    cases hkept
  unused := by
    intro i _
    rw [hcaches]
    rfl

end Session

/-! ## Getters that keep what they got -/

namespace Fragment

section Missing

variable (host : Host ω) {f : Fragment} {s : Session ω}

theorem memoText_of_missing {key : TextKey} (h : (s.cacheOf f).texts.get? key = none)
    (d : Dialect) :
    f.memoText host key d s =
      match f.statement host.environment d (s.record (.rendering (.text key) f.shown)) with
      | .ok text s' => .ok text (s'.rememberText f key text)
      | .error e s' => .error e s' := by
  rw [memoText, Pass.get_bind, h]
  simp only [Pass.modify_bind]
  cases hrun : f.statement host.environment d (s.record (.rendering (.text key) f.shown)) with
  | ok text s' => exact Pass.bind_ok hrun _
  | error e s' => exact Pass.bind_error hrun _

theorem memoValues_of_missing (h : (s.cacheOf f).values = none) :
    f.memoValues host s =
      match f.bindings host.environment (s.record (.rendering .values f.shown)) with
      | .ok bs s' => .ok bs (s'.rememberValues f bs)
      | .error e s' => .error e s' := by
  rw [memoValues, Pass.get_bind, h]
  simp only [Pass.modify_bind]
  cases hrun : f.bindings host.environment (s.record (.rendering .values f.shown)) with
  | ok bs s' => exact Pass.bind_ok hrun _
  | error e s' => exact Pass.bind_error hrun _

end Missing

section Gives

variable {host : Host ω} {U : Rendering} {known : Value → Prop} {pool : List Fragment}
  {next : Nat → Prop}
  (hdepth : host.depth = U.depth)
  (hfollows : host.environment.Follows U.reading (Session.Sound U known pool next) known)
  (hc : U.reading.Closed known) {f : Fragment} (hf : f ∈ pool) (hk : known (.fragment f))

include hdepth hfollows hc hf hk

/-- **A text is what rendering afresh gives**, whether it is kept or not. -/
theorem memoText_gives {key : TextKey} {d : Dialect} (hd : U.dialectOf key = .ok d) :
    Gives (Session.Sound U known pool next) (f.memoText host key d) (U.flatten d f) := by
  intro s hs
  cases hkept : (s.cacheOf f).texts.get? key with
  | some text =>
    refine ⟨s, hs, ?_⟩
    obtain ⟨d', hd', htext⟩ := hs.texts f hf key text hkept
    rw [hd] at hd'
    cases hd'
    rw [htext]
    exact memoText_of_kept hkept d
  | none =>
    rw [memoText_of_missing host hkept d]
    obtain ⟨s', hs', hrun⟩ := hfollows.statement hc hk d _ (hs.of_undisturbed
      (s.undisturbed_record (.rendering (.text key) f.shown)))
    change f.statement host.environment d _ = resultOf (U.reading.flatten host.depth d f) s' at hrun
    rw [hdepth] at hrun
    rw [hrun, Rendering.flatten]
    cases htext : U.reading.flatten U.depth d f with
    | ok text => exact ⟨_, hs'.rememberText hf hd htext, rfl⟩
    | error e => exact ⟨s', hs', rfl⟩

/-- **The values are what collecting afresh gives**, whether they are kept or not. -/
theorem memoValues_gives :
    Gives (Session.Sound U known pool next) (f.memoValues host) (U.collect f) := by
  intro s hs
  cases hkept : (s.cacheOf f).values with
  | some bs =>
    refine ⟨s, hs, ?_⟩
    rw [hs.values f hf bs hkept]
    exact memoValues_of_kept hkept
  | none =>
    rw [memoValues_of_missing host hkept]
    obtain ⟨s', hs', hrun⟩ := hfollows.bindings hc hk _ (hs.of_undisturbed
      (s.undisturbed_record (.rendering .values f.shown)))
    change f.bindings host.environment _ = resultOf (U.reading.collect host.depth f) s' at hrun
    rw [hdepth] at hrun
    rw [hrun, Rendering.collect]
    cases hvalues : U.reading.collect U.depth f with
    | ok bs => exact ⟨_, hs'.rememberValues hf hvalues, rfl⟩
    | error e => exact ⟨s', hs', rfl⟩

end Gives

end Fragment

/-! ## Looking up dialects -/

section Dialects

variable {U : Rendering} {known : Value → Prop} {pool : List Fragment}
  {next : Nat → Prop} {s : Session ω}

theorem Session.Sound.created (hs : s.Sound U known pool next) {target : String}
    (o : DialectObject) (ho : U.dialectFor target = .ok o.dialect) (n : Nat) :
    ({ s with
        registry := ⟨s.registry.classes, s.registry.objects.insert target o⟩
        fresh := n } : Session ω).Sound U known pool next where
  nextFragment := hs.nextFragment
  lists := hs.lists
  classes := hs.classes
  objects := by
    intro name o' ho'
    change (s.registry.objects.insert target o).get? name = some o' at ho'
    rw [Table.get?_insert] at ho'
    split_ifs at ho' with hname
    · cases ho'
      rw [← hname]
      exact ho
    · exact hs.objects name o' ho'
  identity := hs.identity
  below := hs.below
  texts := hs.texts
  values := hs.values
  unused := hs.unused

theorem Registry.targets_congr {r r' : Registry} (h : r.classes = r'.classes) :
    r.targets = r'.targets := by
  unfold Registry.targets
  rw [h]

theorem Rendering.dialectFor_congr {U U' : Rendering}
    (h : U.registry.classes = U'.registry.classes) : U.dialectFor = U'.dialectFor := by
  funext target
  unfold dialectFor Registry.class?
  rw [h, Registry.targets_congr h]

theorem createDialect_str (target : String) (s : Session ω) :
    createDialect (.str target) s =
      match s.registry.create s.fresh target with
      | .ok (o, registry) => .ok o { s with registry := registry, fresh := s.fresh + 1 }
      | .error .unregistered =>
        .error (.unsupportedTarget (.str target) (quoted target) s.registry.targets) s
      | .error (.abstractClass title) => .error (.abstractClass title) s := by
  rw [createDialect, Pass.get_bind]
  simp only [Value.isHashable, Value.shown_str]
  cases s.registry.create s.fresh target with
  | ok x => rfl
  | error e => cases e <;> rfl

/-- **Looking up a target** gives an object of the registered dialect, or refuses the target. -/
theorem createDialect_eq (hs : s.Sound U known pool next) (target : String) :
    (∃ o s', s'.Sound U known pool next ∧ U.dialectFor target = .ok o.dialect ∧
      createDialect (.str target) s = .ok o s') ∨
    (∃ e, U.dialectFor target = .error e ∧ createDialect (.str target) s = .error e s) := by
  rw [createDialect_str]
  cases hobject : s.registry.object? target with
  | some o =>
    rw [Registry.create_of_object? hobject]
    exact .inl ⟨o, { s with fresh := s.fresh + 1 }, hs.of_undisturbed (s.undisturbed_fresh _),
      hs.objects target o hobject, rfl⟩
  | none =>
    have hfor : U.dialectFor target =
        Rendering.dialectFor { U with registry := s.registry } target :=
      congrFun (Rendering.dialectFor_congr hs.classes.symm) target
    rw [Registry.create, hobject]
    cases hclass : s.registry.class? target with
    | none =>
      simp only [Rendering.dialectFor, hclass] at hfor
      exact .inr ⟨_, hfor, rfl⟩
    | some c =>
      cases hdialect : c.dialect? with
      | none =>
        simp only [Rendering.dialectFor, hclass, hdialect] at hfor
        refine .inr ⟨_, hfor, ?_⟩
        simp only [DialectClass.instantiate?, hdialect, Option.map_none]
      | some d =>
        simp only [Rendering.dialectFor, hclass, hdialect] at hfor
        refine .inl ⟨⟨s.fresh, c, d⟩, _, hs.created ⟨s.fresh, c, d⟩ hfor (s.fresh + 1), hfor, ?_⟩
        simp only [DialectClass.instantiate?, hdialect, Option.map_some]

end Dialects

end SqlFragments
