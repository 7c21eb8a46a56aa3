import SqlFragments.Proofs.Moments
import SqlFragments.Proofs.SideBySide

/-!
# Fragments in the place of others

A fragment is put in the place of another one that is made of the same and has kept the same. If
callables tell neither the owners of slots apart nor look at what is kept for the two, whatever is
done afterwards comes to the same.

* `Session.Tidy`: nothing is kept for identities that are still to be given. **`after_tidy`**: so it
  is in every history.
* `Session.Swapped`: what is kept for one identity in one session is kept for another one in the
  other. `Host.Overlooks`: callables that do not tell the two apart.
* **`Host.Overlooks.read`**: a read of one of the fragments and a read of the other.
* `Bench.Swapped`: a pool with one fragment in the place of another. **`Act.perform_swapped`**,
  **`after_swapped`**: one act and a whole history. **`Bench.Swapped.read`**: whatever is read then.
-/

namespace SqlFragments

variable {ω : Type}

/-! ## Identities still to be given -/

/-- Identities below `n` have been given, and nothing is kept for those that have not. -/
structure Session.Tidy (n : Nat) (s : Session ω) : Prop where
  next : n ≤ s.freshFragment
  unused : ∀ i, s.freshFragment ≤ i → s.caches.get? i = none
  gathered : s.Gathered

/-- Callables that take no identity back, and keep nothing for one that is still to be given. -/
def Host.Tidy (host : Host ω) : Prop := ∀ n c f, Keeps (Session.Tidy n) (host.call c f)

/-- All fragments of the pool have been given their identities. -/
structure Bench.Tidy (n : Nat) (b : Bench (Session ω)) : Prop where
  state : b.state.Tidy n
  below : ∀ f ∈ b.pool, f.id < b.state.freshFragment

section Tidy

variable {host : Host ω} (hhost : host.Tidy) {n : Nat} {f : Fragment}

theorem Session.Tidy.putCache {s : Session ω} (h : s.Tidy n) (hf : f.id < n) {c : Cache}
    (hc : ∀ bs, c.values = some bs → ∀ b ∈ bs, b.Plain) : (s.putCache f c).Tidy n where
  next := h.next
  unused := by
    intro i hi
    have hnext := h.next
    have hne : f.id ≠ i := by
      change s.freshFragment ≤ i at hi
      omega
    exact (Table.get?_insert_of_ne _ _ hne).trans (h.unused i hi)
  gathered := by
    intro g bs hkept
    rw [cacheOf_putCache] at hkept
    split_ifs at hkept
    · exact hc bs hkept
    · exact h.gathered g bs hkept

include hhost

theorem Host.Tidy.memoText (hf : f.id < n) (key : TextKey) (d : Dialect) :
    Keeps (Session.Tidy n) (f.memoText host key d) := by
  intro s hs
  rcases f.memoText_cases (hhost n) key d (s := s) ⟨hs.next, hs.unused, hs.gathered⟩ with
    ⟨text, -, hrun⟩ | ⟨-, ⟨text, s', hs', -, hrun⟩ | ⟨e, s', hs', -, hrun⟩⟩
  · rwa [stateAfter_ok hrun]
  · rw [stateAfter_ok hrun]
    exact hs'.putCache hf (hs'.gathered f)
  · rwa [stateAfter_error hrun]

theorem Host.Tidy.memoValues (hf : f.id < n) : Keeps (Session.Tidy n) (f.memoValues host) := by
  intro s hs
  rcases f.memoValues_cases (hhost n) (s := s) ⟨hs.next, hs.unused, hs.gathered⟩ with
    ⟨bs, -, hrun⟩ | ⟨-, ⟨bs, s', hs', hpass, hrun⟩ | ⟨e, s', hs', -, hrun⟩⟩
  · rwa [stateAfter_ok hrun]
  · rw [stateAfter_ok hrun]
    refine hs'.putCache hf fun bs' hbs' => ?_
    cases hbs'
    exact Fragment.bindings_plain hpass
  · rwa [stateAfter_error hrun]

theorem Host.Tidy.read (hf : f.id < n) (r : Read) : Keeps (Session.Tidy n) (r.perform host f) :=
  Read.keeps_of_getters (hhost.memoText hf)
    (Fragment.values_keeps (hhost.memoValues hf) fun _ _ h => ⟨h.next, h.unused, h.gathered⟩)
    (createDialect_keeps fun _ _ _ _ h _ => ⟨h.next, h.unused, h.gathered⟩)
    (fun _ h => ⟨h.next, h.unused, h.gathered⟩) r

theorem Bench.Tidy.perform {b : Bench (Session ω)} (hb : b.Tidy n) (x : Act ω) :
    (x.perform host b).Tidy n := by
  cases hx : x.isRead with
  | true =>
    match x, hx with
    | .step (.read i r), _ =>
      rw [Act.perform_read]
      cases hi : b.pool[i]? with
      | none => exact hb
      | some f =>
        have hnow : b.state.Tidy b.state.freshFragment :=
          ⟨Nat.le_refl _, hb.state.unused, hb.state.gathered⟩
        have hafter := hhost.read (hb.below f (List.mem_of_getElem? hi)) r b.state hnow
        exact ⟨⟨Nat.le_trans hb.state.next hafter.next, hafter.unused, hafter.gathered⟩,
          fun g hg => Nat.lt_of_lt_of_le (hb.below g hg) hafter.next⟩
  | false =>
    have hframe := Act.perform_frame host hx b
    have hcaches : (x.perform host b).state.caches = b.state.caches := Act.perform_caches hx b
    refine ⟨⟨Nat.le_trans hb.state.next hframe.next, fun i hi => ?_,
      hb.state.gathered.of_caches hcaches⟩, fun g hg => ?_⟩
    · rw [hcaches]
      exact hb.state.unused i (Nat.le_trans hframe.next hi)
    · rcases hframe.pool with hpool | ⟨g', hpool, hg'⟩
      · rw [hpool] at hg
        exact Nat.lt_of_lt_of_le (hb.below g hg) hframe.next
      · rw [hpool] at hg
        rcases List.mem_append.mp hg with hg | hg
        · exact Nat.lt_of_lt_of_le (hb.below g hg) hframe.next
        · rw [List.mem_singleton.mp hg]
          rcases hg' with hg' | ⟨-, hlt⟩
          · exact Nat.lt_of_lt_of_le (hb.below g' hg') hframe.next
          · exact hlt

/-- **Every history is tidy.** -/
theorem after_tidy (xs : List (Act ω)) {b : Bench (Session ω)} (hb : b.Tidy n) :
    (after host b xs).Tidy n := by
  induction xs generalizing b with
  | nil => exact hb
  | cons x xs ih => exact ih (hb.perform hhost x)

end Tidy

theorem Bench.tidy_initial (memory : ω) : (Bench.initial memory).Tidy 0 := by
  refine ⟨⟨Nat.zero_le _, fun _ _ => rfl, Session.gathered_initial memory⟩, fun f hf => ?_⟩
  cases hf

/-! ## One identity in the place of another -/

/-- The same sessions, but for what is kept: what one keeps for `i`, the other keeps for `j`. -/
structure Session.Swapped (i j : Nat) (s t : Session ω) : Prop where
  heap : t.heap = s.heap
  registry : t.registry = s.registry
  fresh : t.fresh = s.fresh
  next : t.freshFragment = s.freshFragment
  memory : t.memory = s.memory
  gathered : s.Gathered
  own : t.caches.get? j = s.caches.get? i
  others : ∀ k, k ≠ i → k ≠ j → t.caches.get? k = s.caches.get? k

/-- The same fragment, or one with the identity `j` in the place of one with the identity `i`. -/
def Replaced (i j : Nat) (f g : Fragment) : Prop := f = g ∨ f.id = i ∧ g.id = j

/-- Callables that do not tell the identity `i` from `j`, and do not look at what is kept for them.
They may depend on the fragment that asks in any other way, have any other effect, and look at
whatever else there is. -/
def Host.Overlooks (host : Host ω) (i j : Nat) : Prop :=
  ∀ c f g, Replaced i j f g →
    Lockstep (Session.Swapped i j) Eq (host.call c f) (host.call c g)

/-- One identity stands where the other did, or both are one that is neither. -/
def Matched (i j : Nat) (f g : Fragment) : Prop :=
  f.id = i ∧ g.id = j ∨ f.id = g.id ∧ f.id ≠ i ∧ f.id ≠ j

section Swapped

variable {i j : Nat} {s t : Session ω}

theorem Session.Swapped.cacheOf_eq (h : s.Swapped i j t) {f g : Fragment} (hfg : Matched i j f g) :
    t.cacheOf g = s.cacheOf f := by
  unfold Session.cacheOf
  rcases hfg with ⟨rfl, rfl⟩ | ⟨hid, hi, hj⟩
  · rw [h.own]
  · rw [← hid, h.others f.id hi hj]

theorem Session.Swapped.putCache (h : s.Swapped i j t) {f g : Fragment} (hfg : Matched i j f g)
    {c : Cache} (hc : ∀ bs, c.values = some bs → ∀ b ∈ bs, b.Plain) :
    (s.putCache f c).Swapped i j (t.putCache g c) where
  heap := h.heap
  registry := h.registry
  fresh := h.fresh
  next := h.next
  memory := h.memory
  gathered := by
    intro f' bs hkept
    rw [cacheOf_putCache] at hkept
    split_ifs at hkept
    · exact hc bs hkept
    · exact h.gathered f' bs hkept
  own := by
    change (t.caches.insert g.id c).get? j = (s.caches.insert f.id c).get? i
    rw [Table.get?_insert, Table.get?_insert]
    rcases hfg with ⟨rfl, rfl⟩ | ⟨hid, hi, hj⟩
    · rw [if_pos rfl, if_pos rfl]
    · rw [if_neg hi, if_neg (hid ▸ hj)]
      exact h.own
  others := by
    intro k hki hkj
    change (t.caches.insert g.id c).get? k = (s.caches.insert f.id c).get? k
    rw [Table.get?_insert, Table.get?_insert]
    rcases hfg with ⟨rfl, rfl⟩ | ⟨hid, -, -⟩
    · rw [if_neg (Ne.symm hki), if_neg (Ne.symm hkj)]
      exact h.others k hki hkj
    · rw [← hid, h.others k hki hkj]

/-- **Getters cannot tell** sessions apart in which identities have changed places. -/
theorem sideBySide_swapped (i j : Nat) :
    SideBySide (Session.Swapped (ω := ω) i j) (Matched i j) fun _ => True where
  nextRef _ _ h := by rw [h.heap]
  made _ _ _ := trivial
  registry _ _ h := h.registry
  fresh _ _ h := h.fresh
  kept _ _ _ _ h hfg := h.cacheOf_eq hfg
  gathered _ _ f _ bs h _ hkept b hb := ⟨h.gathered f bs hkept b hb, b.within_all⟩
  record _ _ _ _ h := ⟨h.heap, h.registry, h.fresh, h.next, h.memory, h.gathered, h.own, h.others⟩
  cache _ _ _ _ _ h hfg hc := h.putCache hfg fun bs hbs b hb => (hc bs hbs b hb).1
  allocate _ _ _ h _ :=
    ⟨by rw [h.heap], h.registry, h.fresh, h.next, h.memory, h.gathered, h.own, h.others⟩
  renew _ _ _ _ h := ⟨h.heap, rfl, rfl, h.next, h.memory, h.gathered, h.own, h.others⟩

theorem Read.InStep.swapped {host : Host ω} {f g : Fragment} {r : Read}
    (hr : r.InStep (Session.Swapped i j) (fun _ => True) host f g) (hfg : Matched i j f g) :
    Lockstep (Session.Swapped i j) Eq (r.perform host f) (r.perform host g) :=
  ((sideBySide_swapped i j).read hfg hr).mono fun _ _ h => h.1

end Swapped

/-! ## Reads -/

section Reads

variable {host : Host ω} {i j : Nat} (hhost : host.Overlooks i j)

include hhost

theorem Host.Overlooks.alike {K : Fragment → Fragment → Prop} (hself : ∀ g, K g g)
    (hK : ∀ f g, K f g → Replaced i j f g) :
    host.environment.Alike host.environment (Session.Swapped i j) K K fun _ => True where
  depth := rfl
  elements _ _ r h _ := congrArg (fun heap => heap.elements r) h.heap
  element _ _ _ _ _ _ _ := trivial
  item _ _ _ _ := trivial
  call c f g _ hfg := (hhost c f g (hK f g hfg)).mono fun _ _ hvw => hvw ▸ .same trivial
  self g _ := hself g

/-- The values depend on the slots, the text on the literal parts as well, and a compiled query on
the name. -/
theorem Host.Overlooks.inStep {f g : Fragment} {r : Read} (hfg : Replaced i j f g)
    (hslots : f.slots = g.slots)
    (hform : r ≠ .values →
      f.segments = g.segments ∧ f.delimiter = g.delimiter ∧ f.joined = g.joined)
    (hname : (∃ target, r = .compile target) → f.name = g.name) :
    r.InStep (Session.Swapped i j) (fun _ => True) host f g where
  texts hr d := by
    let K : Fragment → Fragment → Prop := fun f g => Replaced i j f g ∧ f.slots = g.slots ∧
      f.segments = g.segments ∧ f.delimiter = g.delimiter ∧ f.joined = g.joined
    have halike := hhost.alike (K := K) (fun g => ⟨.inl rfl, rfl, rfl, rfl, rfl⟩) fun _ _ h => h.1
    exact halike.statement (fun _ _ h => Value.Alike.of_eq h.2.1) ⟨hfg, hslots, hform hr⟩
      (fun _ _ h => h.2.2) d
  values _ := by
    let K : Fragment → Fragment → Prop := fun f g => Replaced i j f g ∧ f.slots = g.slots
    have halike := hhost.alike (K := K) (fun g => ⟨.inl rfl, rfl⟩) fun _ _ h => h.1
    exact halike.bindings (fun _ _ h => Value.Alike.of_eq h.2) ⟨hfg, hslots⟩
  name := hname

end Reads

section Twins

variable {host : Host ω} {f g : Fragment} (hhost : host.Overlooks f.id g.id)

include hhost

/-- **Reads of twins** give the same where the same is kept for them. -/
theorem Host.Overlooks.read (hfg : f.Twin g) (r : Read) :
    Lockstep (Session.Swapped f.id g.id) Eq (r.perform host f) (r.perform host g) := by
  refine Read.InStep.swapped ?_ (.inl ⟨rfl, rfl⟩)
  rw [hfg]
  exact hhost.inStep (.inr ⟨rfl, rfl⟩) rfl (fun _ => ⟨rfl, rfl, rfl⟩) fun _ => rfl

end Twins

/-! ## Acts -/

section Acts

variable {i j : Nat}

theorem lockstep_freshFragmentId :
    Lockstep (Session.Swapped (ω := ω) i j) Eq freshFragmentId freshFragmentId := by
  intro s t h
  refine ⟨h.next.symm, h.heap, h.registry, h.fresh, ?_, h.memory, h.gathered, h.own, h.others⟩
  exact congrArg (· + 1) h.next

theorem Fragment.lockstep_ofParts (joined : Bool) (x : Except Failure FragmentParts) :
    Lockstep (Session.Swapped (ω := ω) i j) Eq (ofParts joined x) (ofParts joined x) := by
  cases x with
  | error e => exact .throw e
  | ok p =>
    refine .bind lockstep_freshFragmentId ?_
    rintro id _ rfl
    exact .pure rfl

theorem Fragment.lockstep_make (segments slots delimiter name : Value) :
    Lockstep (Session.Swapped (ω := ω) i j) Eq (make segments slots delimiter name)
      (make segments slots delimiter name) := by
  refine .get_bind fun s t h => ?_
  rw [h.heap]
  exact lockstep_ofParts false _

theorem Fragment.lockstep_join (items delimiter : Value) :
    Lockstep (Session.Swapped (ω := ω) i j) Eq (join items delimiter) (join items delimiter) := by
  refine .get_bind fun s t h => ?_
  rw [h.heap]
  exact lockstep_ofParts true _

theorem lockstep_literalItems (v : Value) :
    Lockstep (Session.Swapped (ω := ω) i j) Eq (literalItems v) (literalItems v) := by
  refine .get_bind fun s t h => ?_
  rw [h.heap]
  split
  · exact .throw _
  · exact .throw _
  · cases v.iterate? s.heap with
    | none => exact .throw _
    | some items => exact .pure rfl

theorem Builder.lockstep_ofTemplate (strings : Value) (slots : List Value) :
    Lockstep (Session.Swapped (ω := ω) i j) Eq (ofTemplate strings slots)
      (ofTemplate strings slots) := by
  refine .bind (lockstep_literalItems strings) ?_
  rintro pieces _ rfl
  have hrecord : ∀ x, Lockstep (Session.Swapped (ω := ω) i j) Eq
      (modify (·.record x)) (modify (·.record x)) :=
    fun x s t h => ⟨rfl, (sideBySide_swapped i j).record s t x x h⟩
  exact (hrecord _).bind fun _ _ _ => Fragment.lockstep_make _ _ _ _

theorem Builder.lockstep_call (b : Builder) (args : List Value) :
    Lockstep (Session.Swapped (ω := ω) i j) Eq (b.call args) (b.call args) := by
  unfold call
  split
  · exact Fragment.lockstep_make _ _ _ _
  · split_ifs
    · exact lockstep_ofTemplate _ _
    · exact .throw _
  · exact Fragment.lockstep_join _ _

theorem lockstep_createDialect (target : Value) :
    Lockstep (Session.Swapped (ω := ω) i j) Eq (createDialect target) (createDialect target) := by
  refine .get_bind fun s t h => ?_
  rw [h.heap, h.registry, h.fresh]
  dsimp only
  split_ifs
  · exact .throw _
  · cases target with
    | str name =>
      dsimp only
      cases s.registry.create s.fresh name with
      | ok x =>
        exact fun _ _ _ =>
          ⟨rfl, rfl, rfl, rfl, h.next, h.memory, h.gathered, h.own, h.others⟩
      | error e => cases e <;> exact .throw _
    | _ => exact .throw _

end Acts

theorem Change.perform_of_some {c : Change} {f g : Fragment} {s : Session ω} {next n : Nat}
    (hs : s.freshFragment = next) (h : c.apply next f = some (g, n)) :
    c.perform f s = .ok g { s with freshFragment := n } := by
  rcases c.perform_eq (f := f) hs with ⟨g', n', h', hrun⟩ | ⟨h', -⟩
  · rw [h] at h'
    cases h'
    exact hrun
  · rw [h] at h'
    cases h'

theorem Change.perform_of_none {c : Change} {f : Fragment} {s : Session ω} {next : Nat}
    (hs : s.freshFragment = next) (h : c.apply next f = none) :
    ∃ e, c.perform f s = .error e s := by
  rcases c.perform_eq (f := f) hs with ⟨g', n', h', -⟩ | ⟨-, hrun⟩
  · rw [h] at h'
    cases h'
  · exact hrun

/-! ## Histories -/

/-- The second fragment stands where the first does, or both are one that is neither. -/
def InPlace (g g' f f' : Fragment) : Prop :=
  f = g ∧ f' = g' ∨ f = f' ∧ f.id ≠ g.id ∧ f.id ≠ g'.id

/-- A pool in which one fragment stands in the place of another, and the sessions with it. -/
structure Bench.Swapped (g g' : Fragment) (b b' : Bench (Session ω)) : Prop where
  pool : List.Forall₂ (InPlace g g') b.pool b'.pool
  state : b.state.Swapped g.id g'.id b'.state

section Histories

variable {host : Host ω} {g g' : Fragment} (hhost : host.Overlooks g.id g'.id) (htwin : g.Twin g')
  {b b' : Bench (Session ω)} (h : b.Swapped g g' b')

include hhost htwin

theorem InPlace.read {f f' : Fragment} (hf : InPlace g g' f f') (r : Read) :
    Lockstep (Session.Swapped g.id g'.id) Eq (r.perform host f) (r.perform host f') := by
  rcases hf with ⟨rfl, rfl⟩ | ⟨rfl, hne⟩
  · exact hhost.read htwin r
  · exact (hhost.inStep (.inl rfl) rfl (fun _ => ⟨rfl, rfl, rfl⟩) fun _ => rfl).swapped
      (.inr ⟨rfl, hne⟩)

/-- **Whatever is read** gives the same. -/
theorem Bench.Swapped.read (h : b.Swapped g g' b') (i : Nat) (r : Read) :
    (b.pool[i]?).map (fun f => outcome (r.perform host f) b.state) =
      (b'.pool[i]?).map fun f => outcome (r.perform host f) b'.state := by
  rcases getElem?_forall₂ h.pool i with ⟨hnone, hnone'⟩ | ⟨f, f', hf, hf', hplace⟩
  · rw [hnone, hnone']
    rfl
  · rw [hf, hf']
    exact congrArg some ((hplace.read hhost htwin r).outcome_eq h.state)

omit hhost htwin in
theorem Bench.Swapped.run {α : Type} (h : b.Swapped g g' b') {p q : Op ω α} {Q : α → α → Prop}
    (hpq : Lockstep (Session.Swapped g.id g'.id) Q p q) : (b.run p).Swapped g g' (b'.run q) :=
  ⟨h.pool, hpq.stateAfter h.state⟩

omit hhost htwin in
theorem Bench.Swapped.build (h : b.Swapped g g' b') {p : Op ω Fragment} (hbuilds : Builds p)
    (hp : Lockstep (Session.Swapped g.id g'.id) Eq p p) (hg : g.id < b.state.freshFragment)
    (hg' : g'.id < b.state.freshFragment) : (b.build p).Swapped g g' (b'.build p) := by
  have hrun := hp b.state b'.state h.state
  unfold Bench.build
  rcases hbuilds b.state with ⟨f, log, hok, hid⟩ | ⟨e, log, he⟩
  · rw [hok] at hrun ⊢
    obtain ⟨_, t, hok', rfl, hstate⟩ := hrun.ok_left
    rw [hok']
    refine ⟨List.rel_append h.pool (.cons (.inr ⟨rfl, ?_, ?_⟩) .nil), hstate⟩
    · omega
    · omega
  · rw [he] at hrun ⊢
    obtain ⟨t, he', hstate⟩ := hrun.error_left
    rw [he']
    exact ⟨h.pool, hstate⟩

omit hhost in
theorem Bench.Swapped.change (h : b.Swapped g g' b') (i : Nat) (c : Change)
    (hg : g.id < b.state.freshFragment) (hg' : g'.id < b.state.freshFragment) :
    ((Act.step (.change i c)).perform host b).Swapped g g'
      ((Act.step (.change i c)).perform host b') := by
  rw [Act.perform, Act.perform, Step.perform, Step.perform]
  rcases getElem?_forall₂ h.pool i with ⟨hnone, hnone'⟩ | ⟨f, f', hf, hf', hplace⟩
  · rw [hnone, hnone']
    exact h
  have hnext : ∀ n, ({ b.state with freshFragment := n } : Session ω).Swapped g.id g'.id
      { b'.state with freshFragment := n } := fun n =>
    ⟨h.state.heap, h.state.registry, h.state.fresh, rfl, h.state.memory, h.state.gathered,
      h.state.own, h.state.others⟩
  rw [hf, hf']
  -- what stands in the two places is changed to twins again
  have happly : (c.apply b.state.freshFragment f = none ∧ c.apply b.state.freshFragment f' = none) ∨
      ∃ x x' n, c.apply b.state.freshFragment f = some (x, n) ∧
        c.apply b.state.freshFragment f' = some (x', n) ∧ InPlace g g' x x' := by
    rcases hplace with ⟨rfl, rfl⟩ | ⟨rfl, hne⟩
    · rcases c.apply_twin htwin b.state.freshFragment b.state.freshFragment with
        hrefused | ⟨hsame, hsame'⟩ | ⟨x, hnew, hnew'⟩
      · exact .inl hrefused
      · exact .inr ⟨f, f', _, hsame, hsame', .inl ⟨rfl, rfl⟩⟩
      · exact .inr ⟨_, _, _, hnew, hnew', .inr ⟨rfl, Nat.ne_of_gt hg, Nat.ne_of_gt hg'⟩⟩
    · cases hx : c.apply b.state.freshFragment f with
      | none => exact .inl ⟨rfl, rfl⟩
      | some xn =>
        refine .inr ⟨xn.1, xn.1, xn.2, rfl, rfl, .inr ⟨rfl, ?_⟩⟩
        rcases Change.apply_cases hx with ⟨hsame, -⟩ | ⟨d, n, hnew, -⟩
        · rw [hsame]
          exact hne
        · rw [hnew]
          dsimp only
          omega
  rcases happly with ⟨hnone, hnone'⟩ | ⟨x, x', n, hx, hx', hplace'⟩
  · obtain ⟨e, hrun⟩ := Change.perform_of_none rfl hnone
    obtain ⟨e', hrun'⟩ := Change.perform_of_none h.state.next hnone'
    simp only [hrun, hrun']
    exact h
  · simp only [Change.perform_of_some rfl hx, Change.perform_of_some h.state.next hx']
    exact ⟨List.rel_append h.pool (.cons hplace' .nil), hnext n⟩

/-- **One act** comes to the same. -/
theorem Act.perform_swapped (x : Act ω) (h : b.Swapped g g' b')
    (hg : g.id < b.state.freshFragment) (hg' : g'.id < b.state.freshFragment) :
    (x.perform host b).Swapped g g' (x.perform host b') := by
  cases x with
  | step y =>
    cases y with
    | read i r =>
      rw [perform_read, perform_read]
      rcases getElem?_forall₂ h.pool i with ⟨hnone, hnone'⟩ | ⟨f, f', hf, hf', hplace⟩
      · rw [hnone, hnone']
        exact h
      · rw [hf, hf']
        exact h.run (hplace.read hhost htwin r)
    | change i c => exact h.change htwin i c hg hg'
  | make segments slots delimiter name =>
    exact h.build (Fragment.make_builds _ _ _ _) (Fragment.lockstep_make _ _ _ _) hg hg'
  | join items delimiter =>
    exact h.build (Fragment.join_builds _ _) (Fragment.lockstep_join _ _) hg hg'
  | call builder args =>
    exact h.build (builder.call_builds args) (builder.lockstep_call args) hg hg'
  | list items => exact h.run ((sideBySide_swapped _ _).newListRef fun _ _ => trivial)
  | append r v =>
    have hheap : b'.state.heap.append r v = b.state.heap.append r v := by rw [h.state.heap]
    exact ⟨h.pool, hheap, h.state.registry, h.state.fresh, h.state.next, h.state.memory,
      h.state.gathered, h.state.own, h.state.others⟩
  | register name c =>
    have hregistry : b'.state.registry.register name c = b.state.registry.register name c := by
      rw [h.state.registry]
    exact ⟨h.pool, h.state.heap, hregistry, h.state.fresh, h.state.next, h.state.memory,
      h.state.gathered, h.state.own, h.state.others⟩
  | create target => exact h.run (lockstep_createDialect target)
  | turn memory =>
    exact ⟨h.pool, h.state.heap, h.state.registry, h.state.fresh, h.state.next, rfl,
      h.state.gathered, h.state.own, h.state.others⟩

/-- **A whole history** comes to the same. -/
theorem after_swapped (htidy : host.Tidy) {n : Nat} (hg : g.id < n) (hg' : g'.id < n)
    (xs : List (Act ω)) (hb : b.Tidy n) (h : b.Swapped g g' b') :
    (after host b xs).Swapped g g' (after host b' xs) := by
  induction xs generalizing b b' with
  | nil => exact h
  | cons x xs ih =>
    have hnext := hb.state.next
    exact ih (hb.perform htidy x) (x.perform_swapped hhost htwin h (by omega) (by omega))

end Histories

end SqlFragments
