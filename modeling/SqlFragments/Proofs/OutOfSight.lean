import SqlFragments.Proofs.SideBySide

/-!
# List objects out of sight

Two sessions are compared that differ in what some list objects hold. No getter of a fragment tells
them apart if nothing that the fragment consists of leads to one of these list objects, so they can
grow at any time.

* `Value.Leads`: the list objects that are come across from a value. `Value.Avoids`: some list
  objects are not.
* `Session.Hides`: the sessions differ in nothing else. `Host.Disregards`: callables that are not
  led to those list objects give the same answer in both.
* **`sideBySide_hides`**, **`Host.Disregards.read`**: getters and reads.
* `Bench.Hides`: fragments that avoid the list objects. **`Act.perform_hides`**, **`after_hides`**:
  one act, and a history without the appends to them. `Bench.Apart`: where it can begin.
* `Read.Unaffected`: a read gives the same, with values that lead to the same.
-/

namespace SqlFragments

variable {ω : Type}

/-! ## What a value leads to -/

/-- The list objects that are come across from a value when slots are resolved. Which ones a
callable comes across is given. -/
inductive Value.Leads (reach : Callable → ListRef → Prop) (h : Heap) : Value → ListRef → Prop
  | self (r : ListRef) : Leads reach h (.list r) r
  | element {r l : ListRef} {v : Value} (hv : v ∈ h.elements r) (hl : Leads reach h v l) :
    Leads reach h (.list r) l
  | item {vs : List Value} {v : Value} {l : ListRef} (hv : v ∈ vs) (hl : Leads reach h v l) :
    Leads reach h (.tuple vs) l
  | piece {vs : List Value} {v : Value} {l : ListRef} (hv : v ∈ vs) (hl : Leads reach h v l) :
    Leads reach h (.segments vs) l
  | slot {f : Fragment} {v : Value} {l : ListRef} (hv : v ∈ f.slots) (hl : Leads reach h v l) :
    Leads reach h (.fragment f) l
  | callable {v : Value} {c : Callable} {l : ListRef} (hc : v.callable? = some c)
    (hl : reach c l) : Leads reach h v l

/-- None of the list objects is come across. -/
def Value.Avoids (reach : Callable → ListRef → Prop) (h : Heap) (ls : List ListRef) (v : Value) :
    Prop :=
  ∀ l ∈ ls, ¬ v.Leads reach h l

namespace Value.Avoids

variable {reach : Callable → ListRef → Prop} {h : Heap} {ls : List ListRef}

theorem element {r : ListRef} (hr : (Value.list r).Avoids reach h ls) :
    ∀ v ∈ h.elements r, v.Avoids reach h ls :=
  fun _ hv l hl hleads => hr l hl (.element hv hleads)

theorem item {vs : List Value}
    (hvs : (Value.tuple vs).Avoids reach h ls ∨ (Value.segments vs).Avoids reach h ls) :
    ∀ v ∈ vs, v.Avoids reach h ls := by
  intro v hv l hl hleads
  rcases hvs with hvs | hvs
  · exact hvs l hl (.item hv hleads)
  · exact hvs l hl (.piece hv hleads)

theorem slot {f : Fragment} (hf : (Value.fragment f).Avoids reach h ls) :
    ∀ v ∈ f.slots, v.Avoids reach h ls :=
  fun _ hv l hl hleads => hf l hl (.slot hv hleads)

theorem of_slots {f : Fragment} (hslots : ∀ v ∈ f.slots, v.Avoids reach h ls) :
    (Value.fragment f).Avoids reach h ls := by
  intro l hl hleads
  cases hleads with
  | slot hv hleads => exact hslots _ hv l hl hleads
  | callable hc => cases hc

theorem not_mem {r : ListRef} (hr : (Value.list r).Avoids reach h ls) : r ∉ ls :=
  fun hmem => hr r hmem (.self r)

theorem ahead (hls : ∀ l ∈ ls, h.Holds l) {r : ListRef} (hr : ¬ h.Holds r) :
    (Value.list r).Avoids reach h ls := by
  intro l hl hleads
  cases hleads with
  | self => exact hr (hls r hl)
  | element hv =>
    rw [Heap.elements_of_not_holds hr] at hv
    cases hv
  | callable hc => cases hc

end Value.Avoids

/-! ## Sessions that differ in list objects out of sight -/

/-- The same sessions, but for list objects that are not known and for the log. Known list objects
hold known values, and so do the values that are kept for a fragment of the pool. -/
structure Session.Hides (known : Value → Prop) (pool : List Fragment) (s t : Session ω) : Prop where
  nextRef : t.heap.nextRef = s.heap.nextRef
  counters : t.heap.counters = s.heap.counters
  elements : ∀ r, known (.list r) → t.heap.elements r = s.heap.elements r
  element : ∀ r, known (.list r) → ∀ v ∈ s.heap.elements r, known v
  ahead : ∀ r, ¬ s.heap.Holds r → known (.list r)
  caches : t.caches = s.caches
  registry : t.registry = s.registry
  fresh : t.fresh = s.fresh
  next : t.freshFragment = s.freshFragment
  memory : t.memory = s.memory
  gathered : ∀ f ∈ pool, ∀ bs, (s.cacheOf f).values = some bs →
    ∀ b ∈ bs, b.Plain ∧ b.Within known

/-- Callables that are known give the same known answer in both sessions, to every owner that is
known. They may have any effect, also on the list objects out of sight. -/
def Host.Disregards (host : Host ω) (known : Value → Prop) (pool : List Fragment) : Prop :=
  ∀ c f, Asked known c → known (.fragment f) →
    Lockstep (Session.Hides known pool) (fun v w => v = w ∧ known v) (host.call c f) (host.call c f)

section Hides

variable {known : Value → Prop} {pool : List Fragment} {s t : Session ω}

theorem Session.Hides.withHeap (h : s.Hides known pool t) (heap heap' : Heap)
    (hnext : heap'.nextRef = heap.nextRef) (hcounters : heap'.counters = heap.counters)
    (helements : ∀ r, known (.list r) → heap'.elements r = heap.elements r)
    (helement : ∀ r, known (.list r) → ∀ v ∈ heap.elements r, known v)
    (hholds : ∀ r, s.heap.Holds r → heap.Holds r) :
    ({ s with heap := heap } : Session ω).Hides known pool { t with heap := heap' } :=
  ⟨hnext, hcounters, helements, helement, fun r hr => h.ahead r fun hr' => hr (hholds r hr'),
    h.caches, h.registry, h.fresh, h.next, h.memory, h.gathered⟩

theorem Session.Hides.holds_iff (h : s.Hides known pool t) (r : ListRef) :
    t.heap.Holds r ↔ s.heap.Holds r := by
  have hsize : t.heap.lists.size = s.heap.lists.size := congrArg ListRef.index h.nextRef
  unfold Heap.Holds
  rw [hsize]

theorem Session.Hides.allocate (h : s.Hides known pool t) {items : List Value}
    (hitems : ∀ v ∈ items, known v) :
    ({ s with heap := s.heap.allocate items } : Session ω).Hides known pool
      { t with heap := t.heap.allocate items } := by
  have hlook : ∀ heap : Heap, ∀ r, (heap.allocate items).elements r =
      if heap.nextRef = r then items else heap.elements r := by
    intro heap r
    split_ifs with hr
    · rw [← hr]
      exact heap.elements_allocate_self items
    · exact heap.elements_allocate_of_ne hr items
  refine h.withHeap _ _ ?_ h.counters (fun r hr => ?_) (fun r hr v hv => ?_) fun r hr => ?_
  · have hsize : t.heap.lists.size = s.heap.lists.size := congrArg ListRef.index h.nextRef
    simp only [Heap.nextRef, Heap.allocate, Array.size_push, hsize]
  · rw [hlook, hlook, h.nextRef, h.elements r hr]
  · rw [hlook] at hv
    split_ifs at hv
    · exact hitems v hv
    · exact h.element r hr v hv
  · exact hr.allocate items

theorem Session.Hides.append (h : s.Hides known pool t) (r : ListRef) {v : Value} (hv : known v) :
    ({ s with heap := s.heap.append r v } : Session ω).Hides known pool
      { t with heap := t.heap.append r v } := by
  by_cases hr : s.heap.Holds r
  · have hr' := (h.holds_iff r).mpr hr
    refine h.withHeap _ _ ?_ h.counters (fun r' hk => ?_) (fun r' hk w hw => ?_) fun r' hr' => ?_
    · have hsize : t.heap.lists.size = s.heap.lists.size := congrArg ListRef.index h.nextRef
      simp only [Heap.nextRef, Heap.append, Array.size_modify, hsize]
    · rw [Heap.elements_append _ hr', Heap.elements_append _ hr]
      split_ifs with heq
      · rw [h.elements r (heq ▸ hk)]
      · exact h.elements r' hk
    · rw [Heap.elements_append _ hr] at hw
      split_ifs at hw with heq
      · rcases List.mem_append.mp hw with hw | hw
        · exact h.element r (heq ▸ hk) w hw
        · rwa [List.mem_singleton.mp hw]
      · exact h.element r' hk w hw
    · exact (s.heap.holds_append r r' v).mpr hr'
  · have hr' : ¬ t.heap.Holds r := fun hheld => hr ((h.holds_iff r).mp hheld)
    rwa [Heap.append_of_not_holds hr, Heap.append_of_not_holds hr']

/-- **A list object out of sight grows** in one session only. -/
theorem Session.Hides.append_left (h : s.Hides known pool t) {l : ListRef}
    (hl : ∀ r, known (.list r) → l ≠ r) (v : Value) :
    ({ s with heap := s.heap.append l v } : Session ω).Hides known pool t := by
  have hsize : (s.heap.append l v).lists.size = s.heap.lists.size := Array.size_modify
  refine h.withHeap _ t.heap ?_ h.counters (fun r hk => ?_) (fun r hk w hw => ?_) fun r hr => ?_
  · rw [h.nextRef, Heap.nextRef, Heap.nextRef, hsize]
  · rw [Heap.elements_append_of_ne _ (hl r hk)]
    exact h.elements r hk
  · rw [Heap.elements_append_of_ne _ (hl r hk)] at hw
    exact h.element r hk w hw
  · exact (s.heap.holds_append l r v).mpr hr

theorem Session.Hides.putCache (h : s.Hides known pool t) {f : Fragment} {c : Cache}
    (hc : ∀ bs, c.values = some bs → ∀ b ∈ bs, b.Plain ∧ b.Within known) :
    (s.putCache f c).Hides known pool (t.putCache f c) := by
  refine ⟨h.nextRef, h.counters, h.elements, h.element, h.ahead, ?_, h.registry, h.fresh, h.next,
    h.memory, fun g hg bs hkept => ?_⟩
  · exact congrArg (fun caches => caches.insert f.id c) h.caches
  · rw [Session.cacheOf_putCache] at hkept
    split_ifs at hkept
    · exact hc bs hkept
    · exact h.gathered g hg bs hkept

/-- **Getters cannot tell** such sessions apart. -/
theorem sideBySide_hides (known : Value → Prop) (pool : List Fragment) :
    SideBySide (Session.Hides (ω := ω) known pool) (fun f g => f = g ∧ f ∈ pool) known where
  nextRef _ _ h := h.nextRef
  made s _ h := h.ahead _ s.heap.not_holds_nextRef
  registry _ _ h := h.registry
  fresh _ _ h := h.fresh
  kept := by
    rintro s t f _ h ⟨rfl, -⟩
    rw [Session.cacheOf, Session.cacheOf, h.caches]
  gathered _ _ f _ bs h hf := h.gathered f hf.2 bs
  record _ _ _ _ h := ⟨h.nextRef, h.counters, h.elements, h.element, h.ahead, h.caches, h.registry,
    h.fresh, h.next, h.memory, h.gathered⟩
  cache := by
    rintro s t f _ c h ⟨rfl, -⟩ hc
    exact h.putCache hc
  allocate _ _ _ h hitems := h.allocate hitems
  renew _ _ _ _ h := ⟨h.nextRef, h.counters, h.elements, h.element, h.ahead, h.caches, rfl, rfl,
    h.next, h.memory, h.gathered⟩

end Hides

/-! ## Reads and acts -/

section Acts

variable {reach : Callable → ListRef → Prop} {h : Heap} {ls : List ListRef} {pool : List Fragment}
  {host : Host ω} (hhost : host.Disregards (Value.Avoids reach h ls) pool)

include hhost

theorem Host.Disregards.alike : host.environment.Alike host.environment
    (Session.Hides (Value.Avoids reach h ls) pool)
    (fun f g => f = g ∧ (Value.fragment f).Avoids reach h ls)
    (fun f g => f = g ∧ (Value.fragment f).Avoids reach h ls) (Value.Avoids reach h ls) where
  depth := rfl
  elements _ _ r hst hr := hst.elements r hr
  element _ _ r hst hr := hst.element r hr
  item _ := Value.Avoids.item
  call := by
    rintro c f _ hc ⟨rfl, hf⟩
    refine (hhost c f hc hf).mono ?_
    rintro v _ ⟨rfl, hv⟩
    exact .same hv
  self _ hg := ⟨rfl, hg⟩

/-- **A read** of a fragment that avoids the list objects. -/
theorem Host.Disregards.read {f : Fragment} (hf : (Value.fragment f).Avoids reach h ls)
    (hpool : f ∈ pool) (r : Read) :
    Lockstep (Session.Hides (Value.Avoids reach h ls) pool)
      (fun a a' => a = a' ∧ a.Within (Value.Avoids reach h ls)) (r.perform host f)
      (r.perform host f) := by
  have hslots : ∀ f g, f = g ∧ (Value.fragment f).Avoids reach h ls →
      List.Forall₂ (Value.Alike (fun f g => f = g ∧ (Value.fragment f).Avoids reach h ls)
        (Value.Avoids reach h ls)) f.slots g.slots := by
    rintro f _ ⟨rfl, hf⟩
    exact List.forall₂_same.mpr fun v hv => .same (hf.slot v hv)
  refine (sideBySide_hides _ pool).read ⟨rfl, hpool⟩ ⟨fun _ d => ?_, fun _ => ?_, fun _ => rfl⟩
  · refine hhost.alike.statement hslots ⟨rfl, hf⟩ ?_ d
    rintro f _ ⟨rfl, -⟩
    exact ⟨rfl, rfl, rfl⟩
  · exact hhost.alike.bindings hslots ⟨rfl, hf⟩

/-- A read gives the same in two sessions, as far as it can be followed: the values are known, and
known list objects hold the same after it. -/
structure Read.Unaffected (known : Value → Prop) (host : Host ω) (f : Fragment) (s t : Session ω)
    (r : Read) : Prop where
  outcome : outcome (r.perform host f) s = outcome (r.perform host f) t
  within : ∀ a, SqlFragments.outcome (r.perform host f) s = .ok a → a.Within known
  elements : ∀ l, known (.list l) → (stateAfter (r.perform host f) s).heap.elements l =
    (stateAfter (r.perform host f) t).heap.elements l

theorem Host.Disregards.unaffected {f : Fragment} (hf : (Value.fragment f).Avoids reach h ls)
    (hpool : f ∈ pool) (r : Read) {s t : Session ω}
    (hst : s.Hides (Value.Avoids reach h ls) pool t) :
    r.Unaffected (Value.Avoids reach h ls) host f s t := by
  have hread := hhost.read hf hpool r
  refine ⟨(hread.mono fun _ _ ha => ha.1).outcome_eq hst, fun a ha => ?_, fun l hl => ?_⟩
  · obtain ⟨s', hs'⟩ := outcome_eq_ok_iff.mp ha
    have hrun := hread s t hst
    rw [hs'] at hrun
    obtain ⟨_, _, -, ⟨-, hwithin⟩, -⟩ := hrun.ok_left
    exact hwithin
  · exact ((hread.stateAfter hst).elements l hl).symm

end Acts

/-- Something is appended to one of the list objects. -/
def Act.appendsTo (ls : List ListRef) : Act ω → Bool
  | append r _ => r ∈ ls
  | _ => false

/-- Acts that leave the pool as it is and bring in nothing but known values. -/
def Act.Spares (known : Value → Prop) : Act ω → Prop
  | step (.read _ _) | register _ _ | create (.str _) | turn _ => True
  | list items => ∀ v ∈ items, known v
  | append _ v => known v
  | _ => False

/-- The same fragments in both sessions, none of which leads to the list objects. -/
structure Bench.Hides (reach : Callable → ListRef → Prop) (h : Heap) (ls : List ListRef)
    (b b' : Bench (Session ω)) : Prop where
  pool : b'.pool = b.pool
  avoid : ∀ f ∈ b.pool, (Value.fragment f).Avoids reach h ls
  state : b.state.Hides (Value.Avoids reach h ls) b.pool b'.state

/-- List objects that are there and that no fragment of the pool leads to, nor a value that is kept
for one. -/
structure Bench.Apart (reach : Callable → ListRef → Prop) (ls : List ListRef)
    (b : Bench (Session ω)) : Prop where
  holds : ∀ l ∈ ls, b.state.heap.Holds l
  avoid : ∀ f ∈ b.pool, (Value.fragment f).Avoids reach b.state.heap ls
  gathered : ∀ f ∈ b.pool, ∀ bs, (b.state.cacheOf f).values = some bs →
    ∀ x ∈ bs, x.Plain ∧ x.Within (Value.Avoids reach b.state.heap ls)

theorem Bench.Apart.hides {reach : Callable → ListRef → Prop} {ls : List ListRef}
    {b : Bench (Session ω)} (hb : b.Apart reach ls) : b.Hides reach b.state.heap ls b where
  pool := rfl
  avoid := hb.avoid
  state := ⟨rfl, rfl, fun _ _ => rfl, fun _ => Value.Avoids.element,
    fun _ => Value.Avoids.ahead hb.holds, rfl, rfl, rfl, rfl, rfl, hb.gathered⟩

section Histories

variable {reach : Callable → ListRef → Prop} {h : Heap} {ls : List ListRef} {host : Host ω}
  {b b' : Bench (Session ω)}

theorem Bench.Hides.run {α : Type} (hb : b.Hides reach h ls b') {p q : Op ω α} {Q : α → α → Prop}
    (hpq : Lockstep (Session.Hides (Value.Avoids reach h ls) b.pool) Q p q) :
    (b.run p).Hides reach h ls (b'.run q) :=
  ⟨hb.pool, hb.avoid, hpq.stateAfter hb.state⟩

/-- **An act that spares the list objects** comes to the same in both sessions. -/
theorem Act.perform_hides (hhost : host.Disregards (Value.Avoids reach h ls) b.pool)
    (hb : b.Hides reach h ls b') {x : Act ω} (hx : x.Spares (Value.Avoids reach h ls)) :
    (x.perform host b).Hides reach h ls (x.perform host b') ∧
      (x.perform host b).pool = b.pool := by
  have hside := sideBySide_hides (ω := ω) (Value.Avoids reach h ls) b.pool
  cases x with
  | step y =>
    cases y with
    | read i r =>
      rw [perform_read, perform_read, hb.pool]
      cases hi : b.pool[i]? with
      | none => exact ⟨hb, rfl⟩
      | some f =>
        have hf := List.mem_of_getElem? hi
        exact ⟨hb.run (hhost.read (hb.avoid f hf) hf r), rfl⟩
    | change i c => exact hx.elim
  | list items => exact ⟨hb.run (hside.newListRef hx), rfl⟩
  | append r v => exact ⟨⟨hb.pool, hb.avoid, hb.state.append r hx⟩, rfl⟩
  | register name c =>
    have hregistry : b'.state.registry.register name c = b.state.registry.register name c := by
      rw [hb.state.registry]
    have hs := hb.state
    exact ⟨⟨hb.pool, hb.avoid, hs.nextRef, hs.counters, hs.elements, hs.element, hs.ahead,
      hs.caches, hregistry, hs.fresh, hs.next, hs.memory, hs.gathered⟩, rfl⟩
  | create target =>
    cases target with
    | str name => exact ⟨hb.run (hside.createDialect name), rfl⟩
    | _ => exact hx.elim
  | turn memory =>
    have hs := hb.state
    exact ⟨⟨hb.pool, hb.avoid, hs.nextRef, hs.counters, hs.elements, hs.element, hs.ahead,
      hs.caches, hs.registry, hs.fresh, hs.next, rfl, hs.gathered⟩, rfl⟩
  | make _ _ _ _ | join _ _ | call _ _ => exact hx.elim

/-- **A history** comes to the same without the appends to the list objects. -/
theorem after_hides (xs : List (Act ω))
    (hxs : ∀ x ∈ xs, x.appendsTo ls = true ∨ x.Spares (Value.Avoids reach h ls))
    (hhost : host.Disregards (Value.Avoids reach h ls) b.pool) (hb : b.Hides reach h ls b') :
    (after host b xs).Hides reach h ls (after host b' (xs.filter fun x => !x.appendsTo ls)) ∧
      (after host b xs).pool = b.pool := by
  induction xs generalizing b b' with
  | nil => exact ⟨hb, rfl⟩
  | cons x xs ih =>
    obtain ⟨hx, hrest⟩ := List.forall_mem_cons.mp hxs
    cases happend : x.appendsTo ls with
    | true =>
      rw [List.filter_cons_of_neg (by simp [happend])]
      cases x with
      | append l v =>
        have hl : l ∈ ls := of_decide_eq_true happend
        have hne : ∀ r, (Value.list r).Avoids reach h ls → l ≠ r := by
          rintro r hr rfl
          exact hr.not_mem hl
        exact ih hrest hhost ⟨hb.pool, hb.avoid, hb.state.append_left hne v⟩
      | _ => cases happend
    | false =>
      rw [List.filter_cons_of_pos (by simp [happend])]
      have hspares : x.Spares (Value.Avoids reach h ls) := by
        rcases hx with hx | hx
        · rw [happend] at hx
          cases hx
        · exact hx
      obtain ⟨hnext, hpool⟩ := x.perform_hides hhost hb hspares
      rw [← hpool] at hhost
      obtain ⟨hafter, hsame⟩ := ih hrest hhost hnext
      exact ⟨hafter, hsame.trans hpool⟩

end Histories

end SqlFragments
