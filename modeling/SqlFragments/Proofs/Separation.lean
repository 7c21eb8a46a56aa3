import SqlFragments.Proofs.Deeds
import SqlFragments.Proofs.OnePass
import SqlFragments.Proofs.OutOfSight

/-!
# Lists taken in and handed out

What a fragment is made of is copied when it is built, and what it has kept is copied whenever it is
handed out. So neither the lists that were passed nor those that were handed out are its own.

* `Passed`: the ways in which a list object goes into a fragment. **`Passed.copied`**,
  **`Passed.apart`**: the fragment is made of what the list object held, and leads to it only
  through its slots.
* `Session.Onward`: nothing was dropped. **`afterDeeds_onward`**: so it is after every history.
* `Fragment.HandsOut`: a list object of values, by itself or with a compiled query.
  **`Fragment.HandsOut.owns`**: it is new, and so are the list objects in it.
* **`lists_separated`**.
-/

namespace SqlFragments

variable {ω : Type}

/-! ## Lists that are passed -/

/-- A fragment is built, and the list object goes into it: as its segments, its slots, the items to
list, what marked segments or literal pieces are made of, or the literal text of a template. -/
inductive Passed (l : ListRef) : Op ω Fragment → Prop
  | segments (slots delimiter name : Value) :
    Passed l (Fragment.make (.list l) slots delimiter name)
  | slots (segments delimiter name : Value) :
    Passed l (Fragment.make segments (.list l) delimiter name)
  | items (delimiter : Value) : Passed l (Fragment.join (.list l) delimiter)
  | marked (slots delimiter name : Value) : Passed l (literalItems (.list l) >>= fun pieces =>
      Fragment.make (.segments pieces) slots delimiter name)
  | pieces (b : Builder) (slots : List Value) :
    Passed l (literalItems (.list l) >>= fun pieces => b.call (.segments pieces :: slots))
  | template (b : Builder) (id : Nat) (slots : List Value) :
    Passed l (b.call [.template ⟨id, .list l, some slots⟩])

section Building

variable {h : Heap} {s s' : Session ω} {f : Fragment}

theorem Fragment.segmentsOf_eq_ok {v : Value} {ss : List String} (hss : segmentsOf h v = .ok ss) :
    v.sequenceItems? h = some (ss.map .str) := by
  unfold segmentsOf at hss
  split at hss
  · cases hss
  · next items hitems =>
    cases hstrings : Value.strings items with
    | ok ts =>
      rw [hstrings] at hss
      cases hss
      rw [hitems, (Value.strings_eq_ok_iff items ss).mp hstrings]
    | error e =>
      rw [hstrings] at hss
      cases hss

theorem Fragment.slotsOf_eq_ok {v : Value} {vs : List Value} (hvs : slotsOf h v = .ok vs) :
    v.sequenceItems? h = some vs := by
  unfold slotsOf at hvs
  split at hvs
  · cases hvs
  · next items hitems =>
    cases hvs
    exact hitems

/-- **What a fragment is made of** is what its arguments held. -/
theorem Fragment.parts_eq_ok {segments slots delimiter name : Value} {p : FragmentParts}
    (hp : parts h segments slots delimiter name = .ok p) :
    segments.sequenceItems? h = some (p.segments.map .str) ∧
      slots.sequenceItems? h = some p.slots := by
  obtain ⟨ss, hss, hp⟩ := bind_eq_ok_iff.mp hp
  obtain ⟨vs, hvs, hp⟩ := bind_eq_ok_iff.mp hp
  obtain ⟨d, -, hp⟩ := bind_eq_ok_iff.mp hp
  obtain ⟨n, -, hp⟩ := bind_eq_ok_iff.mp hp
  cases hp
  exact ⟨segmentsOf_eq_ok hss, slotsOf_eq_ok hvs⟩

theorem Fragment.joinParts_slots {items delimiter : Value} {p : FragmentParts}
    (hp : joinParts h items delimiter = .ok p) : items.sequenceItems? h = some p.slots := by
  unfold joinParts at hp
  split at hp
  · cases hp
  · next vs hvs =>
    obtain ⟨-, hslots⟩ := parts_eq_ok hp
    rw [hvs]
    exact hslots

theorem Fragment.ofParts_eq_ok {joined : Bool} {x : Except Failure FragmentParts}
    (hf : ofParts joined x s = .ok f s') :
    ∃ p, x = .ok p ∧ f.segments = p.segments ∧ f.slots = p.slots := by
  cases x with
  | ok p =>
    cases hf
    exact ⟨p, rfl, rfl, rfl⟩
  | error e => cases hf

theorem Fragment.make_eq_ok {segments slots delimiter name : Value}
    (hf : make segments slots delimiter name s = .ok f s') :
    segments.sequenceItems? s.heap = some (f.segments.map .str) ∧
      slots.sequenceItems? s.heap = some f.slots := by
  obtain ⟨p, hp, hsegments, hslots⟩ := ofParts_eq_ok hf
  rw [hsegments, hslots]
  exact parts_eq_ok hp

theorem iterate?_of_literalItems {v : Value} {items : List Value}
    (h : literalItems v s = .ok items s') : v.iterate? s.heap = some items := by
  rw [literalItems, Pass.get_bind] at h
  split at h
  · cases h
  · cases h
  · cases hitems : v.iterate? s.heap with
    | none =>
      rw [hitems] at h
      cases h
    | some vs =>
      rw [hitems] at h
      cases h
      rfl

theorem literalItems_copied {l : ListRef} {pieces : List Value} {s₁ s₂ : Session ω}
    {slots delimiter name : Value} (h : literalItems (.list l) s = .ok pieces s₁)
    (hf : Fragment.make (.segments pieces) slots delimiter name s₂ = .ok f s') :
    f.segments.map Value.str = s.heap.elements l := by
  obtain ⟨hsegments, -⟩ := Fragment.make_eq_ok hf
  exact (Option.some.inj hsegments).symm.trans (Option.some.inj (iterate?_of_literalItems h)).symm

theorem Builds.heap_eq {p : Op ω Fragment} (h : Builds p) (hf : p s = .ok f s') :
    s'.heap = s.heap := by
  rcases h s with ⟨g, log, hok, -⟩ | ⟨e, log, he⟩
  · rw [hf] at hok
    cases hok
    rfl
  · rw [hf] at he
    cases he

theorem literalItems_builds (v : Value) {next : List Value → Op ω Fragment}
    (hnext : ∀ pieces, Builds (next pieces)) : Builds (literalItems v >>= next) := by
  intro s
  rcases literalItems_cases v s with ⟨items, hitems⟩ | ⟨e, he⟩
  · rw [Pass.bind_ok hitems]
    exact hnext items s
  · exact .inr ⟨e, s.log, Pass.bind_error he _⟩

namespace Passed

variable {l : ListRef} {p : Op ω Fragment} (hpassed : Passed l p) (hf : p s = .ok f s')

include hpassed

theorem builds : Builds p := by
  cases hpassed with
  | segments slots delimiter name => exact Fragment.make_builds _ _ _ _
  | slots segments delimiter name => exact Fragment.make_builds _ _ _ _
  | items delimiter => exact Fragment.join_builds _ _
  | marked slots delimiter name =>
    exact literalItems_builds _ fun _ => Fragment.make_builds _ _ _ _
  | pieces b slots => exact literalItems_builds _ fun _ => b.call_builds _
  | template b id slots => exact b.call_builds _

include hf

/-- **The fragment is made of what the list object held.** -/
theorem copied : f.slots = s.heap.elements l ∨ f.segments.map Value.str = s.heap.elements l := by
  cases hpassed with
  | segments slots delimiter name =>
    obtain ⟨hsegments, -⟩ := Fragment.make_eq_ok hf
    exact .inr (Option.some.inj hsegments).symm
  | slots segments delimiter name =>
    obtain ⟨-, hslots⟩ := Fragment.make_eq_ok hf
    exact .inl (Option.some.inj hslots).symm
  | items delimiter =>
    obtain ⟨p, hp, -, hslots⟩ := Fragment.ofParts_eq_ok hf
    rw [hslots]
    exact .inl (Option.some.inj (Fragment.joinParts_slots hp)).symm
  | marked slots delimiter name =>
    obtain ⟨pieces, s₁, hpieces, hmake⟩ := Pass.bind_eq_ok hf
    exact .inr (literalItems_copied hpieces hmake)
  | pieces b slots =>
    obtain ⟨pieces, s₁, hpieces, hcall⟩ := Pass.bind_eq_ok hf
    exact .inr (literalItems_copied hpieces hcall)
  | template b id slots =>
    obtain ⟨pieces, s₁, hpieces, hmake⟩ := Pass.bind_eq_ok hf
    exact .inr (literalItems_copied hpieces hmake)

/-- **Only the slots can lead to it** once the fragment is built. -/
theorem apart {reach : Callable → ListRef → Prop} (hl : s.heap.Holds l)
    (hunused : s.caches.get? s.freshFragment = none)
    (hslots : ∀ v ∈ f.slots, v.Avoids reach s'.heap [l]) :
    Bench.Apart reach [l] ⟨[f], s'⟩ := by
  rcases hpassed.builds s with ⟨g, log, hok, hid⟩ | ⟨e, log, he⟩
  · rw [hf] at hok
    cases hok
    refine ⟨List.forall_mem_singleton.mpr hl, List.forall_mem_singleton.mpr (.of_slots hslots),
      List.forall_mem_singleton.mpr fun bs hkept => ?_⟩
    rw [← hid] at hunused
    rw [Session.cacheOf, show s.caches.get? f.id = none from hunused] at hkept
    cases hkept
  · rw [hf] at he
    cases he

end Passed

end Building

/-! ## Histories drop nothing -/

/-- Nothing that is kept was dropped, values are kept as a pass gathers them, and no list object was
taken back. -/
structure Session.Onward (s s' : Session ω) : Prop where
  kept : s.KeptIn s'
  gathered : s.Gathered → s'.Gathered
  holds : ∀ r, s.heap.Holds r → s'.heap.Holds r

theorem Session.Onward.refl (s : Session ω) : s.Onward s :=
  ⟨.of_caches rfl, id, fun _ hr => hr⟩

theorem Session.Onward.trans {s s' s'' : Session ω} (h : s.Onward s') (h' : s'.Onward s'') :
    s.Onward s'' :=
  ⟨h.kept.trans h'.kept, fun hs => h'.gathered (h.gathered hs),
    fun r hr => h'.holds r (h.holds r hr)⟩

/-- Callables that drop nothing. They may use getters. -/
def Host.Careful (host : Host ω) : Prop :=
  ∀ c f (s : Session ω), s.Onward (stateAfter (host.call c f) s)

section Careful

variable {host : Host ω} (hhost : host.Careful)

include hhost

theorem Host.Careful.dropsNothing : host.DropsNothing := fun c f s => (hhost c f s).kept

theorem Host.Careful.gathers : host.Gathers := fun c f s => (hhost c f s).gathered

theorem Host.Careful.holds (r : ListRef) : host.Maintains fun s => s.heap.Holds r := by
  have hsustains : host.Sustains fun s => s.heap.Holds r :=
    ⟨fun c f s => (hhost c f s).holds r, fun _ _ h => h, fun _ _ _ h => h,
      fun s items h => Heap.Holds.allocate h items, fun _ h => h, fun _ _ _ _ h _ => h⟩
  exact hsustains.maintains

/-- **What keeps everything that getters maintain** drops nothing. -/
theorem Host.Careful.onward {s s' : Session ω} (h : ∀ I, host.Maintains I → I s → I s') :
    s.Onward s' where
  kept := h _ (hhost.dropsNothing.maintains s) (.of_caches rfl)
  gathered := h _ hhost.gathers.maintains
  holds r := h _ (hhost.holds r)

theorem Deed.perform_onward (x : Deed ω) (b : Bench (Session ω)) :
    b.state.Onward (x.perform host b).state where
  kept := Deed.keeps (hhost.dropsNothing.maintains b.state)
    (fun _ _ hy => .of_caches (Act.perform_caches hy b)) (.of_caches rfl)
  gathered hs := Deed.keeps hhost.gathers.maintains
    (fun _ _ hy => hs.of_caches (Act.perform_caches hy b)) hs
  holds r hr := Deed.keeps (hhost.holds r)
    (fun _ _ hy => (Act.perform_frame host hy b).holds r hr) hr

/-- **A history drops nothing**, whatever is done. -/
theorem afterDeeds_onward (xs : List (Deed ω)) (b : Bench (Session ω)) :
    b.state.Onward (afterDeeds host b xs).state :=
  afterDeeds_keeps (I := fun b' => b.state.Onward b'.state)
    (fun x b' hb' => hb'.trans (x.perform_onward hhost b')) xs (.refl b.state)

end Careful

/-! ## Lists that are handed out -/

/-- A list object, or one that is directly in it. -/
def Heap.Hands (h : Heap) (r l : ListRef) : Prop := l = r ∨ .list l ∈ h.elements r

/-- The values of a fragment are handed out in a list object, by themselves or with a compiled
query. -/
def Fragment.HandsOut (host : Host ω) (f : Fragment) (s : Session ω) (r : ListRef)
    (s' : Session ω) : Prop :=
  f.values host s = .ok r s' ∨
    ∃ target q, f.compile host target s = .ok q s' ∧ q.params = .list r

theorem handOut_holds {bs : List Bound} {s s' : Session ω} {items : List Value}
    (h : handOut bs s = .ok items s') {r : ListRef} (hr : s.heap.Holds r) : s'.heap.Holds r :=
  (handOut_keeps (I := fun s => s.heap.Holds r) (fun _ items hr => hr.allocate items) bs).ok hr h

theorem handOut_new {bs : List Bound} (hbs : ∀ b ∈ bs, b.Plain) {s s' : Session ω}
    {items : List Value} (h : handOut bs s = .ok items s') :
    ∀ l, .list l ∈ items → ¬ s.heap.Holds l ∧ s'.heap.Holds l := by
  intro l hl
  induction bs generalizing s items with
  | nil =>
    cases h
    cases hl
  | cons b rest ih =>
    obtain ⟨hb, hrest⟩ := List.forall_mem_cons.mp hbs
    cases b with
    | scalar v =>
      obtain ⟨tail, s₁, htail, h⟩ := Pass.bind_eq_ok h
      cases h
      rcases List.mem_cons.mp hl with hl | hl
      · exact absurd hl.symm (hb l)
      · exact ih hrest htail hl
    | group vs =>
      rw [handOut, Pass.bind_ok (newList_eq vs s)] at h
      obtain ⟨tail, s₁, htail, h⟩ := Pass.bind_eq_ok h
      cases h
      rcases List.mem_cons.mp hl with hl | hl
      · cases hl
        exact ⟨s.heap.not_holds_nextRef, handOut_holds htail (holds_nextRef_allocate _ _)⟩
      · obtain ⟨hl₁, hl₂⟩ := ih hrest htail hl
        exact ⟨fun hr => hl₁ (hr.allocate vs), hl₂⟩

section HandingOut

variable {host : Host ω} (hhost : host.Careful) {f : Fragment} {s s' : Session ω} {r : ListRef}

include hhost

/-- **What is handed out is new**, and so is each list object directly in it. It stands for values
that are kept. -/
theorem Fragment.values_owns (hs : s.Gathered) (h : f.values host s = .ok r s') :
    ∃ bs, (s'.cacheOf f).values = some bs ∧ (∀ b ∈ bs, b.Plain) ∧ boundsIn s'.heap r = bs ∧
      ∀ l, s'.heap.Hands r l → ¬ s.heap.Holds l ∧ s'.heap.Holds l := by
  obtain ⟨bs, hkept, hplain, hread⟩ := values_ok hhost.gathers hs h
  refine ⟨bs, hkept, hplain, hread, ?_⟩
  obtain ⟨bs', s₁, hmemo, h⟩ := Pass.bind_eq_ok h
  obtain ⟨items, s₂, hout, h⟩ := Pass.bind_eq_ok h
  have honward : s.Onward s₁ := hhost.onward fun I hI hs => (hI.values f).ok hs hmemo
  have hplain' := honward.gathered hs f bs' (kept_of_memoValues hmemo)
  cases h
  intro l hl
  rcases hl with rfl | hl
  · refine ⟨fun hr => ?_, holds_nextRef_allocate _ _⟩
    exact s₂.heap.not_holds_nextRef (handOut_holds hout (honward.holds _ hr))
  · rw [Heap.elements_allocate_self] at hl
    obtain ⟨hl₁, hl₂⟩ := handOut_new hplain' hout l hl
    exact ⟨fun hr => hl₁ (honward.holds l hr), hl₂.allocate items⟩

omit hhost in
theorem Fragment.HandsOut.values (h : f.HandsOut host s r s') :
    ∃ s₁ s₂, (∀ I, host.Maintains I → I s → I s₁) ∧ f.values host s₁ = .ok r s₂ ∧
      s'.heap = s₂.heap ∧ s'.caches = s₂.caches := by
  rcases h with h | ⟨target, q, h, hq⟩
  · exact ⟨s, s', fun _ _ hs => hs, h, rfl, rfl⟩
  · obtain ⟨⟨text, params⟩, s₂, hrender, h⟩ := Pass.bind_eq_ok h
    cases h
    cases hq
    obtain ⟨name, s₃, hname, hrender⟩ := Pass.bind_eq_ok hrender
    obtain ⟨o, s₄, ho, hrender⟩ := Pass.bind_eq_ok hrender
    obtain ⟨text', s₁, htext, hrender⟩ := Pass.bind_eq_ok hrender
    obtain ⟨params', s₅, hvalues, hrender⟩ := Pass.bind_eq_ok hrender
    cases hrender
    refine ⟨s₁, s₂, fun I hI hs => ?_, hvalues, rfl, rfl⟩
    have hs₃ := (hI.textOf target).ok hs hname
    have hs₄ := (hI.createDialect target).ok hs₃ ho
    exact (hI.text f _ _).ok hs₄ htext

/-- **Values that are handed out** are kept, and come in list objects of their own. -/
theorem Fragment.HandsOut.owns (hs : s.Gathered) (h : f.HandsOut host s r s') :
    ∃ bs, (s'.cacheOf f).values = some bs ∧ (∀ b ∈ bs, b.Plain) ∧ boundsIn s'.heap r = bs ∧
      ∀ l, s'.heap.Hands r l → ¬ s.heap.Holds l ∧ s'.heap.Holds l := by
  obtain ⟨s₁, s₂, hmaintains, hvalues, hheap, hcaches⟩ := h.values
  have honward := hhost.onward hmaintains
  obtain ⟨bs, hkept, hplain, hread, hnew⟩ := values_owns hhost (honward.gathered hs) hvalues
  rw [hheap]
  refine ⟨bs, ?_, hplain, hread, fun l hl => ?_⟩
  · rw [Session.cacheOf, hcaches]
    exact hkept
  · obtain ⟨hl₁, hl₂⟩ := hnew l hl
    exact ⟨fun hr => hl₁ (honward.holds l hr), hl₂⟩

theorem Fragment.HandsOut.kept {bs : List Bound} (hs : s.Gathered)
    (hkept : (s.cacheOf f).values = some bs) (h : f.HandsOut host s r s') :
    boundsIn s'.heap r = bs := by
  obtain ⟨s₁, s₂, hmaintains, hvalues, hheap, -⟩ := h.values
  have honward := hhost.onward hmaintains
  have hmemo : f.memoValues host s₁ = .ok bs s₁ :=
    memoValues_of_kept (honward.kept.values f bs hkept)
  have hplain := hs f bs hkept
  obtain ⟨r', s₃, hvalues', -, hread⟩ := values_of_memoValues hmemo hplain
  rw [hvalues] at hvalues'
  cases hvalues'
  rw [hheap]
  exact hread s₂ (.refl s₂)

end HandingOut

/-- A list object is new and holds the values of a query. -/
structure CompiledQuery.Copies (q : CompiledQuery) (s : Session ω) (l : ListRef) (s' : Session ω) :
    Prop where
  new : ¬ s.heap.Holds l
  items : q.params.iterate? s.heap = some (s'.heap.elements l)

theorem CompiledQuery.paramsCopy_copies {q : CompiledQuery} {s s' : Session ω} {v : Value}
    (h : q.paramsCopy s = .ok v s') : ∃ l, v = .list l ∧ q.Copies s l s' := by
  rw [paramsCopy, Pass.get_bind] at h
  cases hitems : q.params.iterate? s.heap with
  | none =>
    rw [hitems] at h
    cases h
  | some items =>
    rw [hitems] at h
    cases h
    refine ⟨_, rfl, s.heap.not_holds_nextRef, ?_⟩
    rw [hitems, Heap.elements_allocate_self]

/-- **Lists taken in and handed out are not the fragment's own.** A list object that is passed is
copied, and then the fragment leads to it only if a value in its slots does. List objects that a
fragment does not lead to can grow at any time, unnoticed by everything that shows or reads it.
Values that were handed out stay what they are handed out as, whatever is done afterwards, to
whichever list object; and what is handed out later, for whichever fragment, has no list object in
common with them. The lists for a driver are new as well. -/
theorem lists_separated {host : Host ω} (f : Fragment) :
    (∀ (l : ListRef) (p : Op ω Fragment) s s', Passed l p → p s = .ok f s' →
      s'.heap = s.heap ∧
        (f.slots = s.heap.elements l ∨ f.segments.map Value.str = s.heap.elements l) ∧
        ∀ reach, s.heap.Holds l → s.caches.get? s.freshFragment = none →
          (∀ v ∈ f.slots, v.Avoids reach s'.heap [l]) → Bench.Apart reach [l] ⟨[f], s'⟩) ∧
    (∀ (reach : Callable → ListRef → Prop) (ls : List ListRef) (b : Bench (Session ω)),
      f ∈ b.pool → b.Apart reach ls →
      let known := Value.Avoids reach b.state.heap ls
      host.Disregards known b.pool →
      ∀ xs : List (Act ω), (∀ x ∈ xs, x.appendsTo ls = true ∨ x.Spares known) →
        let s := (after host b xs).state
        let t := (after host b (xs.filter fun x => !x.appendsTo ls)).state
        (Value.fragment f).shown s.heap = (Value.fragment f).shown t.heap ∧
          ∀ r : Read, r.Unaffected known host f s t) ∧
    (host.Careful → ∀ s : Session ω, s.Gathered → ∀ r s₁, f.HandsOut host s r s₁ →
      ∀ pool (xs : List (Deed ω)),
        let t := (afterDeeds host ⟨pool, s₁⟩ xs).state
        (∃ r' t', f.values host t = .ok r' t') ∧
          (∀ r' t', f.HandsOut host t r' t' → boundsIn t'.heap r' = boundsIn s₁.heap r) ∧
          ∀ (g : Fragment) r' t', g.HandsOut host t r' t' →
            ∀ l, s₁.heap.Hands r l → ¬ t'.heap.Hands r' l) ∧
    ∀ (q : CompiledQuery) (s : Session ω) v s',
      (q.asTuple s = .ok v s' → ∃ l, v = .tuple [q.sql, .list l] ∧ q.Copies s l s') ∧
        (q.asConfig s = .ok v s' → ∃ l named,
          v = .dict ((.str "text", q.sql) :: (.str "values", .list l) :: named) ∧
            q.Copies s l s') := by
  refine ⟨fun l p s s' hpassed hf => ?_, ?_, ?_, fun q s v s' => ⟨?_, ?_⟩⟩
  · exact ⟨hpassed.builds.heap_eq hf, hpassed.copied hf, fun reach => hpassed.apart hf⟩
  · intro reach ls b hf hapart known hhost xs hxs s t
    obtain ⟨hafter, hpool⟩ := after_hides xs hxs hhost hapart.hides
    refine ⟨rfl, fun r => ?_⟩
    have hstate := hafter.state
    rw [hpool] at hstate
    exact hhost.unaffected (hapart.avoid f hf) hf r hstate
  · intro hhost s hs r s₁ hout pool xs t
    obtain ⟨bs, hkept, -, hread, hnew⟩ := hout.owns hhost hs
    have hs₁ : s₁.Gathered := by
      obtain ⟨s₀, s₂, hmaintains, hvalues, -, hcaches⟩ := hout.values
      have hs₀ := (hhost.onward hmaintains).gathered hs
      exact ((hhost.gathers.maintains.handedOut f).ok hs₀ hvalues).of_caches hcaches
    have honward : s₁.Onward t := afterDeeds_onward hhost xs ⟨pool, s₁⟩
    have ht := honward.gathered hs₁
    have hkept' := honward.kept.values f bs hkept
    refine ⟨?_, fun r' t' hout' => ?_, fun g r' t' hout' l hl hl' => ?_⟩
    · have hmemo : f.memoValues host t = .ok bs t := Fragment.memoValues_of_kept hkept'
      obtain ⟨r', t', hvalues, -⟩ := Fragment.values_of_memoValues hmemo (ht f bs hkept')
      exact ⟨r', t', hvalues⟩
    · rw [hread]
      exact hout'.kept hhost ht hkept'
    · obtain ⟨-, -, -, -, hnew'⟩ := hout'.owns hhost ht
      exact (hnew' l hl').1 (honward.holds l (hnew l hl).2)
  · intro h
    obtain ⟨params, s₁, hparams, h⟩ := Pass.bind_eq_ok h
    obtain ⟨l, rfl, hcopies⟩ := CompiledQuery.paramsCopy_copies hparams
    cases h
    exact ⟨l, rfl, hcopies⟩
  · intro h
    obtain ⟨params, s₁, hparams, h⟩ := Pass.bind_eq_ok h
    obtain ⟨l, rfl, hcopies⟩ := CompiledQuery.paramsCopy_copies hparams
    cases h
    exact ⟨l, _, rfl, hcopies⟩

/-- The list object that was passed as the slots grows, with another one in the slot itself; and so
do the list of values, the group in it, and a list for a driver. -/
theorem lists_separated_in_list :
    let host : Host Unit := ⟨fun _ _ => pure .null, 4⟩
    let s₀ : Session Unit := { Session.initial () with
      heap := ⟨#[[.str "id IN ", .str ""], [.list ⟨2⟩], [.int 1, .int 2]], #[]⟩ }
    let q : CompiledQuery := ⟨16, .str "id IN ?", .list ⟨4⟩, .str "mysql", .null⟩
    ∃ (f : Fragment) (s : Session Unit),
      Fragment.make (.list ⟨0⟩) (.list ⟨1⟩) (.str "") .null s₀ = .ok f s ∧ s.heap = s₀.heap ∧
      (∀ r : Read, outcome (r.perform host f)
          (after host ⟨[f], s⟩ [.append ⟨1⟩ .null, .append ⟨1⟩ (.list ⟨0⟩)]).state =
        outcome (r.perform host f) s) ∧
      ∃ s₁ s₂, f.values host s = .ok ⟨4⟩ s₁ ∧ s₁.heap.elements ⟨4⟩ = [.list ⟨3⟩] ∧
        q.asTuple s₁ = .ok (.tuple [q.sql, .list ⟨5⟩]) s₂ ∧ ¬ s₁.heap.Holds ⟨5⟩ ∧
        let t := (afterDeeds host ⟨[f], s₁⟩ [.act (.append ⟨4⟩ .null), .act (.append ⟨3⟩ (.int 3)),
          .asTuple q, .act (.append ⟨5⟩ .null)]).state
        ∃ r' t', f.values host t = .ok r' t' ∧ boundsIn t'.heap r' = [.group [.int 1, .int 2]] ∧
          r' ≠ ⟨4⟩ ∧ r' ≠ ⟨3⟩ := by
  intro host s₀ q
  let f : Fragment := ⟨0, ["id IN ", ""], false, [.list ⟨2⟩], "", none, false⟩
  let s : Session Unit := { s₀ with freshFragment := 1 }
  obtain ⟨hpassed, hin, hout, hdriver⟩ := @lists_separated Unit host f
  obtain ⟨hheap, -, hapart⟩ := hpassed ⟨1⟩ _ s₀ s (.slots (.list ⟨0⟩) (.str "") .null) rfl
  refine ⟨f, s, rfl, hheap, fun r => ?_, _, _, rfl, rfl, rfl, ?_, ?_⟩
  · have hslots : ∀ v ∈ f.slots, v.Avoids (fun _ _ => False) s.heap [⟨1⟩] := by
      -- the only list object that the slot leads to holds two numbers
      intro v hv l hl hleads
      cases List.mem_singleton.mp hv
      cases hleads with
      | self => exact absurd hl (by decide)
      | element hw hleads =>
        rcases List.mem_pair.mp hw with rfl | rfl <;> cases hleads with | callable hc => cases hc
      | callable hc => cases hc
    have hheld : s₀.heap.Holds ⟨1⟩ := by
      change 1 < 3
      decide
    have hhost : host.Disregards (Value.Avoids (fun _ _ => False) s.heap [⟨1⟩]) [f] :=
      fun c g _ _ => .pure ⟨rfl, fun l _ hleads => by cases hleads with | callable hc => cases hc⟩
    obtain ⟨-, hsame⟩ := hin _ _ _ List.mem_cons_self (hapart _ hheld rfl hslots) hhost
      [.append ⟨1⟩ .null, .append ⟨1⟩ (.list ⟨0⟩)] fun x hx => by
        rcases List.mem_pair.mp hx with rfl | rfl <;> exact .inl rfl
    exact (hsame r).outcome
  · obtain ⟨l, htuple, hcopies⟩ := (hdriver q _ _ _).1 rfl
    cases htuple
    exact hcopies.new
  · have hcareful : host.Careful := fun c g s => .refl s
    have hgathered : s.Gathered := (Session.gathered_initial ()).of_caches rfl
    obtain ⟨⟨r', t', hvalues⟩, hsame, hdisjoint⟩ := hout hcareful s hgathered ⟨4⟩ _ (.inl rfl) [f]
      [.act (.append ⟨4⟩ .null), .act (.append ⟨3⟩ (.int 3)), .asTuple q, .act (.append ⟨5⟩ .null)]
    have hnew := hdisjoint f r' t' (.inl hvalues)
    refine ⟨r', t', hvalues, hsame r' t' (.inl hvalues), fun heq => ?_, fun heq => ?_⟩
    · exact hnew ⟨4⟩ (.inl rfl) (.inl heq.symm)
    · exact hnew ⟨3⟩ (.inr List.mem_cons_self) (.inl heq.symm)

end SqlFragments
