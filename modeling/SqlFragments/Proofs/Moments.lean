import SqlFragments.Proofs.OnePass
import SqlFragments.Proofs.Present

/-!
# Moments of a history

A getter keeps what it got. So what is kept for a fragment is what the fragment rendered to at one
moment of the history: when it was asked for first. The text and the values of one compiled query
may be of two moments.

* `Bench.Orderly`: fragments are told apart by their identities, and objects of dialects are of the
  registered classes. **`after_orderly`**: so it is in every history.
* `KeptSince`: something was kept at one moment, and has been kept ever since.
  **`text_keptSince`**, **`values_keptSince`**: there is such a moment for whatever is kept.
* **`Read.compile_moments`**: the two moments of a compiled query.
* `Session.Untouched`: the list objects that a fragment can come across are not appended to.
  **`Session.Untouched.pieces_eq`**, **`Session.Untouched.flatten_eq`**: then it renders to what it
  did.
-/

namespace SqlFragments

variable {ω α : Type}

/-! ## Orderly histories -/

/-- A new session, with no fragments yet. -/
def Bench.initial (memory : ω) : Bench (Session ω) := ⟨[], .initial memory⟩

/-- Fragments are told apart by their identities, and objects of dialects are of the registered
classes. -/
structure Bench.Orderly (b : Bench (Session ω)) : Prop where
  identity : ∀ f ∈ b.pool, ∀ g ∈ b.pool, f.id = g.id → f = g
  below : ∀ f ∈ b.pool, f.id < b.state.freshFragment
  registry : b.state.registry.Sound

theorem Bench.orderly_initial (memory : ω) :
    (Bench.initial memory).Orderly := by
  refine ⟨?_, ?_, .initial⟩
  · intro f hf
    cases hf
  · intro f hf
    cases hf

section Histories

variable {host : Host ω} {answer : Callable → Fragment → Except Failure Value}
  (hhost : host.Obeys answer) {b : Bench (Session ω)}

include hhost

/-- **An act leaves everything else as it is**, and so does a read. -/
theorem Act.frame_of_obeys (x : Act ω) (b : Bench (Session ω)) : x.Frame b (x.perform host b) := by
  cases hx : x.isRead with
  | false => exact perform_frame host hx b
  | true =>
    match x, hx with
    | .step (.read i r), _ =>
      rw [perform_read]
      cases b.pool[i]? with
      | none => exact .of_extends (.refl _)
      | some f => exact .of_extends ((hhost.sustains_extends b.state).read f r b.state (.refl _))

/-- **An act keeps** nothing but what a fragment renders to at present. -/
theorem Act.perform_renders (hb : b.state.registry.Sound) (x : Act ω) :
    (x.perform host b).state.caches = b.state.caches ∨
      ∃ g ∈ b.pool, b.state.Renders (b.state.rendering answer host.depth) g
        (x.perform host b).state := by
  cases hx : x.isRead with
  | false => exact .inl (perform_caches hx b)
  | true =>
    match x, hx with
    | .step (.read i r), _ =>
      rw [perform_read]
      cases hi : b.pool[i]? with
      | none => exact .inl rfl
      | some f => exact .inr ⟨f, List.mem_of_getElem? hi, r.perform_renders hhost f hb⟩

theorem Act.perform_sound (hb : b.state.registry.Sound) (x : Act ω) :
    (x.perform host b).state.registry.Sound := by
  let I : Session ω → Prop := fun s => s.registry.Sound
  have hcreate : ∀ s name o registry, I s → s.registry.create s.fresh name = .ok (o, registry) →
      I { s with registry := registry, fresh := s.fresh + 1 } :=
    fun _ _ _ _ hs h => Registry.Sound.create hs h
  have hsteady : ∀ s s' : Session ω, s.Steady s' → I s → I s' := by
    intro s s' h hs
    change s'.registry.Sound
    rwa [h.registry]
  have hsustains : host.Sustains I :=
    ⟨hhost.keeps hsteady, fun _ _ hs => hs, fun _ _ _ hs => hs, fun _ _ hs => hs,
      fun _ hs => hs, hcreate⟩
  refine Act.keeps (I := I) (fun f r => hsustains.read f r) (fun hx => ?_) hb
  exact keeps_of_other hx (fun _ _ _ hs => hs) (fun _ _ hs => hs) (fun _ _ hs => hs)
    (fun _ name c _ hs => Registry.Sound.register hs name c) hcreate hb

theorem Bench.Orderly.perform (hb : b.Orderly) (x : Act ω) : (x.perform host b).Orderly := by
  have hframe := x.frame_of_obeys hhost b
  have hregistry := x.perform_sound hhost hb.registry
  rcases hframe.pool with hpool | ⟨g, hpool, hg⟩
  · refine ⟨?_, ?_, hregistry⟩
    · rw [hpool]
      exact hb.identity
    · rw [hpool]
      exact fun f hf => Nat.lt_of_lt_of_le (hb.below f hf) hframe.next
  · have hmem : ∀ f ∈ (x.perform host b).pool, f ∈ b.pool ∨ f = g := by
      intro f hf
      rw [hpool] at hf
      exact (List.mem_append.mp hf).imp_right List.mem_singleton.mp
    have hnew : ∀ f ∈ b.pool, f.id = g.id → f = g := by
      intro f hf hid
      rcases hg with hg | ⟨hfresh, -⟩
      · exact hb.identity f hf g hg hid
      · have hlt := hb.below f hf
        omega
    refine ⟨?_, ?_, hregistry⟩
    · intro f hf f' hf' hid
      rcases hmem f hf with hf | rfl <;> rcases hmem f' hf' with hf' | rfl
      · exact hb.identity f hf f' hf' hid
      · exact hnew f hf hid
      · exact (hnew f' hf' hid.symm).symm
      · rfl
    · intro f hf
      have hnext := hframe.next
      rcases hmem f hf with hf | rfl
      · exact Nat.lt_of_lt_of_le (hb.below f hf) hnext
      · rcases hg with hg | ⟨-, hlt⟩
        · exact Nat.lt_of_lt_of_le (hb.below f hg) hnext
        · exact hlt

/-- **Every history is orderly.** -/
theorem after_orderly (hb : b.Orderly) (xs : List (Act ω)) : (after host b xs).Orderly := by
  induction xs generalizing b with
  | nil => exact hb
  | cons x xs ih => exact ih (hb.perform hhost x)

theorem after_pool (xs : List (Act ω)) : b.pool ⊆ (after host b xs).pool := by
  induction xs generalizing b with
  | nil => exact fun _ hf => hf
  | cons x xs ih =>
    refine List.Subset.trans ?_ ih
    rcases (x.frame_of_obeys hhost b).pool with hpool | ⟨g, hpool, -⟩
    · rw [hpool]
      exact fun _ hf => hf
    · rw [hpool]
      exact List.subset_append_left _ _

theorem after_class? {t : String} {xs : List (Act ω)} (hxs : ∀ c, .register t c ∉ xs) :
    (after host b xs).state.registry.class? t = b.state.registry.class? t := by
  induction xs generalizing b with
  | nil => rfl
  | cons x xs ih =>
    refine (ih fun c hc => hxs c (List.mem_cons_of_mem x hc)).trans ?_
    refine (x.frame_of_obeys hhost b).classes t fun c hc => ?_
    rw [hc] at hxs
    exact hxs c List.mem_cons_self

theorem after_elements {r : ListRef} {xs : List (Act ω)} (hxs : ∀ v, .append r v ∉ xs)
    (hr : b.state.heap.Holds r) :
    (after host b xs).state.heap.elements r = b.state.heap.elements r := by
  induction xs generalizing b with
  | nil => rfl
  | cons x xs ih =>
    have hframe := x.frame_of_obeys hhost b
    refine (ih (fun v hv => hxs v (List.mem_cons_of_mem x hv)) (hframe.holds r hr)).trans ?_
    refine hframe.lists r (fun v hv => ?_) hr
    rw [hv] at hxs
    exact hxs v List.mem_cons_self

end Histories

/-! ## Moments -/

/-- What becomes so in a history becomes so with one of its acts. -/
theorem after_first {host : Host ω} {P : Bench (Session ω) → Prop} {b : Bench (Session ω)}
    {xs : List (Act ω)} (hb : ¬ P b) (h : P (after host b xs)) :
    ∃ ys x zs, xs = ys ++ x :: zs ∧ ¬ P (after host b ys) ∧
      P (x.perform host (after host b ys)) := by
  induction xs generalizing b with
  | nil => exact absurd h hb
  | cons x xs ih =>
    by_cases hx : P (x.perform host b)
    · exact ⟨[], x, xs, rfl, hb, hx⟩
    · obtain ⟨ys, y, zs, rfl, hys, hy⟩ := ih hx h
      exact ⟨x :: ys, y, zs, rfl, hys, hy⟩

/-- After `ys` nothing was kept yet; since the next act, `a` is kept. -/
structure KeptSince (host : Host ω) (b : Bench (Session ω)) (kept : Session ω → Option α)
    (ys zs : List (Act ω)) (a : α) : Prop where
  absent : kept (after host b ys).state = none
  since : ∀ ws vs, zs = ws ++ vs → ws ≠ [] → kept (after host b (ys ++ ws)).state = some a

theorem KeptSince.of_concat {host : Host ω} {b : Bench (Session ω)} {kept : Session ω → Option α}
    {xs ys zs : List (Act ω)} {x : Act ω} {a : α} (h : KeptSince host b kept ys zs a)
    (hxs : xs ++ [x] = ys ++ zs) (hkept : kept (after host b (xs ++ [x])).state = some a) :
    ∃ zs', xs = ys ++ zs' ∧ KeptSince host b kept ys zs' a := by
  rcases List.eq_nil_or_concat zs with rfl | ⟨zs', y, rfl⟩
  · have habsent := h.absent
    rw [List.append_nil] at hxs
    rw [← hxs, hkept] at habsent
    cases habsent
  · rw [List.concat_eq_append, ← List.append_assoc] at hxs
    obtain ⟨rfl, -⟩ := List.append_inj' hxs rfl
    refine ⟨zs', rfl, h.absent, fun ws vs hzs hws => h.since ws (vs ++ [y]) ?_ hws⟩
    rw [List.concat_eq_append, hzs, List.append_assoc]

theorem KeptSince.eq_of_absent {host : Host ω} {b : Bench (Session ω)}
    {kept : Session ω → Option α} {ys zs : List (Act ω)} {a : α} (h : KeptSince host b kept ys zs a)
    (hnone : kept (after host b (ys ++ zs)).state = none) : ys = ys ++ zs := by
  cases zs with
  | nil => exact (List.append_nil ys).symm
  | cons z zs =>
    have hkept := h.since (z :: zs) [] (List.append_nil _).symm (List.cons_ne_nil z zs)
    exact absurd (hkept.symm.trans hnone) (Option.some_ne_none a)

section Kept

variable {host : Host ω} {answer : Callable → Fragment → Except Failure Value}
  (hhost : host.Obeys answer) {b : Bench (Session ω)} (hb : b.Orderly) {xs : List (Act ω)}
  {f : Fragment} (hf : f ∈ (after host b xs).pool)

include hhost hb hf

/-- Whatever is kept for a fragment was made by it at one moment, and kept since. -/
theorem keptSince_of_kept {kept : Session ω → Option α} {M : Rendering → Fragment → α → Prop}
    (hstays : ∀ {s s' : Session ω}, s.KeptIn s' → ∀ a, kept s = some a → kept s' = some a)
    (hmade : ∀ {s s' : Session ω} {U g}, s.Renders U g s' → ∀ a, kept s' = some a →
      kept s = some a ∨ g.id = f.id ∧ M U g a)
    (hnone : kept b.state = none) {a : α} (h : kept (after host b xs).state = some a) :
    ∃ ys zs, xs = ys ++ zs ∧ KeptSince host b kept ys zs a ∧
      M ((after host b ys).state.rendering answer host.depth) f a := by
  have hb₀ : ¬ kept b.state = some a := by
    rw [hnone]
    exact (Option.some_ne_none a).symm
  obtain ⟨ys, x, zs, rfl, hys, hx⟩ := after_first (P := fun c => kept c.state = some a) hb₀ h
  have hlater : ∀ ws, after host b (ys ++ x :: ws) =
      after host (x.perform host (after host b ys)) ws := fun ws => after_append host b ys (x :: ws)
  have hsince : ∀ ws, kept (after host b (ys ++ x :: ws)).state = some a := by
    intro ws
    rw [hlater]
    exact hstays (after_keptIn hhost.leavesCaches.dropsNothing ws _) a hx
  refine ⟨ys, x :: zs, rfl, ⟨?_, ?_⟩, ?_⟩
  · cases hbefore : kept (after host b ys).state with
    | none => rfl
    | some a' =>
      have hkept :=
        hstays (x.perform_keptIn hhost.leavesCaches.dropsNothing (after host b ys)) a' hbefore
      rw [hx] at hkept
      rw [hkept] at hys
      exact absurd hbefore hys
  · rintro ws vs hzs hws
    obtain ⟨y, ws', rfl⟩ := List.exists_cons_of_ne_nil hws
    cases hzs
    exact hsince ws'
  · rcases x.perform_renders hhost (after_orderly hhost hb ys).registry with
      hcaches | ⟨g, hg, hrenders⟩
    · exact absurd (hstays (.of_caches hcaches.symm) a hx) hys
    · rcases hmade hrenders a hx with hkept | ⟨hid, hnew⟩
      · exact absurd hkept hys
      · have hpool : g ∈ (after host b (ys ++ x :: zs)).pool := by
          rw [after_append]
          exact after_pool hhost (x :: zs) hg
        have hsame := (after_orderly hhost hb _).identity g hpool f hf hid
        rwa [hsame] at hnew

/-- **A text that is kept** was rendered at one moment. -/
theorem text_keptSince {key : TextKey} (hnone : (b.state.cacheOf f).texts.get? key = none)
    {text : String} (h : ((after host b xs).state.cacheOf f).texts.get? key = some text) :
    ∃ ys zs, xs = ys ++ zs ∧
      KeptSince host b (fun s => (s.cacheOf f).texts.get? key) ys zs text ∧
      ∃ d, ((after host b ys).state.rendering answer host.depth).dialectOf key = .ok d ∧
        ((after host b ys).state.rendering answer host.depth).flatten d f = .ok text :=
  keptSince_of_kept hhost hb hf
    (M := fun U g text => ∃ d, U.dialectOf key = .ok d ∧ U.flatten d g = .ok text)
    (fun hkept text h => hkept.texts f key text h)
    (fun hrenders text h => hrenders.texts f key text h) hnone h

/-- **Values that are kept** were collected at one moment. -/
theorem values_keptSince (hnone : (b.state.cacheOf f).values = none) {bs : List Bound}
    (h : ((after host b xs).state.cacheOf f).values = some bs) :
    ∃ ys zs, xs = ys ++ zs ∧ KeptSince host b (fun s => (s.cacheOf f).values) ys zs bs ∧
      ((after host b ys).state.rendering answer host.depth).collect f = .ok bs :=
  keptSince_of_kept hhost hb hf (M := fun U g bs => U.collect g = .ok bs)
    (fun hkept bs h => hkept.values f bs h) (fun hrenders bs h => hrenders.values f bs h) hnone h

end Kept

/-! ## Compiled queries -/

theorem Host.Obeys.keepsTarget {host : Host ω}
    {answer : Callable → Fragment → Except Failure Value} (hhost : host.Obeys answer) (t : String) :
    host.KeepsTarget t := by
  intro c f o
  refine hhost.keeps (fun s s' h hs => ?_) c f
  rwa [h.registry]

theorem after_read {host : Host ω} {b : Bench (Session ω)} {xs : List (Act ω)} {i : Nat}
    {f : Fragment} {r : Read} {a : Answer} {s' : Session ω}
    (hi : (after host b xs).pool[i]? = some f)
    (h : r.perform host f (after host b xs).state = .ok a s') :
    after host b (xs ++ [.step (.read i r)]) = ⟨(after host b xs).pool, s'⟩ := by
  rw [after_concat, Act.perform_read, hi]
  exact congrArg (Bench.mk _) (stateAfter_ok h)

theorem Read.compile_ok {host : Host ω} {answer : Callable → Fragment → Except Failure Value}
    (hhost : host.Obeys answer) {memory : ω} (xs : List (Act ω)) {f : Fragment} {t text : String}
    {d : Dialect} {bs : List Bound} :
    let s := (after host (.initial memory) xs).state
    (s.rendering answer host.depth).dialectFor t = .ok d →
    ((s.cacheOf f).texts.get? (.target t) = some text ∨
      (s.cacheOf f).texts.get? (.target t) = none ∧
        (s.rendering answer host.depth).flatten d f = .ok text) →
    ((s.cacheOf f).values = some bs ∨
      (s.cacheOf f).values = none ∧ (s.rendering answer host.depth).collect f = .ok bs) →
    ∃ s', (compile t).perform host f s =
      .ok (.query (.str text) bs (.str t) (.ofName f.name)) s' := by
  intro s hd htext hvalues
  have hregistry : s.registry.Sound :=
    (after_orderly hhost (Bench.orderly_initial memory) xs).registry
  have hs : s.Gathered :=
    after_gathered hhost.leavesCaches.gathers xs (Session.gathered_initial memory)
  have hplain : ∀ b ∈ bs, b.Plain := by
    rcases hvalues with hkept | ⟨-, hcollect⟩
    · exact hs f bs hkept
    · exact Reading.collect_plain hcollect
  obtain ⟨o, s₁, hcreate, rfl⟩ := createDialect_of_dialectFor hregistry hd
  obtain ⟨hcaches, -⟩ := createDialect_ok hcreate
  have hcache : s₁.cacheOf f = s.cacheOf f := by
    rw [Session.cacheOf, Session.cacheOf, hcaches]
  have hreading := createDialect_reading hcreate answer
  have htext₁ : (s₁.cacheOf f).texts.get? (.target t) = some text ∨
      (s₁.cacheOf f).texts.get? (.target t) = none ∧
        (s₁.rendering answer host.depth).flatten o.dialect f = .ok text := by
    rw [hcache]
    change _ ∨ _ ∧ (s₁.reading answer).flatten host.depth o.dialect f = .ok text
    rw [hreading]
    exact htext
  obtain ⟨s₂, hmemo, hreading₂, hcache₂⟩ := Fragment.memoText_ok hhost htext₁
  have hvalues₂ : (s₂.cacheOf f).values = some bs ∨
      (s₂.cacheOf f).values = none ∧ (s₂.rendering answer host.depth).collect f = .ok bs := by
    rw [hcache₂, hcache]
    change _ ∨ _ ∧ (s₂.reading answer).collect host.depth f = .ok bs
    rw [hreading₂, hreading]
    exact hvalues
  obtain ⟨s₃, hmemo₃⟩ := Fragment.memoValues_ok hhost hvalues₂
  obtain ⟨l, s₄, hlist, -, hread⟩ := Fragment.values_of_memoValues hmemo₃ hplain
  refine ⟨{ s₄ with fresh := s₄.fresh + 1 }, ?_⟩
  rw [perform_compile, Pass.bind_ok hcreate, Pass.bind_ok hmemo, Pass.bind_ok hlist,
    ← hread s₄ (.refl s₄)]
  rfl

section Compile

variable {host : Host ω} {answer : Callable → Fragment → Except Failure Value}
  (hhost : host.Obeys answer) {memory : ω} {xs : List (Act ω)} {f : Fragment} {t : String}
  {a : Answer} {s' : Session ω} (hf : f ∈ (after host (.initial memory) xs).pool)
  (h : (Read.compile t).perform host f (after host (.initial memory) xs).state = .ok a s')

include hhost hf h

theorem Read.compile_kept : ∃ i text bs, a = .query (.str text) bs (.str t) (.ofName f.name) ∧
    after host (.initial memory) (xs ++ [.step (.read i (.compile t))]) =
      ⟨(after host (.initial memory) xs).pool, s'⟩ ∧
    (s'.cacheOf f).texts.get? (.target t) = some text ∧ (s'.cacheOf f).values = some bs := by
  obtain ⟨i, hi⟩ := List.mem_iff_getElem?.mp hf
  have hgathered := after_gathered hhost.leavesCaches.gathers (b := .initial memory) xs
    (Session.gathered_initial memory)
  have htarget : (Read.compile t).TargetStays host [] :=
    ⟨hhost.keepsTarget t, fun c hc => by cases hc⟩
  obtain ⟨o, text, bs, ha, -, htext, hvalues, -⟩ :=
    Read.settledIn_of_ok hhost.leavesCaches hgathered htarget h
  exact ⟨i, text, bs, ha, after_read hi h, htext, hvalues⟩

/-- **A compiled query** has a text and values. Each of them was made at one moment. -/
theorem Read.compile_moments :
    ∃ text bs, a = .query (.str text) bs (.str t) (.ofName f.name) ∧
      (∃ ys zs d, xs = ys ++ zs ∧ KeptSince host (.initial memory)
          (fun s => (s.cacheOf f).texts.get? (.target t)) ys zs text ∧
        let U := (after host (.initial memory) ys).state.rendering answer host.depth
        U.dialectFor t = .ok d ∧ U.flatten d f = .ok text) ∧
      ∃ ys zs, xs = ys ++ zs ∧
        KeptSince host (.initial memory) (fun s => (s.cacheOf f).values) ys zs bs ∧
        ((after host (.initial memory) ys).state.rendering answer host.depth).collect f =
          .ok bs := by
  obtain ⟨i, text, bs, ha, hafter, htext, hvalues⟩ := Read.compile_kept hhost hf h
  have hf' : f ∈ (after host (.initial memory) (xs ++ [.step (.read i (.compile t))])).pool := by
    rw [hafter]
    exact hf
  have hstate : (after host (.initial memory) (xs ++ [.step (.read i (.compile t))])).state = s' :=
    congrArg Bench.state hafter
  have horderly := Bench.orderly_initial memory
  rw [← hstate] at htext hvalues
  refine ⟨text, bs, ha, ?_, ?_⟩
  · obtain ⟨ys, zs, hxs, hsince, d, hd, hflatten⟩ := text_keptSince hhost horderly hf' rfl htext
    obtain ⟨zs', hxs', hsince'⟩ := hsince.of_concat hxs htext
    exact ⟨ys, zs', d, hxs', hsince', hd, hflatten⟩
  · obtain ⟨ys, zs, hxs, hsince, hcollect⟩ := values_keptSince hhost horderly hf' rfl hvalues
    obtain ⟨zs', hxs', hsince'⟩ := hsince.of_concat hxs hvalues
    exact ⟨ys, zs', hxs', hsince', hcollect⟩

/-- **Once a fragment is compiled** for a target, it compiles to the same, whatever the target is
registered for. -/
theorem Read.compile_again (vs : List (Act ω)) {d : Dialect}
    (hd : ((after host ⟨(after host (.initial memory) xs).pool, s'⟩ vs).state.rendering answer
      host.depth).dialectFor t = .ok d) :
    ∃ s'', (Read.compile t).perform host f
      (after host ⟨(after host (.initial memory) xs).pool, s'⟩ vs).state = .ok a s'' := by
  obtain ⟨i, text, bs, rfl, hafter, htext, hvalues⟩ := Read.compile_kept hhost hf h
  have hkept := after_keptIn hhost.leavesCaches.dropsNothing vs
    ⟨(after host (.initial memory) xs).pool, s'⟩
  rw [← hafter, ← after_append] at hd hkept ⊢
  refine Read.compile_ok hhost _ hd (.inl (hkept.texts f _ text ?_)) (.inl (hkept.values f bs ?_))
  · rwa [hafter]
  · rwa [hafter]

end Compile

/-! ## List objects that stay -/

section Untouched

theorem Reading.agrees_follows {A B : Reading} (hanswer : B.answer = A.answer)
    {known : Value → Prop} (h : ∀ r, known (.list r) → B.elements r = A.elements r) (depth : Nat) :
    (B.environment depth).Follows A (fun _ => True) known where
  elements _ r _ hr := h r hr
  call s c f _ _ _ := ⟨_, s, trivial, .standsFor _, by rw [← hanswer]; rfl⟩

variable {A B : Reading} {f : Fragment} (hanswer : B.answer = A.answer)
  (h : ∀ r, A.Reaches [f] (.list r) → B.elements r = A.elements r) (n : Nat)

include hanswer h

theorem Reading.pieces_congr : B.pieces n f = A.pieces n f :=
  ((agrees_follows hanswer h n).pieces (A.closed_reaches [f])
    (.member (List.mem_singleton.mpr rfl))).outcome_eq trivial

theorem Reading.flatten_congr (d : Dialect) : B.flatten n d f = A.flatten n d f :=
  ((agrees_follows hanswer h n).statement (A.closed_reaches [f])
    (.member (List.mem_singleton.mpr rfl)) d).outcome_eq trivial

end Untouched

/-- The list objects that rendering `f` can come across are there, and none is appended to. -/
def Session.Untouched (s : Session ω) (answer : Callable → Fragment → Except Failure Value)
    (f : Fragment) (xs : List (Act ω)) : Prop :=
  ∀ r, (s.reading answer).Reaches [f] (.list r) → s.heap.Holds r ∧ ∀ v, .append r v ∉ xs

namespace Session.Untouched

variable {host : Host ω} {answer : Callable → Fragment → Except Failure Value}
  (hhost : host.Obeys answer) {b : Bench (Session ω)} {f : Fragment} {xs : List (Act ω)}
  (h : b.state.Untouched answer f xs) (n : Nat)

include hhost h

theorem elements (r : ListRef) (hr : (b.state.reading answer).Reaches [f] (.list r)) :
    ((after host b xs).state.reading answer).elements r = (b.state.reading answer).elements r :=
  after_elements hhost (h r hr).2 (h r hr).1

/-- **The pieces stay** as long as no list object is appended to that matters. -/
theorem pieces_eq :
    ((after host b xs).state.reading answer).pieces n f = (b.state.reading answer).pieces n f :=
  Reading.pieces_congr (A := b.state.reading answer)
    (B := (after host b xs).state.reading answer) rfl (h.elements hhost) n

/-- **The text stays** as long as no list object is appended to that matters. -/
theorem flatten_eq (d : Dialect) :
    ((after host b xs).state.reading answer).flatten n d f =
      (b.state.reading answer).flatten n d f :=
  Reading.flatten_congr (A := b.state.reading answer)
    (B := (after host b xs).state.reading answer) rfl (h.elements hhost) n d

end Session.Untouched

end SqlFragments
