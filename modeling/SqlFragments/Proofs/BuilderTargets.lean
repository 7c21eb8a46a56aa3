import SqlFragments.Proofs.Composition
import SqlFragments.Proofs.Outcomes
import SqlFragments.Proofs.Raising
import SqlFragments.Proofs.Separation
import SqlFragments.Proofs.Targets

/-!
# The target of a builder

A builder looks its target up once, when it is made, and then relies on it. That is enough: names
are registered again and their objects forgotten, but no name is ever taken back.

* **`Catalogue.mem_targets_run`**, **`afterDeeds_keeps_targets`**: a registered name stays
  registered, over a run of the registry and over a history.
* `createDialect_unregistered`: how a target that is not registered is refused.
* **`Builder.make_ok`**, **`Builder.make_error`**: what making a builder does to the registry.
* `Fragment.compile_steps`: the steps of a compile that succeeds.
  **`Fragment.compile_unsupported`**: which failure of a compile for a registered target is about a
  target. **`Fragment.compile_again`**: a fragment that was compiled compiles to the same.
* `Builder.Made`: a builder that every session knows, or one that is made.
* **`builders_keep_their_target`**.
* **`builder_target_failures_differ`**: a failure about a target need not be the builder's, and a
  builder need not refuse its target as unsupported.
-/

namespace SqlFragments

variable {ω : Type}

/-! ## Registered names -/

/-- **A registered name stays registered**, for this class or another. -/
theorem Catalogue.mem_targets_run {k : Catalogue} {name : String} (h : name ∈ k.registry.targets)
    (ms : List Move) : name ∈ (k.run ms).registry.targets := by
  rw [Registry.mem_targets_iff] at h ⊢
  rw [class?_run]
  cases (ms.filterMap (Move.classFor name)).getLast? with
  | none => exact h
  | some c => rfl

theorem afterDeeds_keeps_targets {host : Host ω} {theirs : String → Prop}
    (hhost : host.UsesRegistry theirs) (xs : List (Deed ω)) {b : Bench (Session ω)} {name : String}
    (h : name ∈ b.state.registry.targets) :
    name ∈ (afterDeeds host b xs).state.registry.targets := by
  obtain ⟨ms, hms, -⟩ := afterDeeds_moves hhost xs b
  have hrun : (afterDeeds host b xs).state.registry = (b.state.catalogue.run ms).registry :=
    congrArg Catalogue.registry hms
  rw [hrun]
  exact Catalogue.mem_targets_run h ms

theorem createDialect_unregistered {s : Session ω} (hs : s.catalogue.Coherent) {v : Value}
    (hv : ∀ t, v = .str t → t ∉ s.registry.targets) :
    createDialect v s = .error (if v.isHashable then
      .unsupportedTarget v (v.shown s.heap) s.registry.targets else .notHashable v) s := by
  cases hhashable : v.isHashable with
  | false =>
    rw [createDialect, Pass.get_bind, hhashable]
    rfl
  | true =>
    cases v with
    | str t =>
      have hnone : s.registry.class? t = none := by
        have ht := hv t rfl
        rwa [Registry.mem_targets_iff, Option.not_isSome_iff_eq_none] at ht
      have hclass := createDialect_class hs t
      rw [hnone] at hclass
      exact hclass
    | _ =>
      rw [createDialect, Pass.get_bind, hhashable]
      rfl

/-! ## Making a builder -/

namespace Builder

/-- A builder for a profile that is there. -/
def ofProfile (p : Profile) : Op ω Builder := do
  let _ ← createDialect p.target
  let id ← freshId
  pure ⟨id, p⟩

theorem make_eq (v : Value) (s : Session ω) :
    (∃ (p : Profile) (s₁ : Session ω), s₁.registry = s.registry ∧ make v s = ofProfile p s₁) ∨
    make v s = .error (.noAttribute v Profile.targetField) s := by
  by_cases hv : v.isFalsy s.heap = true
  · refine .inl ⟨⟨s.fresh, Profile.defaultJoinDelimiter, Profile.defaultTarget⟩,
      { s with fresh := s.fresh + 1 }, rfl, ?_⟩
    rw [make, Pass.get_bind, if_pos hv]
    rfl
  · cases v with
    | profile p => exact .inl ⟨p, s, rfl, rfl⟩
    | _ =>
      refine .inr ?_
      rw [make, Pass.get_bind, if_neg hv]
      rfl

/-- **A builder that is made** had its target looked up. Nothing else was done to the registry. -/
theorem make_ok {v : Value} {s s' : Session ω} {c : Builder} (h : make v s = .ok c s') :
    ∃ (s₁ : Session ω) (o : DialectObject) (s₂ : Session ω), s₁.registry = s.registry ∧
      createDialect c.profile.target s₁ = .ok o s₂ ∧ s'.registry = s₂.registry := by
  rcases make_eq v s with ⟨p, s₁, hs₁, hmake⟩ | hmake
  · rw [hmake] at h
    obtain ⟨o, s₂, hcreate, hid⟩ := Pass.bind_eq_ok h
    cases hid
    exact ⟨s₁, o, s₂, hs₁, hcreate, rfl⟩
  · rw [hmake] at h
    cases h

/-- **A builder that cannot be made** leaves the registry as it is. -/
theorem make_error {v : Value} {s s' : Session ω} {e : Failure} (h : make v s = .error e s') :
    s'.registry = s.registry := by
  rcases make_eq v s with ⟨p, s₁, hs₁, hmake⟩ | hmake
  · rw [hmake] at h
    cases hcreate : createDialect p.target s₁ with
    | ok o s₂ =>
      have hok : ofProfile p s₁ = .ok ⟨s₂.fresh, p⟩ { s₂ with fresh := s₂.fresh + 1 } :=
        Pass.bind_ok hcreate _
      rw [hok] at h
      cases h
    | error e' s₂ =>
      have herror : ofProfile p s₁ = .error e' s₂ := Pass.bind_error hcreate _
      rw [herror] at h
      cases h
      rw [createDialect_error hcreate, hs₁]
  · rw [hmake] at h
    cases h
    rfl

theorem make_unregistered {s : Session ω} (hs : s.catalogue.Coherent) {p : Profile}
    (hp : ∀ t, p.target = .str t → t ∉ s.registry.targets) :
    make (.profile p) s = .error (if p.target.isHashable then
      .unsupportedTarget p.target (p.target.shown s.heap) s.registry.targets
      else .notHashable p.target) s :=
  Pass.bind_error (createDialect_unregistered hs hp) _

theorem compile_falsy {c : Builder} {v : Value} {s : Session ω} (hv : v.isFalsy s.heap = true)
    (host : Host ω) (f : Fragment) :
    c.compile host (.fragment f) v s = f.compile host c.profile.target s := by
  rw [compile, Pass.get_bind]
  dsimp only
  rw [if_pos hv]

end Builder

/-! ## Compiling for a registered target -/

section Compile

variable {host : Host ω} {f : Fragment} {t : String} {s s' : Session ω}

theorem Fragment.compile_str (host : Host ω) (f : Fragment) (t : String) :
    f.compile host (.str t) =
      (createDialect (.str t) >>= fun o => f.memoText host (.target t) o.dialect >>= fun text =>
        f.values host >>= fun r => freshId >>= fun id =>
          pure ⟨id, .str text, .list r, .str t, .ofName f.name⟩) := by
  have htarget : textOf host (.str t) = (pure t : Op ω String) := rfl
  rw [compile, render, htarget]
  simp only [bind_assoc, pure_bind]

theorem Fragment.compile_steps {q : CompiledQuery} (h : f.compile host (.str t) s = .ok q s') :
    ∃ o s₁ text s₂ r s₃, createDialect (.str t) s = .ok o s₁ ∧
      f.memoText host (.target t) o.dialect s₁ = .ok text s₂ ∧ f.values host s₂ = .ok r s₃ ∧
      q = ⟨s₃.fresh, .str text, .list r, .str t, .ofName f.name⟩ ∧
      s' = { s₃ with fresh := s₃.fresh + 1 } := by
  rw [compile_str] at h
  obtain ⟨o, s₁, hcreate, h⟩ := Pass.bind_eq_ok h
  obtain ⟨text, s₂, htext, h⟩ := Pass.bind_eq_ok h
  obtain ⟨r, s₃, hvalues, h⟩ := Pass.bind_eq_ok h
  cases h
  exact ⟨o, s₁, text, s₂, r, s₃, hcreate, htext, hvalues, rfl, rfl⟩

/-- **A target that is registered** is not refused as unsupported. Only a callable can still raise
such a failure, about a target of its own. -/
theorem Fragment.compile_unsupported (ht : t ∈ s.registry.targets) {v : Value} {shown : String}
    {registered : List String}
    (h : f.compile host (.str t) s = .error (.unsupportedTarget v shown registered) s') :
    RaisedLast ((Read.compile t).calls host f s) (.unsupportedTarget v shown registered) := by
  rcases Read.failure_cases host f s (.compile t) (Pass.bind_error h _) with
    hraised | ⟨-, ⟨⟨-, hnone | ⟨c, -, -, he⟩⟩, -⟩ | ⟨o, s₀, -, k, x, -, -, he⟩ | ⟨he, -⟩⟩
  · exact hraised
  · rw [Registry.mem_targets_iff, hnone.1] at ht
    cases ht
  · cases he
  · cases he
  · cases he

theorem Fragment.compile_kept (hhost : host.Careful) (hs : s.Gathered) {q : CompiledQuery}
    (h : f.compile host (.str t) s = .ok q s') :
    ∃ text bs, (s'.cacheOf f).texts.get? (.target t) = some text ∧
      (s'.cacheOf f).values = some bs ∧
      Answer.ofQuery s'.heap q = .query (.str text) bs (.str t) (.ofName f.name) := by
  obtain ⟨o, s₁, text, s₂, r, s₃, hcreate, htext, hvalues, rfl, rfl⟩ := compile_steps h
  have honward : s.Onward s₂ := hhost.onward fun I hI hs =>
    (hI.text f _ _).ok ((hI.createDialect _).ok hs hcreate) htext
  have honward' : s₂.Onward s₃ := hhost.onward fun I hI hs => (hI.handedOut f).ok hs hvalues
  obtain ⟨bs, hkept, -, hread⟩ := values_ok hhost.gathers (honward.gathered hs) hvalues
  refine ⟨text, bs, honward'.kept.texts f _ _ (kept_of_memoText htext), hkept, ?_⟩
  change Answer.query (.str text) (boundsIn s₃.heap r) (.str t) (.ofName f.name) = _
  rw [hread]

/-- **A fragment that was compiled** compiles to the same again as long as its target can be looked
up, whatever was done and whatever the target stands for by now. -/
theorem Fragment.compile_again (hhost : host.Careful) (hs : s.Gathered) {q : CompiledQuery}
    (h : f.compile host (.str t) s = .ok q s') (pool : List Fragment) (xs : List (Deed ω))
    {o : DialectObject} {s₁ : Session ω}
    (hcreate : createDialect (.str t) (afterDeeds host ⟨pool, s'⟩ xs).state = .ok o s₁) :
    ∃ q' u, f.compile host (.str t) (afterDeeds host ⟨pool, s'⟩ xs).state = .ok q' u ∧
      Answer.ofQuery u.heap q' = Answer.ofQuery s'.heap q := by
  obtain ⟨text, bs, htext, hvalues, hquery⟩ := compile_kept hhost hs h
  have hs' : s'.Gathered := (hhost.gathers.maintains.compile f (.str t)).ok hs h
  have honward := afterDeeds_onward hhost xs ⟨pool, s'⟩
  obtain ⟨hcaches, -⟩ := createDialect_ok hcreate
  have hcache : s₁.cacheOf f = (afterDeeds host ⟨pool, s'⟩ xs).state.cacheOf f := by
    rw [Session.cacheOf, hcaches, Session.cacheOf]
  have hmemo : f.memoText host (.target t) o.dialect s₁ = .ok text s₁ := by
    refine memoText_of_kept ?_ _
    rw [hcache]
    exact honward.kept.texts f _ _ htext
  have hmemo' : f.memoValues host s₁ = .ok bs s₁ := by
    refine memoValues_of_kept ?_
    rw [hcache]
    exact honward.kept.values f bs hvalues
  obtain ⟨r, s₂, hlist, -, hread⟩ := values_of_memoValues hmemo' (hs' f bs hvalues)
  refine ⟨⟨s₂.fresh, .str text, .list r, .str t, .ofName f.name⟩, { s₂ with fresh := s₂.fresh + 1 },
    ?_, ?_⟩
  · rw [compile_str, Pass.bind_ok hcreate, Pass.bind_ok hmemo, Pass.bind_ok hlist]
    rfl
  · rw [hquery, ← hread s₂ (.refl s₂)]
    rfl

end Compile

/-! ## Builders over a history -/

/-- A builder that every session knows, or one that is made in `s`. -/
def Builder.Made (c : Builder) (s s' : Session ω) : Prop :=
  c = .standard ∧ s' = s ∨ ∃ v, Builder.make v s = .ok c s'

theorem Builder.Made.reached {b : Bench (Session ω)} {c : Builder} {s' : Session ω}
    (h : c.Made b.state s') (host : Host ω) : ∃ zs, (afterDeeds host b zs).state = s' := by
  rcases h with ⟨-, rfl⟩ | ⟨v, hmake⟩
  · exact ⟨[], rfl⟩
  · exact ⟨[.builder v], stateAfter_ok hmake⟩

section History

variable {host : Host ω} {theirs : String → Prop} (hhost : host.UsesRegistry theirs)

include hhost

theorem Builder.Made.mem_targets {memory : ω} {xs : List (Deed ω)} {c : Builder} {s' : Session ω}
    (h : c.Made (afterDeeds host (.initial memory) xs).state s') {t : String}
    (ht : c.profile.target = .str t) : t ∈ s'.registry.targets := by
  obtain ⟨zs, hreached⟩ := h.reached host
  have hcoherent := coherent_afterDeeds hhost memory (xs ++ zs)
  rw [afterDeeds_append, hreached] at hcoherent
  rcases h with ⟨rfl, rfl⟩ | ⟨v, hmake⟩
  · cases ht
    exact afterDeeds_keeps_targets hhost xs (Registry.mem_targets_iff.mpr rfl)
  · obtain ⟨s₁, o, s₂, -, hcreate, hregistry⟩ := make_ok hmake
    rw [ht] at hcreate
    obtain ⟨-, -, -, -, hobject, -⟩ := createDialect_ok hcreate
    rw [← hregistry] at hobject
    exact Registry.mem_targets_iff.mpr (Option.isSome_of_eq_some (hcoherent.origin t o hobject))

/-- **A builder keeps its target.** Once it is made for a name, the name is registered, whatever is
done afterwards. Without another target it compiles every fragment just as the fragment itself
compiles for that name. That never fails because a target is unsupported, unless a callable raised
such a failure; and what it gives is for its target, and the fragment compiles to the same at any
later time at which the target can be looked up. A profile whose target is not registered makes no
builder: the target is refused as unsupported, or as no key to look anything up by. No builder that
cannot be made changes the registry. -/
theorem builders_keep_their_target (memory : ω) (xs : List (Deed ω)) :
    let b := afterDeeds host (.initial memory) xs
    (∀ (c : Builder) s', c.Made b.state s' → ∀ t, c.profile.target = .str t → ∀ ys,
      let b' := afterDeeds host ⟨b.pool, s'⟩ ys
      t ∈ b'.state.registry.targets ∧
      ∀ (f : Fragment) (target : Value), target.isFalsy b'.state.heap = true →
        c.compile host (.fragment f) target b'.state = f.compile host (.str t) b'.state ∧
        (∀ v shown registered u, c.compile host (.fragment f) target b'.state =
            .error (.unsupportedTarget v shown registered) u →
          RaisedLast ((Read.compile t).calls host f b'.state)
            (.unsupportedTarget v shown registered)) ∧
        ∀ q u, c.compile host (.fragment f) target b'.state = .ok q u → q.dialect = .str t ∧
          (host.Careful → ∀ zs o s₁,
            let s := (afterDeeds host ⟨b'.pool, u⟩ zs).state
            createDialect (.str t) s = .ok o s₁ → ∃ q' u', f.compile host (.str t) s = .ok q' u' ∧
              Answer.ofQuery u'.heap q' = Answer.ofQuery u.heap q)) ∧
    (∀ p : Profile, (∀ t, p.target = .str t → t ∉ b.state.registry.targets) →
      Builder.make (.profile p) b.state = .error (if p.target.isHashable then
        .unsupportedTarget p.target (p.target.shown b.state.heap) b.state.registry.targets
        else .notHashable p.target) b.state) ∧
    ∀ v e s', Builder.make v b.state = .error e s' → s'.registry = b.state.registry := by
  intro b
  refine ⟨fun c s' hmade t ht ys => ?_,
    fun p hp => Builder.make_unregistered (coherent_afterDeeds hhost memory xs) hp,
    fun v e s' h => Builder.make_error h⟩
  intro b'
  have htarget : t ∈ b'.state.registry.targets :=
    afterDeeds_keeps_targets hhost ys (hmade.mem_targets hhost ht)
  refine ⟨htarget, fun f target hfalsy => ?_⟩
  have hcompile :
      c.compile host (.fragment f) target b'.state = f.compile host (.str t) b'.state := by
    rw [Builder.compile_falsy hfalsy, ht]
  rw [hcompile]
  refine ⟨rfl, fun v shown registered u h => Fragment.compile_unsupported htarget h,
    fun q u h => ⟨?_, fun hcareful zs o s₁ hcreate => ?_⟩⟩
  · obtain ⟨_, _, _, _, _, _, -, -, -, rfl, -⟩ := Fragment.compile_steps h
    rfl
  · obtain ⟨zs', hreached⟩ := hmade.reached host
    have honward : (Session.initial memory).Onward b'.state := by
      have hall := afterDeeds_onward hcareful (xs ++ zs') (.initial memory)
      rw [afterDeeds_append, hreached] at hall
      exact hall.trans (afterDeeds_onward hcareful ys ⟨b.pool, s'⟩)
    have hgathered := honward.gathered (Session.gathered_initial memory)
    exact Fragment.compile_again hcareful hgathered h b'.pool zs hcreate

end History

/-- The target of a builder is registered for an abstract class, which makes a compile fail, then
for a class that has objects, and later for yet another one. There is no builder for a target that
nobody registered. -/
theorem builders_keep_their_target_abstract :
    let host : Host Unit := ⟨fun _ _ => pure .null, 1⟩
    let f : Fragment := ⟨0, ["a = ", ""], false, [.int 1], "", none, false⟩
    let c : Builder := ⟨17, ⟨1, .str ",", .str "sqlite"⟩⟩
    let p : Profile := ⟨2, .str ",", .str "oracle"⟩
    let s : Session Unit := .initial ()
    ∃ s', Builder.make (.profile c.profile) s = .ok c s' ∧
      let b := afterDeeds host ⟨[], s'⟩ [.act (.register "sqlite" .placeholderDialect),
        .compile c (.fragment f) .null, .act (.register "sqlite" .postgres)]
      "sqlite" ∈ b.state.registry.targets ∧
      ∃ q u, c.compile host (.fragment f) .null b.state = .ok q u ∧ q.dialect = .str "sqlite" ∧
        ∃ q' u', f.compile host (.str "sqlite")
            (afterDeeds host ⟨[], u⟩ [.act (.register "sqlite" .mysql)]).state = .ok q' u' ∧
          Answer.ofQuery u'.heap q' = Answer.ofQuery u.heap q ∧
          Builder.make (.profile p) s =
            .error (.unsupportedTarget (.str "oracle") (quoted "oracle") s.registry.targets) s := by
  intro host f c p s
  have hhost : host.UsesRegistry fun _ => False := fun _ _ _ => ⟨[], rfl, fun _ _ => rfl⟩
  have hobeys : host.Obeys fun _ _ => .ok .null := .of_call fun _ _ _ => rfl
  have hcareful : host.Careful := fun _ _ s => .refl s
  obtain ⟨hkeep, hrefuse, -⟩ := builders_keep_their_target hhost () []
  obtain ⟨s', hmake⟩ : ∃ s', Builder.make (.profile c.profile) s = .ok c s' := ⟨_, rfl⟩
  refine ⟨s', hmake, ?_⟩
  intro b
  obtain ⟨htarget, hcompile⟩ := hkeep c s' (.inr ⟨_, hmake⟩) "sqlite" rfl
    [.act (.register "sqlite" .placeholderDialect), .compile c (.fragment f) .null,
      .act (.register "sqlite" .postgres)]
  obtain ⟨hsame, -, hok⟩ := hcompile f .null rfl
  -- the only object of the registry was forgotten, and nothing could be rendered so far
  have hb : b.state.registry.class? "sqlite" = some .postgres ∧ b.state.cacheOf f = .empty ∧
      b.state.Gathered ∧ b.state.registry.Sound := by
    cases hmake
    exact ⟨rfl, rfl, fun _ _ h => (by cases h), fun _ _ h => (by cases h)⟩
  obtain ⟨hclass, hcache, hgathered, hsound⟩ := hb
  let U := b.state.rendering (fun _ _ => .ok .null) host.depth
  have hpieces := U.reading.pieces_scalar_slot (f := f) rfl rfl rfl 0
  have hfor : U.dialectFor "sqlite" = .ok .postgres :=
    Rendering.dialectFor_eq_ok_iff.mpr ⟨_, hclass, rfl⟩
  have hflatten : U.flatten .postgres f = .ok "a = $1" := Reading.flatten_of_pieces hpieces _
  have hcollect : U.collect f = .ok [.scalar (.int 1)] := Reading.collect_of_pieces hpieces
  have hread : outcome ((Read.compile "sqlite").perform host f) b.state =
      .ok (.query (.str "a = $1") [.scalar (.int 1)] (.str "sqlite") .null) := by
    rw [Read.outcome_eq hobeys hsound hgathered, hcache, Rendering.read_empty,
      Rendering.answer_compile]
    change (U.dialectFor "sqlite" >>= fun d => U.flatten d f >>= fun text =>
        U.collect f >>= fun bs => _)
      = _
    rw [hfor, hcollect]
    change (U.flatten .postgres f >>= fun text => _) = _
    rw [hflatten]
    rfl
  obtain ⟨s₁, hperform⟩ := outcome_eq_ok_iff.mp hread
  obtain ⟨q, u, hcompiled, -⟩ := Pass.bind_eq_ok hperform
  have hq : c.compile host (.fragment f) .null b.state = .ok q u := hsame.trans hcompiled
  obtain ⟨hdialect, hagain⟩ := hok q u hq
  obtain ⟨o, s₂, hcreate⟩ : ∃ o s₂, createDialect (.str "sqlite")
      (afterDeeds host ⟨[], u⟩ [.act (.register "sqlite" .mysql)]).state = .ok o s₂ := by
    change ∃ o s₂, createDialect (.str "sqlite")
      { u with registry := u.registry.register "sqlite" .mysql } = .ok o s₂
    rw [createDialect_str, Registry.create, Registry.object?_register, Registry.class?_register,
      if_pos rfl, if_pos rfl]
    exact ⟨_, _, rfl⟩
  obtain ⟨q', u', hq', hequal⟩ := hagain hcareful [.act (.register "sqlite" .mysql)] o s₂ hcreate
  refine ⟨htarget, q, u, hq, hdialect, q', u', hq', hequal, hrefuse p fun t ht => ?_⟩
  cases ht
  rw [Registry.mem_targets_iff]
  decide

/-- Callables that look one target up. -/
def Host.lookingUp (t : String) (depth : Nat) : Host ω :=
  ⟨fun _ _ => (fun _ => .null) <$> createDialect (.str t), depth⟩

theorem Host.lookingUp_usesRegistry (t : String) (depth : Nat) :
    (Host.lookingUp t depth : Host ω).UsesRegistry fun _ => False := by
  intro c f s
  change ∃ ms, (stateAfter ((fun _ => Value.null) <$> createDialect (.str t)) s).catalogue =
    s.catalogue.run ms ∧ _
  cases h : createDialect (.str t) s with
  | ok o s' =>
    rw [stateAfter_ok (Pass.map_ok h _)]
    exact ⟨[.create t], createDialect_catalogue h, fun _ _ => rfl⟩
  | error e s' =>
    rw [stateAfter_error (Pass.map_error h _), createDialect_error h]
    exact ⟨[], rfl, fun _ _ => rfl⟩

/-- **Not every failure about a target is the builder's own refusal of it.** A callable can raise
one about another target while a builder compiles, and a target that cannot be looked up by at all
is refused for that. -/
theorem builder_target_failures_differ :
    (¬ ∀ (host : Host Unit) (v : Value) (c : Builder) s' t (f : Fragment) e u,
      host.UsesRegistry (fun _ => False) → Builder.make v (.initial ()) = .ok c s' →
      c.profile.target = .str t → c.compile host (.fragment f) .null s' = .error e u →
      ∀ w shown registered, e ≠ .unsupportedTarget w shown registered) ∧
    ¬ ∀ (s : Session Unit) (p : Profile), (∀ t, p.target = .str t → t ∉ s.registry.targets) →
      ∃ shown registered s', Builder.make (.profile p) s =
        .error (.unsupportedTarget p.target shown registered) s' := by
  constructor
  · intro hnever
    let host : Host Unit := .lookingUp "oracle" 1
    let f : Fragment := ⟨0, ["a = ", ""], false, [.callable ⟨18, "late"⟩], "", none, false⟩
    let c : Builder := ⟨17, ⟨1, .str ",", .str "sqlite"⟩⟩
    have hgaps : f.gaps = [("a = ", some (.callable ⟨18, "late"⟩)), ("", none)] := by
      simp [f, Fragment.gaps, pairGaps]
    have hpass : ∀ (d : Dialect) s e u, createDialect (.str "oracle") s = .error e u →
        f.statement host.environment d s = .error e u := by
      intro d s e u h
      change (writeGaps host.environment d f (Fragment.write host.environment d 0) f.gaps none 0 >>=
        fun x => pure (dropNewlines x.1)) s = _
      rw [hgaps]
      exact Pass.bind_error (Pass.bind_error (Pass.bind_error (Pass.map_error h _) _) _) _
    obtain ⟨s', hmake⟩ : ∃ s', Builder.make (.profile c.profile) (.initial ()) = .ok c s' :=
      ⟨_, rfl⟩
    obtain ⟨o, s₁, hcreate⟩ : ∃ o s₁, createDialect (.str "sqlite") s' = .ok o s₁ := by
      cases hmake
      exact ⟨_, _, rfl⟩
    obtain ⟨shown, registered, u, hraised⟩ : ∃ shown registered u,
        createDialect (.str "oracle") (s₁.record (.rendering (.text (.target "sqlite")) f.shown)) =
          .error (.unsupportedTarget (.str "oracle") shown registered) u := by
      cases hmake
      cases hcreate
      exact ⟨_, _, _, rfl⟩
    have hmissing : (s₁.cacheOf f).texts.get? (.target "sqlite") = none := by
      cases hmake
      cases hcreate
      rfl
    have hcompile : c.compile host (.fragment f) .null s' =
        .error (.unsupportedTarget (.str "oracle") shown registered) u := by
      have hmemo : f.memoText host (.target "sqlite") o.dialect s₁ =
          .error (.unsupportedTarget (.str "oracle") shown registered) u := by
        rw [Fragment.memoText_of_missing host hmissing, hpass _ _ _ _ hraised]
      rw [Builder.compile_falsy rfl, Fragment.compile_str, Pass.bind_ok hcreate]
      exact Pass.bind_error hmemo _
    exact hnever host _ c s' "sqlite" f _ u (Host.lookingUp_usesRegistry _ _) hmake rfl hcompile
      _ _ _ rfl
  · intro halways
    let p : Profile := ⟨16, .str ",", .list ⟨0⟩⟩
    obtain ⟨shown, registered, s', hmake⟩ := halways (.initial ()) p (fun t ht => by cases ht)
    cases hmake

end SqlFragments
