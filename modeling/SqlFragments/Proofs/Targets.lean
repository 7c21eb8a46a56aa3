import SqlFragments.Proofs.Catalogue
import SqlFragments.Proofs.Deeds
import SqlFragments.Proofs.Moments

/-!
# Dialects over a history

Whoever looks a target up, by compiling, making a builder or directly, shares one object with
everyone else, until the target is registered again.

* `Session.catalogue`: the registry of a session, with the next identity.
* `Host.UsesRegistry`: callables may look targets up, and register names of their own.
* **`Deed.moves`**, **`afterDeeds_moves`**: a deed, and a history, run the registry; the classes it
  registers are those that the deeds say.
* **`createDialect_class`**: what looking up a target comes to.
* **`registry_over_history`**.
-/

namespace SqlFragments

variable {ω : Type}

def Session.catalogue (s : Session ω) : Catalogue := ⟨s.registry, s.fresh⟩

/-- Callables that do nothing else to the registry than what can be done with it. They register no
other names than theirs. -/
def Host.UsesRegistry (host : Host ω) (theirs : String → Prop) : Prop :=
  ∀ c f s, ∃ ms, (stateAfter (host.call c f) s).catalogue = s.catalogue.run ms ∧
    ∀ name, ¬ theirs name → ms.filterMap (Move.classFor name) = []

/-- The class that a deed registers a name for. -/
def Deed.classFor (name : String) : Deed ω → Option DialectClass
  | act (.register name' c) => if name' = name then some c else none
  | _ => none

/-- The classes that a name is registered for in a history, built-in ones first. -/
def classesFor (name : String) (xs : List (Deed ω)) : List DialectClass :=
  (Registry.initial.class? name).toList ++ xs.filterMap (Deed.classFor name)

/-! ## What a deed does to the registry -/

section Moves

variable {host : Host ω} {theirs : String → Prop} (hhost : host.UsesRegistry theirs)

/-- The registry has been run since `k`, and registered no names but theirs. -/
def Session.MovedFrom (theirs : String → Prop) (k : Catalogue) (s : Session ω) : Prop :=
  ∃ ms, s.catalogue = k.run ms ∧ ∀ name, ¬ theirs name → ms.filterMap (Move.classFor name) = []

theorem Session.MovedFrom.run {k : Catalogue} {s s' : Session ω} (h : s.MovedFrom theirs k)
    {ms : List Move} (hs : s'.catalogue = s.catalogue.run ms)
    (hms : ∀ name, ¬ theirs name → ms.filterMap (Move.classFor name) = []) :
    s'.MovedFrom theirs k := by
  obtain ⟨ms', hs', hms'⟩ := h
  refine ⟨ms' ++ ms, ?_, fun name hname => ?_⟩
  · rw [hs, hs', Catalogue.run_append]
  · rw [List.filterMap_append, hms' name hname, hms name hname, List.append_nil]

theorem Session.catalogue_create {s : Session ω} {name : String} {o : DialectObject}
    {registry : Registry} (h : s.registry.create s.fresh name = .ok (o, registry)) :
    ({ s with registry := registry, fresh := s.fresh + 1 } : Session ω).catalogue =
      s.catalogue.run [.create name] := by
  change _ = (Move.create name).perform s.catalogue
  simp only [Move.perform, Session.catalogue, h]

include hhost

theorem Host.UsesRegistry.sustains (k : Catalogue) :
    host.Sustains fun s => s.MovedFrom theirs k where
  call c f s hs := by
    obtain ⟨ms, hmoved, hms⟩ := hhost c f s
    exact hs.run hmoved hms
  record _ _ hs := hs
  cache _ _ _ hs := hs
  allocate _ _ hs := hs
  fresh s hs := by
    have hpass : Session.catalogue { s with fresh := s.fresh + 1 } = s.catalogue.run [.pass] := rfl
    exact hs.run hpass fun _ _ => rfl
  create s name o registry hs h := hs.run (Session.catalogue_create h) fun _ _ => rfl

/-- **A deed runs the registry.** The classes it registers are those that it says. -/
theorem Deed.moves (x : Deed ω) (b : Bench (Session ω)) :
    ∃ ms, (x.perform host b).state.catalogue = b.state.catalogue.run ms ∧
      ∀ name, ¬ theirs name → ms.filterMap (Move.classFor name) = (x.classFor name).toList := by
  by_cases hx : ∃ name c, x = .act (.register name c)
  · obtain ⟨name, c, rfl⟩ := hx
    refine ⟨[.register name c], rfl, fun name' _ => ?_⟩
    by_cases hname : name = name' <;> simp [Move.classFor, classFor, hname]
  · have hfor : ∀ name, x.classFor name = none := by
      intro name
      unfold classFor
      split
      · exact absurd ⟨_, _, rfl⟩ hx
      · rfl
    have hother : ∀ y, x = .act y → y.isRead = false →
        (y.perform host b).state.MovedFrom theirs b.state.catalogue := by
      intro y hy hread
      refine Act.keeps_of_other hread (fun _ _ _ hs => hs) (fun _ _ hs => hs) (fun _ _ hs => hs)
        (fun _ name c hreg _ => ?_) (hhost.sustains _).create ⟨[], rfl, fun _ _ => rfl⟩
      exact absurd ⟨name, c, hreg ▸ hy⟩ hx
    obtain ⟨ms, hms, hnone⟩ := Deed.keeps (hhost.sustains b.state.catalogue).maintains hother
      ⟨[], rfl, fun _ _ => rfl⟩
    refine ⟨ms, hms, fun name hname => ?_⟩
    rw [hfor, hnone name hname]
    rfl

/-- **A history runs the registry.** -/
theorem afterDeeds_moves (xs : List (Deed ω)) (b : Bench (Session ω)) :
    ∃ ms, (afterDeeds host b xs).state.catalogue = b.state.catalogue.run ms ∧
      ∀ name, ¬ theirs name →
        ms.filterMap (Move.classFor name) = xs.filterMap (Deed.classFor name) := by
  induction xs generalizing b with
  | nil => exact ⟨[], rfl, fun _ _ => rfl⟩
  | cons x xs ih =>
    obtain ⟨ms, hms, hfor⟩ := x.moves hhost b
    obtain ⟨ms', hms', hfor'⟩ := ih (x.perform host b)
    refine ⟨ms ++ ms', ?_, fun name hname => ?_⟩
    · rw [Catalogue.run_append, ← hms, ← hms']
      rfl
    · rw [List.filterMap_append, hfor name hname, hfor' name hname]
      cases hx : x.classFor name with
      | none => rw [List.filterMap_cons_none hx, Option.toList_none, List.nil_append]
      | some c => rw [List.filterMap_cons_some hx, Option.toList_some, List.singleton_append]

theorem coherent_afterDeeds (memory : ω) (xs : List (Deed ω)) :
    (afterDeeds host (.initial memory) xs).state.catalogue.Coherent := by
  obtain ⟨ms, hms, -⟩ := afterDeeds_moves hhost xs (.initial memory)
  rw [hms]
  exact (Catalogue.coherent_initial _).run ms

end Moves

/-! ## Looking up a target -/

section Create

variable {s s' : Session ω} {name : String} {o : DialectObject}

/-- **Looking up a target** gives an object of the class it is registered for. If there is no such
class, or it has no objects, the session stays as it is. -/
theorem createDialect_class (hs : s.catalogue.Coherent) (name : String) :
    match s.registry.class? name with
    | none => createDialect (.str name) s =
        .error (.unsupportedTarget (.str name) (quoted name) s.registry.targets) s
    | some c =>
      match c.dialect? with
      | none => createDialect (.str name) s = .error (.abstractClass c.title) s
      | some d =>
        ∃ o s', createDialect (.str name) s = .ok o s' ∧ o.origin = c ∧ o.dialect = d := by
  cases ho : s.registry.object? name with
  | some o =>
    have hclass : s.registry.class? name = some o.origin := hs.origin name o ho
    simp only [hclass, hs.dialect name o ho]
    exact ⟨o, _, createDialect_of_object ho, rfl, rfl⟩
  | none =>
    rw [createDialect_str, Registry.create, ho]
    cases hc : s.registry.class? name with
    | none => rfl
    | some c =>
      cases hd : c.dialect? with
      | none => simp only [DialectClass.instantiate?, hd, Option.map_none]
      | some d =>
        simp only [DialectClass.instantiate?, hd, Option.map_some]
        exact ⟨_, _, rfl, rfl, rfl⟩

theorem createDialect_catalogue (h : createDialect (.str name) s = .ok o s') :
    s'.catalogue = s.catalogue.run [.create name] := by
  rcases createDialect_cases (.str name) s with ⟨e, he⟩ | ⟨_, o', registry, hname, hcreate, hok⟩
  · rw [h] at he
    cases he
  · rw [h] at hok
    cases hok
    cases hname
    exact Session.catalogue_create hcreate

theorem createDialect_register_of_ne {other : String} (h : name ≠ other) (s : Session ω)
    (c : DialectClass) (o : DialectObject) :
    outcome (createDialect (.str other)) { s with registry := s.registry.register name c } = .ok o ↔
      outcome (createDialect (.str other)) s = .ok o := by
  have hgives : ∀ s : Session ω, outcome (createDialect (.str other)) s = .ok o ↔
      Prod.fst <$> s.registry.create s.fresh other = .ok o := by
    intro s
    unfold outcome
    rw [createDialect_str]
    cases s.registry.create s.fresh other with
    | ok x => simp [Functor.map, Except.map]
    | error e => cases e <;> simp [Functor.map, Except.map]
  rw [hgives, hgives]
  change Prod.fst <$> (s.registry.register name c).create s.fresh other = .ok o ↔ _
  rw [Registry.create_register_of_ne h]

end Create

/-! ## A whole history -/

section History

variable {host : Host ω} {theirs : String → Prop} (hhost : host.UsesRegistry theirs)
  {memory : ω} {xs ys : List (Deed ω)} {name : String}

include hhost

theorem afterDeeds_class? (hname : ¬ theirs name) :
    (afterDeeds host (.initial memory) xs).state.registry.class? name =
      (classesFor name xs).getLast? := by
  obtain ⟨ms, hms, hfor⟩ := afterDeeds_moves hhost xs (.initial memory)
  have hrun : (afterDeeds host (.initial memory) xs).state.registry =
      ((Session.initial memory).catalogue.run ms).registry := congrArg Catalogue.registry hms
  have hbuiltin :
      (Registry.initial.class? name).toList.getLast? = Registry.initial.class? name := by
    cases Registry.initial.class? name <;> rfl
  rw [hrun, Catalogue.class?_run, hfor name hname, classesFor, List.getLast?_append, hbuiltin]
  rfl

theorem afterDeeds_mem_targets (hname : ¬ theirs name) :
    name ∈ (afterDeeds host (.initial memory) xs).state.registry.targets ↔
      classesFor name xs ≠ [] := by
  rw [Registry.mem_targets_iff, afterDeeds_class? hhost hname, List.getLast?_isSome]

/-- **The same object until its name is registered again**, and a new one afterwards. -/
theorem createDialect_again {b : Bench (Session ω)} (hb : b.state.catalogue.Coherent)
    (hname : ¬ theirs name) {o : DialectObject} {s' : Session ω}
    (h : createDialect (.str name) b.state = .ok o s') (ys : List (Deed ω)) :
    let s := (afterDeeds host ⟨b.pool, s'⟩ ys).state
    (ys.filterMap (Deed.classFor name) = [] →
      ∃ s'', createDialect (.str name) s = .ok o s'') ∧
    (ys.filterMap (Deed.classFor name) ≠ [] →
      ∀ o' s'', createDialect (.str name) s = .ok o' s'' → o'.id ≠ o.id) := by
  intro s
  obtain ⟨ms, hms, hfor⟩ := afterDeeds_moves hhost ys ⟨b.pool, s'⟩
  obtain ⟨-, -, -, -, hobject, -⟩ := createDialect_ok h
  have hs' : s'.catalogue.Coherent := by
    rw [createDialect_catalogue h]
    exact hb.run _
  refine ⟨fun hnone => ?_, fun hsome o' s'' h' => ?_⟩
  · have hstays : (s'.catalogue.run ms).registry.object? name = some o :=
      Catalogue.object?_run ((hfor name hname).trans hnone) hobject
    rw [← hms] at hstays
    exact ⟨_, createDialect_of_object hstays⟩
  · obtain ⟨-, -, -, -, hobject', -⟩ := createDialect_ok h'
    have hrun : s''.catalogue = s'.catalogue.run (ms ++ [.create name]) := by
      rw [createDialect_catalogue h', Catalogue.run_append, ← hms]
    have hregistered : (ms ++ [Move.create name]).filterMap (Move.classFor name) ≠ [] := by
      rw [List.filterMap_append, hfor name hname]
      exact List.append_ne_nil_of_left_ne_nil hsome _
    have hnew : s'.catalogue.next ≤ o'.id :=
      Catalogue.le_of_registered hregistered (by rw [← hrun]; exact hobject')
    have hold : o.id < s'.catalogue.next := hs'.below name o hobject
    omega

/-- **The registry over a history.** Every object is of the class that its name was registered for
last. Looking a name up gives an object of that class, the same one until the name is registered
again and a new one afterwards, whatever other names are registered. A name that cannot be looked
up leaves the session as it is, and can be looked up once it is registered for a class that has
objects. The targets are listed in increasing order, whatever the order of registrations. -/
theorem registry_over_history (memory : ω) (xs : List (Deed ω)) :
    let bench := fun xs => afterDeeds host (.initial memory) xs
    let registry := fun xs => (bench xs).state.registry
    let create := fun name => createDialect (ω := ω) (.str name)
    (∀ name o, (registry xs).object? name = some o → name ∈ (registry xs).targets ∧
      (registry xs).class? name = some o.origin ∧ o.origin.dialect? = some o.dialect) ∧
    (∀ name, ¬ theirs name → (registry xs).class? name = (classesFor name xs).getLast?) ∧
    (∀ name c, (registry xs).class? name = some c → c.dialect?.isSome →
      ∃ o s', create name (bench xs).state = .ok o s' ∧ o.origin = c) ∧
    (∀ name o s', ¬ theirs name → create name (bench xs).state = .ok o s' → ∀ ys,
      let s := (afterDeeds host ⟨(bench xs).pool, s'⟩ ys).state
      (ys.filterMap (Deed.classFor name) = [] → ∃ s'', create name s = .ok o s'') ∧
      (ys.filterMap (Deed.classFor name) ≠ [] → ∀ o' s'', create name s = .ok o' s'' →
        o'.id ≠ o.id)) ∧
    (∀ name other c o, name ≠ other →
      (outcome (create other) (bench (xs ++ [.act (.register name c)])).state = .ok o ↔
        outcome (create other) (bench xs).state = .ok o)) ∧
    (∀ name e s', create name (bench xs).state = .error e s' → s' = (bench xs).state ∧
      (∀ c, (registry xs).class? name = some c → c.dialect? = none) ∧
      ∀ ys c, ¬ theirs name → (classesFor name (xs ++ ys)).getLast? = some c → c.dialect?.isSome →
        ∃ o s'', create name (bench (xs ++ ys)).state = .ok o s'' ∧ o.origin = c) ∧
    (registry xs).targets.Pairwise (· < ·) ∧
    (∀ name, ¬ theirs name → (name ∈ (registry xs).targets ↔ classesFor name xs ≠ [])) ∧
    (∀ ys, (∀ name, ¬ theirs name ∧ (classesFor name xs = [] ↔ classesFor name ys = [])) →
      (registry xs).targets = (registry ys).targets) := by
  intro bench registry create
  have hcoherent : ∀ xs, (bench xs).state.catalogue.Coherent := coherent_afterDeeds hhost memory
  have hcreate : ∀ xs name c, (registry xs).class? name = some c → c.dialect?.isSome →
      ∃ o s', create name (bench xs).state = .ok o s' ∧ o.origin = c := by
    intro xs name c hc hd
    obtain ⟨d, hd⟩ := Option.isSome_iff_exists.mp hd
    have hclass := createDialect_class (hcoherent xs) name
    simp only [show (bench xs).state.registry.class? name = some c from hc, hd] at hclass
    obtain ⟨o, s', hok, ho, -⟩ := hclass
    exact ⟨o, s', hok, ho⟩
  refine ⟨fun name o ho => ?_, fun name hname => afterDeeds_class? hhost hname, hcreate xs,
    fun name o s' hname h ys => createDialect_again hhost (hcoherent xs) hname h ys,
    fun name other c o hne => ?_, fun name e s' h => ⟨createDialect_error h, ?_, ?_⟩,
    Registry.targets_increasing (hcoherent xs).keys,
    fun name hname => afterDeeds_mem_targets hhost hname, fun ys hsame => ?_⟩
  · have hclass := (hcoherent xs).origin name o ho
    refine ⟨Registry.mem_targets_iff.mpr ?_, hclass, (hcoherent xs).dialect name o ho⟩
    exact Option.isSome_of_eq_some hclass
  · have hregister : (bench (xs ++ [.act (.register name c)])).state =
        { (bench xs).state with registry := (registry xs).register name c } :=
      congrArg Bench.state (afterDeeds_append host _ xs _)
    rw [hregister]
    exact createDialect_register_of_ne hne _ c o
  · intro c hc
    cases hd : c.dialect? with
    | none => rfl
    | some d =>
      obtain ⟨o, s'', hok, -⟩ := hcreate xs name c hc (Option.isSome_of_eq_some hd)
      rw [h] at hok
      cases hok
  · intro ys c hname hlast hd
    exact hcreate (xs ++ ys) name c ((afterDeeds_class? hhost hname).trans hlast) hd
  · refine Registry.targets_congr_mem (hcoherent xs).keys (hcoherent ys).keys fun name => ?_
    obtain ⟨hname, hsame⟩ := hsame name
    rw [afterDeeds_mem_targets hhost hname, afterDeeds_mem_targets hhost hname]
    exact not_congr hsame

end History

/-- A name is looked up in vain, registered for an abstract class, and then for one class twice;
callables look a target up as well. -/
theorem registry_over_history_again :
    let host : Host Unit := ⟨fun _ _ => (fun _ => .null) <$> createDialect (.str "sqlite"), 1⟩
    let xs : List (Deed Unit) := [.act (.create (.str "oracle")),
      .act (.register "oracle" .placeholderDialect), .act (.create (.str "oracle")),
      .builder (.profile ⟨1, .str ",", .str "sqlite"⟩), .act (.register "oracle" .mysql)]
    let again : Deed Unit := .act (.register "oracle" .mysql)
    let b := afterDeeds host (.initial ()) xs
    host.UsesRegistry (fun _ => False) ∧ "oracle" ∈ b.state.registry.targets ∧
      ∃ o s₁ o' s₂, createDialect (.str "oracle") b.state = .ok o s₁ ∧
        createDialect (.str "oracle") (afterDeeds host ⟨b.pool, s₁⟩ [again]).state = .ok o' s₂ ∧
        o.origin = .mysql ∧ o'.origin = .mysql ∧ o'.id ≠ o.id := by
  intro host xs again b
  have hhost : host.UsesRegistry fun _ => False := by
    intro c f s
    change ∃ ms,
      (stateAfter ((fun _ => Value.null) <$> createDialect (.str "sqlite")) s).catalogue =
      s.catalogue.run ms ∧ _
    cases h : createDialect (.str "sqlite") s with
    | ok o s' =>
      rw [stateAfter_ok (Pass.map_ok h _)]
      exact ⟨[.create "sqlite"], createDialect_catalogue h, fun _ _ => rfl⟩
    | error e s' =>
      rw [stateAfter_error (Pass.map_error h _), createDialect_error h]
      exact ⟨[], rfl, fun _ _ => rfl⟩
  have hnot : ¬ False := id
  obtain ⟨-, hclass, hcreate, hagain, -, -, -, hmem, -⟩ := registry_over_history hhost () xs
  obtain ⟨o, s₁, hok, ho⟩ := hcreate "oracle" .mysql (hclass "oracle" hnot) rfl
  have hlater : afterDeeds host (.initial ()) (xs ++ [.act (.create (.str "oracle")), again]) =
      afterDeeds host ⟨b.pool, s₁⟩ [again] := by
    have hcreated : (Deed.act (.create (.str "oracle")) : Deed Unit).perform host b =
        ⟨b.pool, s₁⟩ := congrArg (Bench.mk b.pool) (stateAfter_ok hok)
    rw [afterDeeds_append]
    exact congrArg (fun b => afterDeeds host b [again]) hcreated
  obtain ⟨-, hlastClass, hlastCreate, -⟩ := registry_over_history hhost ()
    (xs ++ [.act (.create (.str "oracle")), again])
  obtain ⟨o', s₂, hok', ho'⟩ := hlastCreate "oracle" .mysql (hlastClass "oracle" hnot) rfl
  change createDialect (.str "oracle") (afterDeeds host (.initial ())
    (xs ++ [.act (.create (.str "oracle")), again])).state = .ok o' s₂ at hok'
  rw [hlater] at hok'
  refine ⟨hhost, (hmem "oracle" hnot).mpr (by simp [classesFor, xs, Deed.classFor]), o, s₁, o', s₂,
    hok, hok', ho, ho', ?_⟩
  exact (hagain "oracle" o s₁ hnot hok [again]).2 (by simp [Deed.classFor, again]) o' s₂ hok'

end SqlFragments
