import Mathlib.Data.List.Induction
import Mathlib.Data.List.Sort
import Mathlib.Data.String.Basic
import SqlFragments.Dialect.Registry

/-!
# The registry as a machine

The registry is two tables that change together: registering a name forgets its object, and looking
a name up may make one. Identities are handed out once, here as well as elsewhere.

* `Catalogue`, `Move`, `Catalogue.run`: the registry with the next identity, and what moves it.
* **`Registry.create_cases`**: all that looking up a name can do.
* `Catalogue.Coherent`: the invariant. **`Catalogue.Coherent.run`**: every run keeps it.
* **`Catalogue.class?_run`**: a name stands for the class that was registered last.
* **`Catalogue.object?_run`**, **`Catalogue.le_of_registered`**: an object stays until its name is
  registered, and then never comes back.
* **`Registry.targets_increasing`**, **`Registry.targets_congr_mem`**: the list of targets.
-/

namespace SqlFragments

/-! ## Looking up a name -/

namespace Registry

variable {r : Registry} {name : String}

/-- **Looking up a name** gives the object that is there, makes one of the registered class, or
fails for want of a class that has objects. -/
theorem create_cases (r : Registry) (fresh : Nat) (name : String) :
    (∃ o, r.object? name = some o ∧ r.create fresh name = .ok (o, r)) ∨
    (r.object? name = none ∧ ∃ c d, r.class? name = some c ∧ c.dialect? = some d ∧
      r.create fresh name =
        .ok (⟨fresh, c, d⟩, ⟨r.classes, r.objects.insert name ⟨fresh, c, d⟩⟩)) ∨
    (r.object? name = none ∧ (∀ c, r.class? name = some c → c.dialect? = none) ∧
      ∃ e, r.create fresh name = .error e) := by
  cases ho : r.object? name with
  | some o => exact .inl ⟨o, rfl, create_of_object? ho fresh⟩
  | none =>
    cases hc : r.class? name with
    | none =>
      refine .inr (.inr ⟨rfl, fun c h => ?_, .unregistered, ?_⟩)
      · cases h
      · simp [create, ho, hc]
    | some c =>
      cases hd : c.dialect? with
      | none =>
        refine .inr (.inr ⟨rfl, fun c' h => ?_, .abstractClass c.title, ?_⟩)
        · cases h
          exact hd
        · simp [create, ho, hc, DialectClass.instantiate?, hd]
      | some d =>
        refine .inr (.inl ⟨rfl, c, d, rfl, hd, ?_⟩)
        simp [create, ho, hc, DialectClass.instantiate?, hd]

theorem create_register_of_ne {other : String} (h : name ≠ other) (r : Registry) (c : DialectClass)
    (fresh : Nat) :
    Prod.fst <$> (r.register name c).create fresh other = Prod.fst <$> r.create fresh other := by
  have hobject : (r.register name c).object? other = r.object? other := by
    rw [object?_register, if_neg h]
  have hclass : (r.register name c).class? other = r.class? other := by
    rw [class?_register, if_neg h]
  rw [create, create, hobject, hclass]
  cases r.object? other with
  | some o => rfl
  | none =>
    cases r.class? other with
    | none => rfl
    | some c' =>
      dsimp only
      cases c'.instantiate? fresh <;> rfl

/-! ## The list of targets -/

theorem mem_targets_iff : name ∈ r.targets ↔ (r.class? name).isSome := by
  rw [mem_targets, class?, Table.get?_isSome_iff]

/-- **The targets are listed in increasing order**, each once. -/
theorem targets_increasing (h : r.classes.keys.Nodup) : r.targets.Pairwise (· < ·) := by
  have htrans : ∀ a b c : String, decide (a ≤ b) = true → decide (b ≤ c) = true →
      decide (a ≤ c) = true := by
    intro a b c hab hbc
    exact decide_eq_true ((of_decide_eq_true hab).trans (of_decide_eq_true hbc))
  have htotal : ∀ a b : String, (decide (a ≤ b) || decide (b ≤ a)) = true := by
    intro a b
    simpa using le_total a b
  have hnodup : r.targets.Nodup := (List.mergeSort_perm _ _).nodup_iff.mpr h
  have hsorted : r.targets.Pairwise fun a b => decide (a ≤ b) = true :=
    List.pairwise_mergeSort htrans htotal r.classes.keys
  exact (hsorted.and hnodup).imp fun hab => lt_of_le_of_ne (of_decide_eq_true hab.1) hab.2

/-- **Only which names are registered counts**, not the order in which they came. -/
theorem targets_congr_mem {r' : Registry} (h : r.classes.keys.Nodup) (h' : r'.classes.keys.Nodup)
    (hmem : ∀ name, name ∈ r.targets ↔ name ∈ r'.targets) : r.targets = r'.targets :=
  (targets_increasing h).eq_of_mem_iff (targets_increasing h') hmem

end Registry

/-! ## The machine -/

/-- The registry, and the identity that the next object gets. -/
structure Catalogue where
  registry : Registry
  next : Nat

inductive Move where
  | register (name : String) (c : DialectClass)
  | create (name : String)
  /-- An identity goes to something else. -/
  | pass

namespace Move

def perform (k : Catalogue) : Move → Catalogue
  | register name c => ⟨k.registry.register name c, k.next⟩
  | create name =>
    match k.registry.create k.next name with
    | .ok (_, registry) => ⟨registry, k.next + 1⟩
    | .error _ => k
  | pass => ⟨k.registry, k.next + 1⟩

/-- The class that a move registers a name for. -/
def classFor (name : String) : Move → Option DialectClass
  | register name' c => if name' = name then some c else none
  | create _ | pass => none

end Move

namespace Catalogue

def run (k : Catalogue) (ms : List Move) : Catalogue := ms.foldl Move.perform k

theorem run_append (k : Catalogue) (ms ms' : List Move) : k.run (ms ++ ms') = (k.run ms).run ms' :=
  List.foldl_append

theorem initial_keys : Registry.initial.classes.keys.Nodup := by decide

/-- Each name is registered once, and objects are of the classes that their names are registered
for. -/
structure Coherent (k : Catalogue) : Prop where
  keys : k.registry.classes.keys.Nodup
  origin : ∀ name o, k.registry.object? name = some o → k.registry.class? name = some o.origin
  dialect : ∀ name o, k.registry.object? name = some o → o.origin.dialect? = some o.dialect
  below : ∀ name o, k.registry.object? name = some o → o.id < k.next

theorem coherent_initial (next : Nat) : Coherent ⟨.initial, next⟩ where
  keys := initial_keys
  origin := fun name o h => by cases h
  dialect := fun name o h => by cases h
  below := fun name o h => by cases h

end Catalogue

/-! ## One move -/

namespace Move

variable {k : Catalogue} {m : Move} {name : String}

theorem class?_perform (k : Catalogue) (m : Move) (name : String) :
    (m.perform k).registry.class? name = (m.classFor name).or (k.registry.class? name) := by
  cases m with
  | register name' c =>
    rw [perform, Registry.class?_register, classFor]
    split_ifs <;> rfl
  | create name' =>
    rcases k.registry.create_cases k.next name' with ⟨o, -, h⟩ | ⟨-, c, d, -, -, h⟩ | ⟨-, -, e, h⟩
    all_goals
      rw [perform, h]
      rfl
  | pass => rfl

/-- The object of a name after a move: the one before, if the name is not registered; or a new
one. -/
theorem object?_perform (k : Catalogue) (m : Move) (name : String) :
    (m.classFor name = none ∧
      (m.perform k).registry.object? name = k.registry.object? name) ∨
    ((m.classFor name).isSome ∧ (m.perform k).registry.object? name = none) ∨
    (m.classFor name = none ∧ k.registry.object? name = none ∧
      ∃ c d, k.registry.class? name = some c ∧ c.dialect? = some d ∧
        (m.perform k).registry.object? name = some ⟨k.next, c, d⟩ ∧
        (m.perform k).next = k.next + 1) := by
  cases m with
  | register name' c =>
    rw [perform, Registry.object?_register, classFor]
    by_cases hname : name' = name
    · rw [if_pos hname, if_pos hname]
      exact .inr (.inl ⟨rfl, rfl⟩)
    · rw [if_neg hname, if_neg hname]
      exact .inl ⟨rfl, rfl⟩
  | create name' =>
    rcases k.registry.create_cases k.next name' with
      ⟨o, -, h⟩ | ⟨hnone, c, d, hc, hd, h⟩ | ⟨-, -, e, h⟩
    · rw [perform, h]
      exact .inl ⟨rfl, rfl⟩
    · rw [perform, h]
      by_cases hname : name' = name
      · subst hname
        exact .inr (.inr ⟨rfl, hnone, c, d, hc, hd, Table.get?_insert_self _ _ _, rfl⟩)
      · exact .inl ⟨rfl, Table.get?_insert_of_ne _ _ hname⟩
    · rw [perform, h]
      exact .inl ⟨rfl, rfl⟩
  | pass => exact .inl ⟨rfl, rfl⟩

theorem le_next_perform (k : Catalogue) (m : Move) : k.next ≤ (m.perform k).next := by
  cases m with
  | create name =>
    rw [perform]
    split
    · exact Nat.le_succ _
    · exact Nat.le_refl _
  | register name c => exact Nat.le_refl _
  | pass => exact Nat.le_succ _

theorem keys_perform (h : k.registry.classes.keys.Nodup) :
    (m.perform k).registry.classes.keys.Nodup := by
  cases m with
  | register name c => exact Table.nodup_keys_insert h name c
  | create name =>
    rcases k.registry.create_cases k.next name with ⟨o, -, h'⟩ | ⟨-, c, d, -, -, h'⟩ | ⟨-, -, e, h'⟩
    all_goals
      rw [perform, h']
      exact h
  | pass => exact h

/-- **One move** keeps the tables coherent. -/
theorem coherent_perform (h : k.Coherent) (m : Move) : (m.perform k).Coherent := by
  have hobject : ∀ name o, (m.perform k).registry.object? name = some o →
      (m.perform k).registry.class? name = some o.origin ∧ o.origin.dialect? = some o.dialect ∧
        o.id < (m.perform k).next := by
    intro name o ho
    rw [class?_perform]
    rcases object?_perform k m name with
      ⟨hfor, hsame⟩ | ⟨-, hnone⟩ | ⟨hfor, -, c, d, hc, hd, hnew, hnext⟩
    · rw [hsame] at ho
      rw [hfor]
      exact ⟨h.origin name o ho, h.dialect name o ho,
        Nat.lt_of_lt_of_le (h.below name o ho) (le_next_perform k m)⟩
    · rw [hnone] at ho
      cases ho
    · rw [hnew] at ho
      cases ho
      rw [hfor, hnext]
      exact ⟨hc, hd, Nat.lt_succ_self _⟩
  exact ⟨keys_perform h.keys, fun name o ho => (hobject name o ho).1,
    fun name o ho => (hobject name o ho).2.1, fun name o ho => (hobject name o ho).2.2⟩

end Move

/-! ## Runs -/

namespace Catalogue

variable {k : Catalogue} {name : String} {o : DialectObject}

/-- **Every run keeps the tables coherent.** -/
theorem Coherent.run (h : k.Coherent) (ms : List Move) : (k.run ms).Coherent := by
  induction ms generalizing k with
  | nil => exact h
  | cons m ms ih => exact ih (m.coherent_perform h)

theorem le_next_run (k : Catalogue) (ms : List Move) : k.next ≤ (k.run ms).next := by
  induction ms generalizing k with
  | nil => exact Nat.le_refl _
  | cons m ms ih => exact Nat.le_trans (m.le_next_perform k) (ih (m.perform k))

/-- **A name stands for the class that was registered last.** -/
theorem class?_run (k : Catalogue) (ms : List Move) (name : String) :
    (k.run ms).registry.class? name =
      ((ms.filterMap (Move.classFor name)).getLast?).or (k.registry.class? name) := by
  induction ms using List.reverseRecOn with
  | nil => rfl
  | append_singleton ms m ih =>
    have hstep : k.run (ms ++ [m]) = m.perform (k.run ms) := run_append k ms [m]
    rw [hstep, Move.class?_perform, ih, List.filterMap_append, List.getLast?_append]
    cases hfor : m.classFor name with
    | none => simp [hfor]
    | some c => simp [hfor]

/-- **An object stays** as long as its name is not registered. -/
theorem object?_run {ms : List Move} (hms : ms.filterMap (Move.classFor name) = [])
    (h : k.registry.object? name = some o) : (k.run ms).registry.object? name = some o := by
  induction ms generalizing k with
  | nil => exact h
  | cons m ms ih =>
    obtain ⟨hfor, hms⟩ := List.forall_mem_cons.mp (List.filterMap_eq_nil_iff.mp hms)
    refine ih (List.filterMap_eq_nil_iff.mpr hms) ?_
    rcases m.object?_perform k name with ⟨-, hsame⟩ | ⟨hsome, -⟩ | ⟨-, hnone, -⟩
    · rw [hsame, h]
    · rw [hfor] at hsome
      cases hsome
    · rw [hnone] at h
      cases h

/-- A name whose object, if there is one, has an identity from `floor` on. -/
def NewFrom (k : Catalogue) (floor : Nat) (name : String) : Prop :=
  floor ≤ k.next ∧ ∀ o, k.registry.object? name = some o → floor ≤ o.id

theorem NewFrom.run {floor : Nat} (h : k.NewFrom floor name) (ms : List Move) :
    (k.run ms).NewFrom floor name := by
  induction ms generalizing k with
  | nil => exact h
  | cons m ms ih =>
    refine ih ⟨Nat.le_trans h.1 (m.le_next_perform k), fun o ho => ?_⟩
    rcases m.object?_perform k name with ⟨-, hsame⟩ | ⟨-, hnone⟩ | ⟨-, -, c, d, -, -, hnew, -⟩
    · rw [hsame] at ho
      exact h.2 o ho
    · rw [hnone] at ho
      cases ho
    · rw [hnew] at ho
      cases ho
      exact h.1

/-- **After its name was registered, an object is new.** -/
theorem le_of_registered {ms : List Move} (hms : ms.filterMap (Move.classFor name) ≠ [])
    (h : (k.run ms).registry.object? name = some o) : k.next ≤ o.id := by
  obtain ⟨c, hc⟩ := List.exists_mem_of_ne_nil _ hms
  obtain ⟨m, hm, hfor⟩ := List.mem_filterMap.mp hc
  have hsome : (m.classFor name).isSome := Option.isSome_of_eq_some hfor
  obtain ⟨before, after, rfl⟩ := List.mem_iff_append.mp hm
  have hfloor : k.next ≤ (m.perform (k.run before)).next :=
    Nat.le_trans (k.le_next_run before) (m.le_next_perform _)
  have hforgotten : (m.perform (k.run before)).NewFrom k.next name := by
    refine ⟨hfloor, fun o ho => ?_⟩
    rcases m.object?_perform (k.run before) name with ⟨hfor, -⟩ | ⟨-, hnone⟩ | ⟨hfor, -⟩
    · rw [hfor] at hsome
      cases hsome
    · rw [hnone] at ho
      cases ho
    · rw [hfor] at hsome
      cases hsome
  rw [run_append] at h
  exact (hforgotten.run after).2 o h

end Catalogue

end SqlFragments
