import SqlFragments.Proofs.Runs
import SqlFragments.Proofs.Walkthrough

/-!
# Caching makes no difference

Whatever a session has kept, a run over a pool of fragments has the events of the machine that keeps
nothing, but for the identities of new fragments. There, the answer to a read depends on nothing but
the fragment.

* `Step.isChange`, `Event.isChange`: the steps that the pool depends on.
* **`runSteps_afresh_changes`**: without the reads, the changes come to the same.
* **`GetterKey.label_injective`**: the keys under which results are kept are told apart.
* `Session.Starts`: a session in which nothing is kept yet.
* `Host.answers_of_undisturbed`, **`Host.Obeys.answers`**: callables that build nothing, and those
  that may build fragments.
* `People.reading`: what the host of the walkthrough answers.
* **`Host.Answers.answer_of_mem`**: whatever is read is what the reading gives.
* **`caching_transparent`**: the log of a run, and what follows for the order of reads.
-/

namespace SqlFragments

variable {ω : Type}

/-! ## The order of reads -/

def Step.isChange : Step → Bool
  | read _ _ => false
  | change _ _ => true

def Event.isChange : Event → Bool
  | read _ _ _ => false
  | change _ _ => true

section Order

variable {U : Rendering} {b : Bench Nat}

theorem Step.afresh_read (i : Nat) (r : Read) : ((Step.read i r).afresh U b).2 = b := by
  rw [afresh]
  cases b.pool[i]? <;> rfl

theorem Step.afresh_change (i : Nat) (c : Change) :
    (∀ e ∈ ((Step.change i c).afresh U b).1, e.isChange = true) ∧
      ∃ more, ((Step.change i c).afresh U b).2.pool = b.pool ++ more := by
  have hsame : b.pool = b.pool ++ [] := (List.append_nil _).symm
  rw [afresh]
  cases b.pool[i]? with
  | none =>
    refine ⟨fun e he => ?_, [], hsame⟩
    cases he
  | some f =>
    cases happly : c.apply b.state f with
    | none =>
      simp only [happly]
      refine ⟨fun e he => ?_, [], hsame⟩
      cases he
      rfl
    | some gn =>
      simp only [happly]
      refine ⟨fun e he => ?_, [gn.1], rfl⟩
      cases he
      rfl

theorem Step.afresh_grows (x : Step) : ∃ more, (x.afresh U b).2.pool = b.pool ++ more := by
  cases x with
  | read i r => exact ⟨[], by rw [afresh_read, List.append_nil]⟩
  | change i c => exact (afresh_change i c).2

theorem runSteps_afresh_changes (xs : List Step) :
    (runSteps (Step.afresh U) b (xs.filter Step.isChange)).1 =
        (runSteps (Step.afresh U) b xs).1.filter Event.isChange ∧
      (runSteps (Step.afresh U) b (xs.filter Step.isChange)).2 =
        (runSteps (Step.afresh U) b xs).2 := by
  induction xs generalizing b with
  | nil => exact ⟨rfl, rfl⟩
  | cons x xs ih =>
    cases x with
    | read i r =>
      have hevent : ((Step.read i r).afresh U b).1.toList.filter Event.isChange = [] := by
        rw [Step.afresh]
        cases b.pool[i]? <;> rfl
      rw [List.filter_cons_of_neg (by simp [Step.isChange]), runSteps, List.filter_append, hevent,
        Step.afresh_read]
      exact ih
    | change i c =>
      have hevent : ((Step.change i c).afresh U b).1.toList.filter Event.isChange =
          ((Step.change i c).afresh U b).1.toList :=
        List.filter_eq_self.mpr fun e he =>
          (Step.afresh_change i c).1 e (Option.mem_toList.mp he)
      obtain ⟨hevents, hlast⟩ := ih (b := ((Step.change i c).afresh U b).2)
      rw [List.filter_cons_of_pos (by simp [Step.isChange]), runSteps, runSteps, List.filter_append,
        hevent, hevents, hlast]
      exact ⟨rfl, rfl⟩

theorem runSteps_afresh_grows (xs : List Step) :
    ∃ more, (runSteps (Step.afresh U) b xs).2.pool = b.pool ++ more := by
  induction xs generalizing b with
  | nil => exact ⟨[], (List.append_nil _).symm⟩
  | cons x xs ih =>
    obtain ⟨more, hmore⟩ := x.afresh_grows (U := U) (b := b)
    obtain ⟨more', hmore'⟩ := ih (b := (x.afresh U b).2)
    exact ⟨more ++ more', by rw [runSteps, hmore', hmore, List.append_assoc]⟩

theorem answer_of_mem_runSteps {xs : List Step} {i : Nat} {r : Read} {x : Except Failure Answer}
    (h : .read i r x ∈ (runSteps (Step.afresh U) b xs).1) :
    ∃ f, (runSteps (Step.afresh U) b xs).2.pool[i]? = some f ∧ x = U.answer f r := by
  induction xs generalizing b with
  | nil => cases h
  | cons y ys ih =>
    rw [runSteps] at h ⊢
    rcases List.mem_append.mp h with hy | hys
    · cases y with
      | read j r' =>
        rw [Step.afresh] at hy
        cases hj : b.pool[j]? with
        | none =>
          rw [hj] at hy
          cases hy
        | some f =>
          rw [hj] at hy
          cases List.mem_singleton.mp hy
          obtain ⟨more, hmore⟩ := runSteps_afresh_grows (U := U) (b := b) ys
          refine ⟨f, ?_, rfl⟩
          obtain ⟨hlt, -⟩ := List.getElem?_eq_some_iff.mp hj
          change (runSteps (Step.afresh U) ((Step.read i r).afresh U b).2 ys).2.pool[i]? = some f
          rw [Step.afresh_read, hmore, List.getElem?_append_left hlt, hj]
      | change j c => cases (Step.afresh_change j c).1 _ (Option.mem_toList.mp hy)
    · exact ih hys

end Order

/-! ## Keys -/

theorem target_label_ne {name s : String} (hs : s.toList.head? ≠ some 'c') :
    (GetterKey.text (.target name)).label ≠ s := by
  intro h
  apply hs
  rw [← h, GetterKey.label, String.toList_append]
  rfl

/-- **Results are kept under keys that are told apart** by the text of the key alone. -/
theorem GetterKey.label_injective {k k' : GetterKey} (h : k.label = k'.label) : k = k' := by
  rcases k with (_ | _ | name) | _ <;> rcases k' with (_ | _ | name') | _
  case text.target.text.target =>
    have hname : name = name' := String.append_right_inj _ |>.mp h
    rw [hname]
  case text.target.text.text => exact absurd h (target_label_ne (by decide))
  case text.target.text.sql => exact absurd h (target_label_ne (by decide))
  case text.target.values => exact absurd h (target_label_ne (by decide))
  case text.text.text.target => exact absurd h.symm (target_label_ne (by decide))
  case text.sql.text.target => exact absurd h.symm (target_label_ne (by decide))
  case values.text.target => exact absurd h.symm (target_label_ne (by decide))
  -- the three getters have labels of their own
  all_goals first | rfl | exact absurd h (by decide)

/-! ## Where a run starts -/

/-- A session in which nothing is kept yet. What slots hold is as the reading says, fragments of the
pool are told apart by their identities, and objects of dialects are of the registered classes. -/
structure Session.Starts (U : Rendering) (pool : List Fragment) (s : Session ω) : Prop where
  lists : ∀ r, U.reading.Reaches pool (.list r) →
    s.heap.Holds r ∧ s.heap.elements r = U.reading.elements r
  registry : s.registry = U.registry
  objects : ∀ name o, s.registry.object? name = some o → U.dialectFor name = .ok o.dialect
  identity : ∀ f ∈ pool, ∀ g ∈ pool, f.id = g.id → f = g
  below : ∀ f ∈ pool, f.id < s.freshFragment
  caches : s.caches = .empty

theorem Session.Starts.sound {U : Rendering} {pool : List Fragment} {s : Session ω}
    (h : s.Starts U pool) {next : Nat → Prop} (hnext : next s.freshFragment) :
    s.Sound U (U.reading.Reaches pool) pool next := by
  have hnone : ∀ f, s.cacheOf f = .empty := by
    intro f
    rw [cacheOf, h.caches]
    rfl
  constructor
  case nextFragment => exact hnext
  case lists => exact h.lists
  case classes => rw [h.registry]
  case objects => exact h.objects
  case identity => exact h.identity
  case below => exact h.below
  case texts =>
    intro f _ key text hkept
    rw [hnone] at hkept
    cases hkept
  case values =>
    intro f _ bs hkept
    rw [hnone] at hkept
    cases hkept
  case unused =>
    intro i _
    rw [h.caches]
    rfl

theorem Session.Starts.simulates {U : Rendering} {pool : List Fragment} {s : Session ω}
    (h : s.Starts U pool) {ahead : Nat → Nat → Prop}
    (hahead : ahead s.freshFragment s.freshFragment) :
    (⟨pool, s⟩ : Bench (Session ω)).Simulates U pool ahead ⟨pool, s.freshFragment⟩ :=
  ⟨List.forall₂_same.mpr fun _ _ => .inl rfl, ⟨[], (List.append_nil pool).symm⟩, h.sound hahead,
    fun _ hf => .member hf⟩

theorem Session.starts_initial (memory : ω) {A : Reading} {pool : List Fragment} {n : Nat}
    (hids : (pool.map Fragment.id).Nodup) (hbelow : ∀ f ∈ pool, f.id < n)
    (hlists : ∀ r, ¬ A.Reaches pool (.list r)) (depth : Nat) :
    ({ Session.initial memory with freshFragment := n } : Session ω).Starts ⟨A, depth, .initial⟩
      pool where
  lists r hr := absurd hr (hlists r)
  registry := rfl
  objects := by
    intro name o ho
    cases ho
  identity := fun _ hf _ hg => List.inj_on_of_nodup_map hids hf hg
  below := hbelow
  caches := rfl

theorem Host.answers_of_undisturbed {host : Host ω} {U : Rendering}
    (h : ∀ c f s, ∃ s', s.Undisturbed s' ∧ host.call c f s = resultOf (U.reading.answer c f) s')
    (pool : List Fragment) : host.Answers U pool Eq where
  follows more j := by
    constructor
    · intro s r hs hr
      exact (hs.lists r hr).2
    · intro s c f hs _ _
      obtain ⟨s', hs', hcall⟩ := h c f s
      exact ⟨_, s', hs.of_undisturbed hs', .standsFor _, hcall⟩
  succ i j h := congrArg Nat.succ h
  overlooks := by
    rintro c f _ rfl
    rw [← f.twin_self]

/-- Both identities are given to fragments that are built from `n` on. -/
def GivenFrom (n i j : Nat) : Prop := n ≤ i ∧ n ≤ j

/-- **Callables may build fragments**, if they do not tell apart the fragments built from now on. -/
theorem Host.Obeys.answers {host : Host ω} {U : Rendering} (h : host.Obeys U.reading.answer)
    {n : Nat} (hU : U.reading.Overlooks (GivenFrom n)) (pool : List Fragment) :
    host.Answers U pool (GivenFrom n) where
  follows more j := by
    constructor
    · intro s r hs hr
      exact (hs.lists r hr).2
    · intro s c f hs _ _
      obtain ⟨x, s', hs', hx, hcall⟩ := h c f s
      have hnext : GivenFrom n s'.freshFragment j :=
        ⟨Nat.le_trans hs.nextFragment.1 hs'.nextFragment, hs.nextFragment.2⟩
      exact ⟨x, s', hs.of_spared hs'.toSpared hnext, hx, hcall⟩
  succ i j h := ⟨Nat.le_succ_of_le h.1, Nat.le_succ_of_le h.2⟩
  overlooks := hU

/-! ## The host of the walkthrough -/

section Walkthrough

variable (p : People)

/-- What the host answers, where no list objects are held. -/
def People.reading : Reading := ⟨fun _ => [], p.reply⟩

/-- The host does not tell apart the fragments that are built after the two queries. -/
theorem People.overlooks {n : Nat} (hfirst : p.condition.first.id < n)
    (hsecond : p.condition.second.id < n) : p.reading.Overlooks (GivenFrom n) := by
  have hnull : ∀ owner : Fragment, n ≤ owner.id → p.condition.reply owner = .null := by
    intro owner howner
    rw [NameCondition.reply, if_neg (by omega), if_neg (by omega)]
  rintro c f i ⟨hf, hi⟩
  change p.reply c f = p.reply c { f with id := i }
  rw [reply, reply, hnull f hf, hnull _ hi]

/-- No list objects come up for queries, and for statements that have queries in their slots. -/
theorem People.not_reaches_list {pool : List Fragment}
    (hpool : ∀ f ∈ pool, ∀ v ∈ f.slots, (∃ c, v = .callable c) ∨
      ∃ g, v = .fragment g ∧ ∀ w ∈ g.slots, ∃ c, w = .callable c) (r : ListRef) :
    ¬ p.reading.Reaches pool (.list r) := by
  refine p.reading.not_reaches_list (P := fun v => (∃ c, v = .callable c) ∨
    (∃ g, v = .fragment g ∧ ∀ w ∈ g.slots, ∃ c, w = .callable c) ∨ (∃ t, v = .str t) ∨
      v = .null ∨ v = .fragment NameCondition.alternatives) ?_ ?_ ?_ ?_ ?_ r
  · exact fun f hf v hv => (hpool f hf v hv).imp_right .inl
  · rintro r (⟨c, h⟩ | ⟨g, h, -⟩ | ⟨t, h⟩ | h | h) <;> cases h
  · rintro g (⟨c, h⟩ | ⟨g, h, hslots⟩ | ⟨t, h⟩ | h | h) v hv <;> cases h
    · exact .inl (hslots v hv)
    · rcases List.mem_cons.mp hv with rfl | hv
      · exact .inr (.inr (.inl ⟨_, rfl⟩))
      · exact .inr (.inr (.inl ⟨_, List.mem_singleton.mp hv⟩))
  · rintro vs (h | h) <;> obtain ⟨c, h⟩ | ⟨g, h, -⟩ | ⟨t, h⟩ | h | h := h <;> cases h
  · intro c f v hv
    change p.reply c f = .ok v at hv
    rw [reply] at hv
    split_ifs at hv
    cases hv
    rw [NameCondition.reply]
    split_ifs
    · exact .inr (.inr (.inl ⟨_, rfl⟩))
    · exact .inr (.inr (.inr (.inr rfl)))
    · exact .inr (.inr (.inr (.inl rfl)))

end Walkthrough

/-! ## Transparency -/

/-- The changes of a log are alike those that the other machine makes without the reads. -/
theorem changes_alike {ahead : Nat → Nat → Prop} {es : List Event} {U : Rendering} {b : Bench Nat}
    {xs : List Step} (h : List.Forall₂ (Event.Alike ahead) es (runSteps (Step.afresh U) b xs).1) :
    List.Forall₂ (Event.Alike ahead) (es.filter Event.isChange)
      (runSteps (Step.afresh U) b (xs.filter Step.isChange)).1 := by
  rw [(runSteps_afresh_changes xs).1]
  refine List.rel_filter (fun e e' he => ?_) h
  cases he <;> exact Iff.rfl

theorem mem_of_alike {ahead : Nat → Nat → Prop} {es es' : List Event}
    (h : List.Forall₂ (Event.Alike ahead) es es') {i : Nat} {r : Read}
    {x : Except Failure Answer} (hx : .read i r x ∈ es) : .read i r x ∈ es' := by
  induction h with
  | nil => cases hx
  | cons he _ ih =>
    rcases List.mem_cons.mp hx with rfl | hx
    · cases he
      exact List.mem_cons_self
    · exact List.mem_cons_of_mem _ (ih hx)

theorem eq_of_alike {ahead : Nat → Nat → Prop} (hexact : ∀ i j, ahead i j → i = j)
    {es es' : List Event} (h : List.Forall₂ (Event.Alike ahead) es es') : es = es' := by
  have heq := h.imp fun _ _ he => he.eq hexact
  rwa [List.forall₂_eq_eq_eq] at heq

/-- **Whatever is read in a run** is what the reading gives for the fragment of the session. -/
theorem Host.Answers.answer_of_mem {host : Host ω} {U : Rendering} {pool : List Fragment}
    {s : Session ω} {ahead : Nat → Nat → Prop} (hanswers : host.Answers U pool ahead)
    (hdepth : host.depth = U.depth) (hs : s.Starts U pool)
    (hahead : ahead s.freshFragment s.freshFragment) {xs : List Step} {i : Nat} {r : Read}
    {x : Except Failure Answer} {f : Fragment}
    (hx : .read i r x ∈ (runSteps (Step.perform host) ⟨pool, s⟩ xs).1)
    (hf : (runSteps (Step.perform host) ⟨pool, s⟩ xs).2.pool[i]? = some f) :
    x = U.answer f r := by
  obtain ⟨hevents, hlast⟩ := runSteps_simulates hdepth hanswers xs (hs.simulates hahead)
  obtain ⟨g, hg, rfl⟩ := answer_of_mem_runSteps (mem_of_alike hevents hx)
  rcases getElem?_forall₂ hlast.pool i with ⟨hnone, -⟩ | ⟨f', g', hf', hg', hfg⟩
  · rw [hf] at hnone
    cases hnone
  · rw [hf] at hf'
    rw [hg] at hg'
    cases hf'
    cases hg'
    exact (U.answer_renamed hanswers.overlooks hfg r).symm

/-- **Caching makes no difference.** A run has the events of the machine that keeps nothing, but for
the identities of new fragments if callables build fragments as well. So reads may change places or
be left out, keys are told apart, and the built-in dialects give two statements only. -/
theorem caching_transparent {host : Host ω} {U : Rendering} {pool : List Fragment} {s : Session ω}
    {ahead : Nat → Nat → Prop} (hdepth : host.depth = U.depth)
    (hanswers : host.Answers U pool ahead) (hs : s.Starts U pool)
    (hahead : ahead s.freshFragment s.freshFragment) :
    let log := fun xs => (runSteps (Step.perform host) ⟨pool, s⟩ xs).1
    let afresh := fun xs => (runSteps (Step.afresh U) ⟨pool, s.freshFragment⟩ xs).1
    (∀ xs, List.Forall₂ (Event.Alike ahead) (log xs) (afresh xs)) ∧
    (∀ xs ys, xs.filter Step.isChange = ys.filter Step.isChange →
      (∃ es, List.Forall₂ (Event.Alike ahead) ((log xs).filter Event.isChange) es ∧
        List.Forall₂ (Event.Alike ahead) ((log ys).filter Event.isChange) es) ∧
      ∀ i r x y, .read i r x ∈ log xs → .read i r y ∈ log ys → x = y) ∧
    ((∀ i j, ahead i j → i = j) →
      (∀ xs, log xs = afresh xs) ∧
      ∀ xs ys, xs.filter Step.isChange = ys.filter Step.isChange →
        (log xs).filter Event.isChange = (log ys).filter Event.isChange) ∧
    (∀ k k' : GetterKey, k.label = k'.label → k = k') ∧
    (U.registry.classes = Registry.initial.classes →
      ∀ rs ∈ sameStatement, ∀ r ∈ rs, ∀ r' ∈ rs, ∀ xs i x y,
        .read i r x ∈ log xs → .read i r' y ∈ log xs →
          Answer.statement? <$> x = Answer.statement? <$> y) := by
  intro log afresh
  have hlog : ∀ xs, List.Forall₂ (Event.Alike ahead) (log xs) (afresh xs) := by
    intro xs
    exact (runSteps_simulates hdepth hanswers xs (hs.simulates hahead)).1
  have hchanges : ∀ xs, List.Forall₂ (Event.Alike ahead) ((log xs).filter Event.isChange)
      (afresh (xs.filter Step.isChange)) := fun xs => changes_alike (hlog xs)
  refine ⟨hlog, ?_, fun hexact => ⟨fun xs => eq_of_alike hexact (hlog xs), ?_⟩,
    fun _ _ => GetterKey.label_injective, ?_⟩
  · intro xs ys hsame
    refine ⟨⟨_, hchanges xs, hsame ▸ hchanges ys⟩, fun i r x y hx hy => ?_⟩
    obtain ⟨f, hf, rfl⟩ := answer_of_mem_runSteps (mem_of_alike (hlog xs) hx)
    obtain ⟨g, hg, rfl⟩ := answer_of_mem_runSteps (mem_of_alike (hlog ys) hy)
    rw [← (runSteps_afresh_changes xs).2, hsame, (runSteps_afresh_changes ys).2, hg] at hf
    cases hf
    rfl
  · intro xs ys hsame
    rw [eq_of_alike hexact (hchanges xs), hsame, ← eq_of_alike hexact (hchanges ys)]
  · intro hbuiltin rs hrs r hr r' hr' xs i x y hx hy
    obtain ⟨f, hf, rfl⟩ := answer_of_mem_runSteps (mem_of_alike (hlog xs) hx)
    obtain ⟨g, hg, rfl⟩ := answer_of_mem_runSteps (mem_of_alike (hlog xs) hy)
    rw [hf] at hg
    cases hg
    exact U.statement_builtin hbuiltin hrs hr hr'

/-- The callable of the walkthrough builds a fragment each time the second query asks it. The query
is read before and after a statement with both queries is changed. The change comes after one
fragment was built. -/
theorem caching_transparent_callable :
    let query : Nat → Fragment := fun id =>
      .ofPieces id ["SELECT * FROM people WHERE name = ", ""] [.callable ⟨0, "name_condition"⟩]
    let select : Fragment := .ofPieces 2 ["WITH me AS (", "), my_friends AS (", ")"]
      [.fragment (query 0), .fragment (query 1)]
    let table : Fragment := .ofPieces 3 ["people"] []
    let people : People := ⟨table, table, select, ⟨0, "name_condition"⟩, query 0, query 1⟩
    let host := peopleHost people
    let U : Rendering := ⟨people.reading, nestingLimit, .initial⟩
    let pool := [query 0, query 1, select]
    let s : Session Unit := { Session.initial () with freshFragment := 4 }
    let steps : List Step :=
      [.read 1 .text, .change 2 (.joinBy (.str ",")), .read 1 .text, .read 2 .values]
    let text : Event :=
      .read 1 .text (.ok (.text "SELECT * FROM people WHERE name = $1 OR name = $2"))
    let changed : Nat → Event := fun id =>
      .change 2 (some { select with id := id, delimiter := "," })
    let values : Event := .read 2 .values
      (.ok (.values [.scalar (.str "Andrew"), .scalar (.str "Peter"), .scalar (.str "Wendy")]))
    let log := (runSteps (Step.perform host) ⟨pool, s⟩ steps).1
    let afresh := (runSteps (Step.afresh U) ⟨pool, s.freshFragment⟩ steps).1
    host.depth = U.depth ∧ host.Answers U pool (GivenFrom 4) ∧ s.Starts U pool ∧
      GivenFrom 4 s.freshFragment s.freshFragment ∧
      List.Forall₂ (Event.Alike (GivenFrom 4)) log afresh ∧
      log = [text, changed 5, text, values] ∧ afresh = [text, changed 4, text, values] := by
  intro query select table people host U pool s steps text changed values log afresh
  have hanswers : host.Answers U pool (GivenFrom 4) :=
    (peopleHost_obeys people).answers (people.overlooks (by decide) (by decide)) pool
  have hquery : ∀ id, ∀ v ∈ (query id).slots, ∃ c, v = .callable c :=
    fun _ _ hv => ⟨_, List.mem_singleton.mp hv⟩
  have hslots : ∀ f ∈ pool, ∀ v ∈ f.slots, (∃ c, v = .callable c) ∨
      ∃ g, v = .fragment g ∧ ∀ w ∈ g.slots, ∃ c, w = .callable c := by
    intro f hf v hv
    rcases List.mem_cons.mp hf with rfl | hf
    · exact .inl (hquery 0 v hv)
    rcases List.mem_cons.mp hf with rfl | hf
    · exact .inl (hquery 1 v hv)
    rw [List.mem_singleton.mp hf] at hv
    rcases List.mem_cons.mp hv with rfl | hv
    · exact .inr ⟨_, rfl, hquery 0⟩
    · exact .inr ⟨_, List.mem_singleton.mp hv, hquery 1⟩
  have hs : s.Starts U pool := Session.starts_initial () (by decide) (by decide)
    (people.not_reaches_list hslots) nestingLimit
  have hahead : GivenFrom 4 s.freshFragment s.freshFragment := ⟨Nat.le_refl 4, Nat.le_refl 4⟩
  have halike := (caching_transparent rfl hanswers hs hahead).1 steps
  refine ⟨rfl, hanswers, hs, hahead, halike, ?_⟩
  -- both runs are evaluated, which takes closed terms
  subst log afresh steps pool U host s people table select query
  exact ⟨rfl, rfl⟩

end SqlFragments
