import SqlFragments.Fragment.Construction
import SqlFragments.Proofs.Reads

/-!
# Runs over a pool of fragments

Fragments of a pool are read and changed in any order, and what a change gives joins the pool. A
session that keeps what it rendered has the same events as a machine that keeps nothing.

* `Change`, `Change.perform`, `Change.apply`: a change in a session, and what it makes of a
  fragment.
* `Step`, `Event`, `Bench`: what is done to a pool, what comes of it, and what is left.
* `Step.perform`, `Step.afresh`, `runSteps`: a step in a session, a step that keeps nothing, a run.
* `Reading.Reaches`: whatever can come up while fragments of a pool are rendered.
* `Fragment.Renamed`, `Event.Alike`: the same but for the identities of new fragments, which differ
  if callables build fragments as well.
* `Reading.Overlooks`: callables that do not tell such fragments apart.
  **`Rendering.answer_renamed`**: then nor do reads.
* `Host.Answers`, `Bench.Simulates`: the two machines side by side.
* **`Step.perform_simulates`**, **`runSteps_simulates`**: one step, and a whole run.
-/

namespace SqlFragments

variable {ω σ : Type}

/-! ## Changes -/

/-- The same fragment, but for its identity. -/
def Fragment.Twin (f g : Fragment) : Prop := g = { f with id := g.id }

theorem Fragment.twin_self (f : Fragment) : f.Twin f := by
  cases f
  rfl

inductive Change where
  | joinBy (delimiter : Value)
  | setName (name : Value)

def Change.perform (f : Fragment) : Change → Op ω Fragment
  | joinBy v => f.joinBy v
  | setName v => f.setName v

/-- The fragment that a change gives, and the identity that the next new fragment gets. A change to
anything but a string is refused. -/
def Change.apply (next : Nat) (f : Fragment) : Change → Option (Fragment × Nat)
  | joinBy (.str d) =>
    some (if d = f.delimiter then (f, next) else ({ f with id := next, delimiter := d }, next + 1))
  | setName (.str n) =>
    some (if some n = f.name then (f, next) else ({ f with id := next, name := some n }, next + 1))
  | _ => none

section Changes

variable {next : Nat} {s : Session ω} {f : Fragment}

theorem Fragment.joinBy_str (f : Fragment) (d : String) (s : Session ω) :
    f.joinBy (.str d) s =
      if d = f.delimiter then .ok f s
      else .ok { f with id := s.freshFragment, delimiter := d }
        { s with freshFragment := s.freshFragment + 1 } := by
  change (if d = f.delimiter then pure f else _ : Op ω Fragment) s = _
  split_ifs <;> rfl

theorem Fragment.setName_str (f : Fragment) (n : String) (s : Session ω) :
    f.setName (.str n) s =
      if some n = f.name then .ok f s
      else .ok { f with id := s.freshFragment, name := some n }
        { s with freshFragment := s.freshFragment + 1 } := by
  change (if some n = f.name then pure f else _ : Op ω Fragment) s = _
  split_ifs <;> rfl

/-- **A change** gives its fragment and the next identity, or is refused and leaves the session as
it is. -/
theorem Change.perform_eq (c : Change) (hs : s.freshFragment = next) :
    (∃ g next', c.apply next f = some (g, next') ∧
      c.perform f s = .ok g { s with freshFragment := next' }) ∨
    (c.apply next f = none ∧ ∃ e, c.perform f s = .error e s) := by
  subst hs
  cases c with
  | joinBy v =>
    cases v with
    | str d =>
      refine .inl ?_
      rw [perform, f.joinBy_str, apply]
      split_ifs
      · exact ⟨_, _, rfl, rfl⟩
      · exact ⟨_, _, rfl, rfl⟩
    | _ => exact .inr ⟨rfl, _, rfl⟩
  | setName v =>
    cases v with
    | str n =>
      refine .inl ?_
      rw [perform, f.setName_str, apply]
      split_ifs
      · exact ⟨_, _, rfl, rfl⟩
      · exact ⟨_, _, rfl, rfl⟩
    | _ => exact .inr ⟨rfl, _, rfl⟩

/-- A change gives the fragment itself, or one that differs in its identity and in parts that no
slot can see. -/
theorem Change.apply_cases {c : Change} {g : Fragment} {next' : Nat}
    (h : c.apply next f = some (g, next')) :
    (g = f ∧ next' = next) ∨
      ∃ d n, g = { f with id := next, delimiter := d, name := n } ∧ next' = next + 1 := by
  cases c with
  | joinBy v =>
    cases v with
    | str d =>
      rw [apply] at h
      split_ifs at h
      · cases h
        exact .inl ⟨rfl, rfl⟩
      · cases h
        exact .inr ⟨d, f.name, rfl, rfl⟩
    | _ => cases h
  | setName v =>
    cases v with
    | str n =>
      rw [apply] at h
      split_ifs at h
      · cases h
        exact .inl ⟨rfl, rfl⟩
      · cases h
        exact .inr ⟨f.delimiter, some n, rfl, rfl⟩
    | _ => cases h

/-- **A change** is refused for both of two twins, or changes neither, or gives new twins. -/
theorem Change.apply_twin {g : Fragment} (hfg : f.Twin g) (c : Change) (i j : Nat) :
    (c.apply i f = none ∧ c.apply j g = none) ∨
      (c.apply i f = some (f, i) ∧ c.apply j g = some (g, j)) ∨
      ∃ x : Fragment, c.apply i f = some ({ x with id := i }, i + 1) ∧
        c.apply j g = some ({ x with id := j }, j + 1) := by
  rw [hfg]
  cases c with
  | joinBy v =>
    cases v with
    | str d =>
      by_cases hd : d = f.delimiter
      · exact .inr (.inl ⟨by simp [apply, hd], by simp [apply, hd]⟩)
      · refine .inr (.inr ⟨{ f with delimiter := d }, ?_, ?_⟩)
        · simp [apply, hd]
        · simp [apply, hd]
    | _ => exact .inl ⟨rfl, rfl⟩
  | setName v =>
    cases v with
    | str n =>
      by_cases hn : some n = f.name
      · exact .inr (.inl ⟨by simp [apply, hn], by simp [apply, hn]⟩)
      · refine .inr (.inr ⟨{ f with name := some n }, ?_, ?_⟩)
        · simp [apply, hn]
        · simp [apply, hn]
    | _ => exact .inl ⟨rfl, rfl⟩

end Changes

/-! ## Runs -/

/-- A step is about the fragment of the pool with an index; without one, nothing happens. -/
inductive Step where
  | read (i : Nat) (r : Read)
  | change (i : Nat) (c : Change)

/-- What comes of a step. A change that is refused gives no fragment. -/
inductive Event where
  | read (i : Nat) (r : Read) (x : Except Failure Answer)
  | change (i : Nat) (g : Option Fragment)

/-- The fragments so far, and what else is kept. -/
structure Bench (σ : Type) where
  pool : List Fragment
  state : σ

namespace Step

/-- A step in a session. What a change gives joins the pool. -/
def perform (host : Host ω) (b : Bench (Session ω)) : Step → Option Event × Bench (Session ω)
  | read i r =>
    match b.pool[i]? with
    | none => (none, b)
    | some f =>
      match r.perform host f b.state with
      | .ok a s => (some (.read i r (.ok a)), ⟨b.pool, s⟩)
      | .error e s => (some (.read i r (.error e)), ⟨b.pool, s⟩)
  | change i c =>
    match b.pool[i]? with
    | none => (none, b)
    | some f =>
      match c.perform f b.state with
      | .ok g s => (some (.change i (some g)), ⟨b.pool ++ [g], s⟩)
      | .error _ s => (some (.change i none), ⟨b.pool, s⟩)

/-- A step of the machine that keeps nothing but the next identity. -/
def afresh (U : Rendering) (b : Bench Nat) : Step → Option Event × Bench Nat
  | read i r =>
    match b.pool[i]? with
    | none => (none, b)
    | some f => (some (.read i r (U.answer f r)), b)
  | change i c =>
    match b.pool[i]? with
    | none => (none, b)
    | some f =>
      match c.apply b.state f with
      | none => (some (.change i none), b)
      | some (g, next) => (some (.change i (some g)), ⟨b.pool ++ [g], next⟩)

end Step

/-- The events of a run, and what is left. -/
def runSteps (take : Bench σ → Step → Option Event × Bench σ) :
    Bench σ → List Step → List Event × Bench σ
  | b, [] => ([], b)
  | b, x :: xs =>
    ((take b x).1.toList ++ (runSteps take (take b x).2 xs).1, (runSteps take (take b x).2 xs).2)

/-- Whatever can come up while fragments of a pool, or what changes make of them, are rendered. -/
inductive Reading.Reaches (A : Reading) (pool : List Fragment) : Value → Prop
  | member {f : Fragment} (hf : f ∈ pool) : A.Reaches pool (.fragment f)
  | changed {f : Fragment} (id : Nat) (d : String) (n : Option String)
    (hf : A.Reaches pool (.fragment f)) :
    A.Reaches pool (.fragment { f with id := id, delimiter := d, name := n })
  | slot {f : Fragment} {v : Value} (hf : A.Reaches pool (.fragment f)) (hv : v ∈ f.slots) :
    A.Reaches pool v
  | item {vs : List Value} {v : Value} (hvs : A.Reaches pool (.tuple vs)) (hv : v ∈ vs) :
    A.Reaches pool v
  | segment {vs : List Value} {v : Value} (hvs : A.Reaches pool (.segments vs)) (hv : v ∈ vs) :
    A.Reaches pool v
  | element {r : ListRef} {v : Value} (hr : A.Reaches pool (.list r)) (hv : v ∈ A.elements r) :
    A.Reaches pool v
  | answer {c : Callable} {f : Fragment} {v w : Value} (hw : A.Reaches pool w)
    (hcall : w.callable? = some c) (hf : A.Reaches pool (.fragment f))
    (hv : A.answer c f = .ok v) : A.Reaches pool v

theorem Reading.closed_reaches (A : Reading) (pool : List Fragment) :
    A.Closed (A.Reaches pool) where
  slot _ _ hf hv := .slot hf hv
  item _ _ hvs hv := .item hvs hv
  segment _ _ hvs hv := .segment hvs hv
  element _ _ hr hv := .element hr hv
  answer := by
    rintro c f v ⟨w, hw, hcall⟩ hf hv
    exact .answer hw hcall hf hv

/-- Whatever is reached belongs to every set that holds the pool and what can come up from there. -/
theorem Reading.Reaches.of_closed {A : Reading} {pool : List Fragment} (known : Value → Prop)
    (hc : A.Closed known) (hpool : ∀ f ∈ pool, known (.fragment f))
    (hchanged : ∀ f id d n, known (.fragment f) →
      known (.fragment { f with id := id, delimiter := d, name := n }))
    {v : Value} (h : A.Reaches pool v) : known v := by
  induction h with
  | member hf => exact hpool _ hf
  | changed id d n _ ih => exact hchanged _ id d n ih
  | slot _ hv ih => exact hc.slot _ _ ih hv
  | item _ hv ih => exact hc.item _ _ ih hv
  | segment _ hv ih => exact hc.segment _ _ ih hv
  | element _ hv ih => exact hc.element _ _ ih hv
  | answer _ hcall _ hv ihw ihf => exact hc.answer _ _ _ ⟨_, ihw, hcall⟩ ihf hv

theorem Reading.not_reaches_list {A : Reading} {pool : List Fragment} {P : Value → Prop}
    (hpool : ∀ f ∈ pool, ∀ v ∈ f.slots, P v) (hlist : ∀ r, ¬ P (.list r))
    (hslot : ∀ g, P (.fragment g) → ∀ v ∈ g.slots, P v)
    (hitem : ∀ vs, P (.tuple vs) ∨ P (.segments vs) → ∀ v ∈ vs, P v)
    (hanswer : ∀ c f v, A.answer c f = .ok v → P v) (r : ListRef) :
    ¬ A.Reaches pool (.list r) := by
  intro hr
  have hknown : P (.list r) ∨ ∃ g, .list r = Value.fragment g ∧ ∀ w ∈ g.slots, P w := by
    refine hr.of_closed (fun v => P v ∨ ∃ g, v = .fragment g ∧ ∀ w ∈ g.slots, P w) ?_ ?_ ?_
    · constructor
      case slot =>
        rintro f v (hf | ⟨g, hg, hslots⟩) hv
        · exact .inl (hslot f hf v hv)
        · cases hg
          exact .inl (hslots v hv)
      case item =>
        rintro vs v (hvs | ⟨g, hg, -⟩) hv
        · exact .inl (hitem vs (.inl hvs) v hv)
        · cases hg
      case segment =>
        rintro vs v (hvs | ⟨g, hg, -⟩) hv
        · exact .inl (hitem vs (.inr hvs) v hv)
        · cases hg
      case element =>
        rintro r v (hr | ⟨g, hg, -⟩) -
        · exact absurd hr (hlist r)
        · cases hg
      case answer => exact fun c f v _ _ hv => .inl (hanswer c f v hv)
    · exact fun f hf => .inr ⟨f, rfl, hpool f hf⟩
    · rintro f id d n (hf | ⟨g, hg, hslots⟩)
      · exact .inr ⟨_, rfl, hslot f hf⟩
      · cases hg
        exact .inr ⟨_, rfl, hslots⟩
  rcases hknown with hP | ⟨g, hg, -⟩
  · exact hlist r hP
  · cases hg

namespace Session.Sound

variable {U : Rendering} {known : Value → Prop} {pool : List Fragment} {next : Nat → Prop}
  {s : Session ω} {f : Fragment}

theorem again (hs : s.Sound U known pool next) (hf : f ∈ pool) :
    s.Sound U known (pool ++ [f]) next := by
  have hmem : ∀ g ∈ pool ++ [f], g ∈ pool := by
    intro g hg
    rcases List.mem_append.mp hg with hg | hg
    · exact hg
    · rw [List.mem_singleton.mp hg]
      exact hf
  exact ⟨hs.nextFragment, hs.lists, hs.classes, hs.objects,
    fun f hf g hg => hs.identity f (hmem f hf) g (hmem g hg), fun f hf => hs.below f (hmem f hf),
    fun f hf => hs.texts f (hmem f hf), fun f hf => hs.values f (hmem f hf), hs.unused⟩

theorem join (hs : s.Sound U known pool next) (hf : f.id = s.freshFragment) {next' : Nat → Prop}
    (hnext : next' (s.freshFragment + 1)) :
    ({ s with freshFragment := s.freshFragment + 1 } : Session ω).Sound U known (pool ++ [f])
      next' := by
  have hlater := hs.of_spared (s.steady_given (Nat.le_succ s.freshFragment)).toSpared hnext
  have hnone : s.cacheOf f = .empty := by
    rw [cacheOf, hs.unused f.id (Nat.le_of_eq hf.symm)]
    rfl
  constructor
  case nextFragment => exact hnext
  case lists => exact hs.lists
  case classes => exact hs.classes
  case objects => exact hs.objects
  case identity =>
    intro g hg g' hg' hid
    rcases List.mem_append.mp hg with hg | hg <;> rcases List.mem_append.mp hg' with hg' | hg'
    · exact hs.identity g hg g' hg' hid
    · have hlt := hs.below g hg
      rw [List.mem_singleton.mp hg'] at hid
      omega
    · have hlt := hs.below g' hg'
      rw [List.mem_singleton.mp hg] at hid
      omega
    · rw [List.mem_singleton.mp hg, List.mem_singleton.mp hg']
  case below =>
    intro g hg
    rcases List.mem_append.mp hg with hg | hg
    · exact hlater.below g hg
    · rw [List.mem_singleton.mp hg, hf]
      exact Nat.lt_succ_self _
  case texts =>
    intro g hg key text hkept
    change (s.cacheOf g).texts.get? key = some text at hkept
    rcases List.mem_append.mp hg with hg | hg
    · exact hs.texts g hg key text hkept
    · rw [List.mem_singleton.mp hg, hnone] at hkept
      cases hkept
  case values =>
    intro g hg bs hkept
    change (s.cacheOf g).values = some bs at hkept
    rcases List.mem_append.mp hg with hg | hg
    · exact hs.values g hg bs hkept
    · rw [List.mem_singleton.mp hg, hnone] at hkept
      cases hkept
  case unused => exact hlater.unused

end Session.Sound

/-! ## Identities of new fragments -/

/-- The same fragment, or a twin whose identity lies as `ahead` says. -/
def Fragment.Renamed (ahead : Nat → Nat → Prop) (f g : Fragment) : Prop :=
  f = g ∨ ahead f.id g.id ∧ f.Twin g

/-- The same event, but for the identity of the fragment that a change gives. -/
inductive Event.Alike (ahead : Nat → Nat → Prop) : Event → Event → Prop
  | read (i : Nat) (r : Read) (x : Except Failure Answer) :
    Event.Alike ahead (.read i r x) (.read i r x)
  | refused (i : Nat) : Event.Alike ahead (.change i none) (.change i none)
  | changed (i : Nat) {f g : Fragment} (h : f.Renamed ahead g) :
    Event.Alike ahead (.change i (some f)) (.change i (some g))

section Renamed

variable {ahead : Nat → Nat → Prop} {f g : Fragment}

theorem Fragment.Renamed.twin (h : f.Renamed ahead g) : f.Twin g := by
  rcases h with rfl | ⟨-, h⟩
  · exact f.twin_self
  · exact h

theorem Event.Alike.eq {e e' : Event} (h : e.Alike ahead e')
    (hexact : ∀ i j, ahead i j → i = j) : e = e' := by
  cases h with
  | read => rfl
  | refused => rfl
  | @changed i f g h =>
    rcases h with rfl | ⟨hid, h⟩
    · rfl
    · rw [h, ← hexact _ _ hid, ← f.twin_self]

theorem Fragment.Renamed.slots_alike (h : f.Renamed ahead g) :
    List.Forall₂ (Value.Alike (Fragment.Renamed ahead) fun _ => True) f.slots g.slots :=
  Value.Alike.of_eq (by rw [h.twin])

end Renamed

/-- Related lists have related elements at the same places. -/
theorem getElem?_forall₂ {α β : Type} {R : α → β → Prop} {l : List α} {l' : List β}
    (h : List.Forall₂ R l l') (i : Nat) :
    (l[i]? = none ∧ l'[i]? = none) ∨ ∃ a b, l[i]? = some a ∧ l'[i]? = some b ∧ R a b := by
  induction h generalizing i with
  | nil => exact .inl ⟨rfl, rfl⟩
  | cons hab _ ih =>
    cases i with
    | zero => exact .inr ⟨_, _, rfl, rfl, hab⟩
    | succ i => exact ih i

/-- Callables do not tell fragments apart whose identities lie as `ahead` says. -/
def Reading.Overlooks (A : Reading) (ahead : Nat → Nat → Prop) : Prop :=
  ∀ c (f : Fragment) j, ahead f.id j → A.answer c f = A.answer c { f with id := j }

section Overlooked

variable {A : Reading} {ahead : Nat → Nat → Prop} (hA : A.Overlooks ahead)

include hA

theorem Reading.Overlooks.alike (depth : Nat) :
    (A.environment depth).Alike (A.environment depth) Eq (Fragment.Renamed ahead)
      (Fragment.Renamed ahead) (fun _ => True) where
  depth := rfl
  elements _ _ _ hst _ := hst ▸ rfl
  element _ _ _ _ _ _ _ := trivial
  item _ _ _ _ := trivial
  call := by
    intro c f g _ hfg
    have hanswer : A.answer c f = A.answer c g := by
      rcases hfg with rfl | ⟨hid, htwin⟩
      · rfl
      · rw [htwin]
        exact hA c f _ hid
    change Lockstep _ _ (resultOf (A.answer c f)) (resultOf (A.answer c g))
    rw [hanswer]
    exact Corresponds.lockstep (.refl fun v _ => .same trivial)
  self _ _ := .inl rfl

variable {f g : Fragment} (hfg : f.Renamed ahead g) (depth : Nat)

include hfg

theorem Reading.Overlooks.flatten_eq (d : Dialect) : A.flatten depth d f = A.flatten depth d g := by
  refine (((hA.alike depth).statement (fun f g hfg => ?_) hfg (fun f g hfg => ?_) d).corresponds
    rfl).eq
  · exact hfg.slots_alike
  · rw [hfg.twin]
    exact ⟨rfl, rfl, rfl⟩

theorem Reading.Overlooks.collect_eq : A.collect depth f = A.collect depth g := by
  refine ((((hA.alike depth).bindings (fun f g hfg => ?_) hfg).mono fun _ _ hbs =>
    hbs.1).corresponds rfl).eq
  exact hfg.slots_alike

end Overlooked

theorem Rendering.answer_renamed {U : Rendering} {ahead : Nat → Nat → Prop}
    (hU : U.reading.Overlooks ahead) {f g : Fragment} (hfg : f.Renamed ahead g) (r : Read) :
    U.answer f r = U.answer g r := by
  have hflatten : ∀ d, U.flatten d f = U.flatten d g := hU.flatten_eq hfg U.depth
  have hcollect : U.collect f = U.collect g := hU.collect_eq hfg U.depth
  have hname : f.name = g.name := by rw [hfg.twin]
  cases r with
  | text => exact congrArg (· >>= _) (hflatten .postgres)
  | str => exact congrArg (· >>= _) (hflatten .postgres)
  | sql => exact congrArg (· >>= _) (hflatten .mysql)
  | values => exact congrArg (· >>= _) hcollect
  | compile target =>
    rw [answer_compile, answer_compile, hcollect, hname]
    simp only [hflatten]

/-! ## The two machines side by side -/

/-- A session and the machine that keeps nothing have the same pool, but for the identities of new
fragments. It begins with `start`, and the session is sound for it. -/
structure Bench.Simulates (U : Rendering) (start : List Fragment) (ahead : Nat → Nat → Prop)
    (b : Bench (Session ω)) (b' : Bench Nat) : Prop where
  pool : List.Forall₂ (Fragment.Renamed ahead) b.pool b'.pool
  grows : ∃ more, b.pool = start ++ more
  sound : b.state.Sound U (U.reading.Reaches start) b.pool (ahead · b'.state)
  reached : ∀ f ∈ b.pool, U.reading.Reaches start (.fragment f)

/-- In sound sessions, callables answer as the reading says and leave the session sound. They may
use getters themselves. They may also build fragments; then the identities in the session run ahead
of those that the other machine gives, as `ahead` says, and they do not tell these apart. -/
structure Host.Answers (host : Host ω) (U : Rendering) (start : List Fragment)
    (ahead : Nat → Nat → Prop) : Prop where
  follows : ∀ more j, host.environment.Follows U.reading
    (Session.Sound U (U.reading.Reaches start) (start ++ more) (ahead · j))
    (U.reading.Reaches start)
  succ : ∀ i j, ahead i j → ahead (i + 1) (j + 1)
  overlooks : U.reading.Overlooks ahead

section Simulation

variable {host : Host ω} {U : Rendering} {start : List Fragment} {ahead : Nat → Nat → Prop}
  (hdepth : host.depth = U.depth) (hanswers : host.Answers U start ahead)
  {b : Bench (Session ω)} {b' : Bench Nat}

include hdepth hanswers

theorem Step.perform_simulates_read (i : Nat) (r : Read) (h : b.Simulates U start ahead b') :
    List.Forall₂ (Event.Alike ahead) ((read i r).perform host b).1.toList
        ((read i r).afresh U b').1.toList ∧
      ((read i r).perform host b).2.Simulates U start ahead ((read i r).afresh U b').2 := by
  obtain ⟨more, hmore⟩ := h.grows
  rw [perform, afresh]
  rcases getElem?_forall₂ h.pool i with ⟨hi, hj⟩ | ⟨f, g, hi, hj, hfg⟩
  · rw [hi, hj]
    exact ⟨.nil, h⟩
  · have hf := List.mem_of_getElem? hi
    have hfollows := hanswers.follows more b'.state
    rw [← hmore] at hfollows
    obtain ⟨s', hs', hrun⟩ := Read.perform_gives hdepth hfollows (U.reading.closed_reaches start)
      hf (h.reached f hf) r b.state h.sound
    rw [U.answer_renamed hanswers.overlooks hfg] at hrun
    simp only [hi, hj, hrun]
    cases U.answer g r with
    | ok a => exact ⟨.cons (.read i r (.ok a)) .nil, h.pool, h.grows, hs', h.reached⟩
    | error e => exact ⟨.cons (.read i r (.error e)) .nil, h.pool, h.grows, hs', h.reached⟩

omit hdepth in
theorem Step.perform_simulates_change (i : Nat) (c : Change) (h : b.Simulates U start ahead b') :
    List.Forall₂ (Event.Alike ahead) ((change i c).perform host b).1.toList
        ((change i c).afresh U b').1.toList ∧
      ((change i c).perform host b).2.Simulates U start ahead ((change i c).afresh U b').2 := by
  obtain ⟨more, hmore⟩ := h.grows
  rw [perform, afresh]
  rcases getElem?_forall₂ h.pool i with ⟨hi, hj⟩ | ⟨f, g, hi, hj, hfg⟩
  · rw [hi, hj]
    exact ⟨.nil, h⟩
  have hf := List.mem_of_getElem? hi
  have hgrows (f' : Fragment) : ∃ more, b.pool ++ [f'] = start ++ more :=
    ⟨more ++ [f'], by rw [hmore, List.append_assoc]⟩
  have hreached {f' : Fragment} (hf' : U.reading.Reaches start (.fragment f')) :
      ∀ x ∈ b.pool ++ [f'], U.reading.Reaches start (.fragment x) := by
    intro x hx
    rcases List.mem_append.mp hx with hx | hx
    · exact h.reached x hx
    · rw [List.mem_singleton.mp hx]
      exact hf'
  have hperform := c.perform_eq (f := f) (s := b.state) rfl
  rcases c.apply_twin hfg.twin b.state.freshFragment b'.state with
    ⟨hnone, hnone'⟩ | ⟨hsame, hsame'⟩ | ⟨x, hnew, hnew'⟩
  · obtain ⟨f', next', happly, -⟩ | ⟨-, e, hrun⟩ := hperform
    · rw [hnone] at happly
      cases happly
    · simp only [hi, hj, hrun, hnone']
      exact ⟨.cons (.refused i) .nil, h⟩
  · obtain ⟨f', next', happly, hrun⟩ | ⟨happly, -⟩ := hperform <;> rw [hsame] at happly <;>
      cases happly
    simp only [hi, hj, hrun, hsame']
    exact ⟨.cons (.changed i hfg) .nil, List.rel_append h.pool (.cons hfg .nil), hgrows f,
      h.sound.again hf, hreached (h.reached f hf)⟩
  · obtain ⟨f', next', happly, hrun⟩ | ⟨happly, -⟩ := hperform <;> rw [hnew] at happly <;>
      cases happly
    have hx : Fragment.Renamed ahead { x with id := b.state.freshFragment }
        { x with id := b'.state } := .inr ⟨h.sound.nextFragment, rfl⟩
    have hreachedNew : U.reading.Reaches start
        (.fragment { x with id := b.state.freshFragment }) := by
      rcases Change.apply_cases hnew with ⟨hsame, -⟩ | ⟨d, n, hchanged, -⟩
      · rw [hsame]
        exact h.reached f hf
      · rw [hchanged]
        exact .changed _ d n (h.reached f hf)
    simp only [hi, hj, hrun, hnew']
    exact ⟨.cons (.changed i hx) .nil, List.rel_append h.pool (.cons hx .nil), hgrows _,
      h.sound.join rfl (hanswers.succ _ _ h.sound.nextFragment), hreached hreachedNew⟩

/-- **One step** has the same event with and without caches. -/
theorem Step.perform_simulates (x : Step) (h : b.Simulates U start ahead b') :
    List.Forall₂ (Event.Alike ahead) (x.perform host b).1.toList (x.afresh U b').1.toList ∧
      (x.perform host b).2.Simulates U start ahead (x.afresh U b').2 := by
  cases x with
  | read i r => exact perform_simulates_read hdepth hanswers i r h
  | change i c => exact perform_simulates_change hanswers i c h

/-- **A whole run** has the same events with and without caches. -/
theorem runSteps_simulates (xs : List Step) (h : b.Simulates U start ahead b') :
    List.Forall₂ (Event.Alike ahead) (runSteps (Step.perform host) b xs).1
        (runSteps (Step.afresh U) b' xs).1 ∧
      (runSteps (Step.perform host) b xs).2.Simulates U start ahead
        (runSteps (Step.afresh U) b' xs).2 := by
  induction xs generalizing b b' with
  | nil => exact ⟨.nil, h⟩
  | cons x xs ih =>
    obtain ⟨hevent, hnext⟩ := x.perform_simulates hdepth hanswers h
    obtain ⟨hevents, hlast⟩ := ih hnext
    rw [runSteps, runSteps]
    exact ⟨List.rel_append hevent hevents, hlast⟩

theorem Bench.Simulates.outcome_statement {b : Bench (Session ω)} {b' : Bench Nat}
    (h : b.Simulates U start ahead b') {f : Fragment} (hf : f ∈ b.pool) (d : Dialect) :
    outcome (f.statement host.environment d) b.state = U.flatten d f := by
  obtain ⟨more, hmore⟩ := h.grows
  have hfollows := hanswers.follows more b'.state
  rw [← hmore] at hfollows
  rw [Rendering.flatten, ← hdepth]
  exact (hfollows.statement (U.reading.closed_reaches start) (h.reached f hf) d).outcome_eq h.sound

end Simulation

end SqlFragments
