import SqlFragments.Proofs.Outcomes
import SqlFragments.Proofs.Twins

/-!
# Setters copy on write

A setter that changes nothing gives the fragment itself. Any other gives a new fragment, which is
made of the same parts but for the one field and has kept nothing, and leaves everything else as it
is.

* `Setter`, `Setter.perform`, `Setter.on`: a setter, in a session and on the fields.
  **`Setter.foldl_on`**: of a chain of setters, the last delimiter and the last name count.
  **`Setter.chain`**: what a chain gives.
* `Bench.Unread`: a fragment that was never read. **`Bench.reads_of_twins`**: two of them that are
  made of the same cannot be told apart.
* `Read.SameFor`: the fields that a read depends on are the same.
  **`Read.outcome_of_unread`**: then it gives what it would give for the other fragment, had that
  kept nothing.
* **`Bench.Beside.after`**: whatever is done to a copy, the fragment is read as before.
* **`setters_copy_on_write`**.
-/

namespace SqlFragments

variable {ω : Type}

/-- A setter and the string that it is called with. -/
inductive Setter where
  | joinBy (delimiter : String)
  | setName (name : String)

namespace Setter

def perform (f : Fragment) : Setter → Op ω Fragment
  | joinBy d => f.joinBy (.str d)
  | setName n => f.setName (.str n)

/-- The fragment with the field changed. -/
def on (f : Fragment) : Setter → Fragment
  | joinBy d => { f with delimiter := d }
  | setName n => { f with name := some n }

def delimiter? : Setter → Option String
  | joinBy d => some d
  | setName _ => none

def name? : Setter → Option String
  | joinBy _ => none
  | setName n => some n

/-! ## Chains of setters -/

/-- **The last delimiter and the last name count**, and all else stays. -/
theorem foldl_on (xs : List Setter) (f : Fragment) :
    xs.foldl on f = { f with
      delimiter := (xs.filterMap delimiter?).getLast?.getD f.delimiter
      name := (xs.filterMap name?).getLast?.or f.name } := by
  induction xs generalizing f with
  | nil =>
    cases f
    rfl
  | cons x xs ih =>
    rw [List.foldl_cons, ih]
    cases x with
    | joinBy d =>
      have hdelimiters : (joinBy d :: xs).filterMap delimiter? = d :: xs.filterMap delimiter? := rfl
      have hnames : (joinBy d :: xs).filterMap name? = xs.filterMap name? := rfl
      rw [hdelimiters, hnames, List.getLast?_cons]
      rfl
    | setName n =>
      have hdelimiters : (setName n :: xs).filterMap delimiter? = xs.filterMap delimiter? := rfl
      have hnames : (setName n :: xs).filterMap name? = n :: xs.filterMap name? := rfl
      rw [hdelimiters, hnames, List.getLast?_cons]
      cases (xs.filterMap name?).getLast? <;> rfl

theorem perform_cases (x : Setter) (f : Fragment) (s : Session ω) :
    (x.on f = f ∧ x.perform f s = .ok f s) ∨
      x.perform f s = .ok { x.on f with id := s.freshFragment }
        { s with freshFragment := s.freshFragment + 1 } := by
  cases x with
  | joinBy d =>
    rw [perform, f.joinBy_str]
    split_ifs with hd
    · subst hd
      cases f
      exact .inl ⟨rfl, rfl⟩
    · exact .inr rfl
  | setName n =>
    rw [perform, f.setName_str]
    split_ifs with hn
    · cases f
      cases hn
      exact .inl ⟨rfl, rfl⟩
    · exact .inr rfl

/-- **A chain of setters** gives the fragment itself, or a new one with the fields changed. -/
theorem chain (xs : List Setter) (f : Fragment) (s : Session ω) :
    ∃ g n, xs.foldlM perform f s = .ok g { s with freshFragment := n } ∧
      (xs.foldl on f).Twin g ∧
      (g = f ∧ n = s.freshFragment ∨ s.freshFragment ≤ g.id ∧ g.id < n) := by
  induction xs generalizing f s with
  | nil => exact ⟨f, s.freshFragment, rfl, f.twin_self, .inl ⟨rfl, rfl⟩⟩
  | cons x xs ih =>
    rw [List.foldlM_cons, List.foldl_cons]
    rcases x.perform_cases f s with ⟨hsame, hrun⟩ | hrun
    · rw [Pass.bind_ok hrun, hsame]
      exact ih f s
    · obtain ⟨g, n, hchain, htwin, hid⟩ := ih { x.on f with id := s.freshFragment }
        { s with freshFragment := s.freshFragment + 1 }
      rw [Pass.bind_ok hrun]
      refine ⟨g, n, hchain, ?_, .inr ?_⟩
      · rw [foldl_on] at htwin ⊢
        exact htwin
      · rcases hid with ⟨rfl, rfl⟩ | ⟨hle, hlt⟩
        · exact ⟨Nat.le_refl _, Nat.lt_succ_self _⟩
        · exact ⟨Nat.le_of_succ_le hle, hlt⟩

end Setter

/-! ## Fragments that were never read -/

/-- The fragment has been given its identity, nothing is kept for it, and it is none of the pool. -/
structure Bench.Unread (b : Bench (Session ω)) (g : Fragment) : Prop where
  kept : b.state.caches.get? g.id = none
  given : g.id < b.state.freshFragment
  other : ∀ f ∈ b.pool, f.id ≠ g.id

/-- What a read of the fragment with an index gives. -/
def Bench.reads (host : Host ω) (b : Bench (Session ω)) (i : Nat) (r : Read) :
    Option (Except Failure Answer) :=
  b.pool[i]?.map fun f => outcome (r.perform host f) b.state

/-- **Twins that were never read** cannot be told apart by any history. -/
theorem Bench.reads_of_twins {host : Host ω} (htidy : host.Tidy) {b : Bench (Session ω)} {n : Nat}
    (hb : b.Tidy n) {g g' : Fragment} (hg : b.Unread g) (hg' : b.Unread g') (htwin : g.Twin g')
    (hhost : host.Overlooks g.id g'.id) (ys : List (Act ω)) :
    (after host ⟨b.pool ++ [g], b.state⟩ ys).reads host =
      (after host ⟨b.pool ++ [g'], b.state⟩ ys).reads host := by
  have hpool : List.Forall₂ (InPlace g g') b.pool b.pool :=
    List.forall₂_same.mpr fun f hf => .inr ⟨rfl, hg.other f hf, hg'.other f hf⟩
  have hstart : Bench.Swapped g g' ⟨b.pool ++ [g], b.state⟩ ⟨b.pool ++ [g'], b.state⟩ :=
    ⟨List.rel_append hpool (.cons (.inl ⟨rfl, rfl⟩) .nil), rfl, rfl, rfl, rfl, rfl,
      hb.state.gathered, hg'.kept.trans hg.kept.symm, fun _ _ _ => rfl⟩
  have htidy₀ : Bench.Tidy b.state.freshFragment ⟨b.pool ++ [g], b.state⟩ := by
    refine ⟨⟨Nat.le_refl _, hb.state.unused, hb.state.gathered⟩, fun f hf => ?_⟩
    rcases List.mem_append.mp hf with hf | hf
    · exact hb.below f hf
    · rw [List.mem_singleton.mp hf]
      exact hg.given
  have hafter := after_swapped hhost htwin htidy hg.given hg'.given ys htidy₀ hstart
  funext i r
  exact hafter.read hhost htwin i r

/-- The fields that a read depends on are the same. -/
def Read.SameFor (f g : Fragment) : Read → Prop
  | values => True
  | text | sql | str => g.delimiter = f.delimiter
  | compile _ => g.delimiter = f.delimiter ∧ g.name = f.name

/-- **A fragment that was never read** is read like another one that kept nothing, if they are the
same in what the read depends on. -/
theorem Read.outcome_of_unread {host : Host ω} {f g : Fragment}
    (hhost : host.Overlooks g.id f.id) {t : Session ω} (ht : t.Gathered)
    (hunread : t.caches.get? g.id = none) (hslots : g.slots = f.slots)
    (hsegments : g.segments = f.segments) (hjoined : g.joined = f.joined) {r : Read}
    (hr : r.SameFor f g) :
    outcome (r.perform host g) t = outcome (r.perform host f) (t.forget f) := by
  have hswapped : t.Swapped g.id f.id (t.forget f) := by
    refine ⟨rfl, rfl, rfl, rfl, rfl, ht, ?_, fun k _ hk => ?_⟩
    · rw [hunread, Session.forget, Table.get?_erase, if_pos rfl]
    · rw [Session.forget, Table.get?_erase, if_neg (Ne.symm hk)]
  have hin : r.InStep (Session.Swapped g.id f.id) (fun _ => True) host g f := by
    refine hhost.inStep (.inr ⟨rfl, rfl⟩) hslots (fun hne => ?_) ?_
    · cases r with
      | values => exact absurd rfl hne
      | compile target => exact ⟨hsegments, hr.1, hjoined⟩
      | _ => exact ⟨hsegments, hr, hjoined⟩
    · rintro ⟨target, rfl⟩
      exact hr.2
  exact (hin.swapped (.inl ⟨rfl, rfl⟩)).outcome_eq hswapped

/-! ## What is done to a copy -/

/-- The index of the fragment that a step is about. -/
def Step.index : Step → Nat
  | read i _ => i
  | change i _ => i

section Beside

variable {host : Host ω} {answer : Callable → Fragment → Except Failure Value}
  (hhost : host.Obeys answer) {f g : Fragment} {s : Session ω} {b : Bench (Session ω)}

theorem Read.keeps_cacheOf (hhost : host.LeavesCaches) (hne : g.id ≠ f.id) (c : Cache) (r : Read) :
    Keeps (fun s => s.cacheOf f = c) (r.perform host g) := by
  have hcaches : ∀ {s s' : Session ω}, s'.caches = s.caches → s.cacheOf f = c →
      s'.cacheOf f = c := by
    intro s s' h hs
    rw [Session.cacheOf, h]
    exact hs
  refine keeps_of_getters (fun key d s hs => ?_) (Fragment.values_keeps (fun s hs => ?_) ?_)
    (createDialect_keeps fun _ _ _ _ hs _ => hs) (fun _ hs => hs) r
  · rcases g.memoText_cases (s := s) (hhost.keeps s.caches) key d rfl with
      ⟨text, -, hrun⟩ | ⟨-, ⟨text, s', hs', -, hrun⟩ | ⟨e, s', hs', -, hrun⟩⟩
    · rwa [stateAfter_ok hrun]
    · rw [stateAfter_ok hrun, Session.cacheOf_rememberText, if_neg hne]
      exact hcaches hs' hs
    · rw [stateAfter_error hrun]
      exact hcaches hs' hs
  · rcases g.memoValues_cases (s := s) (hhost.keeps s.caches) rfl with
      ⟨bs, -, hrun⟩ | ⟨-, ⟨bs, s', hs', -, hrun⟩ | ⟨e, s', hs', -, hrun⟩⟩
    · rwa [stateAfter_ok hrun]
    · rw [stateAfter_ok hrun, Session.cacheOf_rememberValues, if_neg hne]
      exact hcaches hs' hs
    · rw [stateAfter_error hrun]
      exact hcaches hs' hs
  · exact fun _ _ hs => hs

/-- A pool with more fragments behind `p`, all with identities given after that of `f`, and a
session in which nothing has changed that reads of `f` depend on. -/
structure Bench.Beside (p : List Fragment) (f : Fragment) (s : Session ω) (b : Bench (Session ω)) :
    Prop where
  pool : ∃ more, b.pool = p ++ more ∧ ∀ g ∈ more, f.id < g.id
  cache : b.state.cacheOf f = s.cacheOf f
  extension : s.Extends b.state

include hhost

theorem Step.perform_extends (y : Step) (b : Bench (Session ω)) :
    b.state.Extends ((Act.step y).perform host b).state := by
  cases y with
  | read i r =>
    rw [Act.perform_read]
    cases b.pool[i]? with
    | none => exact .refl _
    | some g => exact (hhost.sustains_extends b.state).read g r b.state (.refl _)
  | change i c =>
    rw [Act.perform, Step.perform]
    cases b.pool[i]? with
    | none => exact .refl _
    | some g =>
      rcases c.perform_eq (f := g) (s := b.state) rfl with ⟨g', next, happly, hrun⟩ | ⟨-, e, hrun⟩
      · simp only [hrun]
        have hnext : b.state.freshFragment ≤ next := by
          rcases Change.apply_cases happly with ⟨-, rfl⟩ | ⟨d, n, -, rfl⟩
          · exact Nat.le_refl _
          · exact Nat.le_succ _
        exact ⟨hnext, rfl, fun _ _ ho => ho, fun _ hl => ⟨hl, rfl⟩⟩
      · simp only [hrun]
        exact .refl _

/-- **One step about a later fragment** leaves reads of `f` as they are. -/
theorem Bench.Beside.perform {p : List Fragment} (hf : f.id < s.freshFragment)
    (h : b.Beside p f s) {y : Step} (hy : p.length ≤ y.index) :
    ((Act.step y).perform host b).Beside p f s := by
  obtain ⟨⟨more, hpool, hmore⟩, hcache, hextends⟩ := h
  have hmem : ∀ g, b.pool[y.index]? = some g → g ∈ more := by
    intro g hg
    rw [hpool, List.getElem?_append_right hy] at hg
    exact List.mem_of_getElem? hg
  have hextends' := hextends.trans (y.perform_extends hhost b)
  cases y with
  | read i r =>
    rw [Act.perform_read] at hextends' ⊢
    cases hi : b.pool[i]? with
    | none => exact ⟨⟨more, hpool, hmore⟩, hcache, hextends⟩
    | some g =>
      have hne : g.id ≠ f.id := Nat.ne_of_gt (hmore g (hmem g hi))
      rw [hi] at hextends'
      exact ⟨⟨more, hpool, hmore⟩, Read.keeps_cacheOf hhost.leavesCaches hne _ r b.state hcache,
        hextends'⟩
  | change i c =>
    rw [Act.perform, Step.perform] at hextends' ⊢
    cases hi : b.pool[i]? with
    | none => exact ⟨⟨more, hpool, hmore⟩, hcache, hextends⟩
    | some g =>
      rcases c.perform_eq (f := g) (s := b.state) rfl with ⟨g', next, happly, hrun⟩ | ⟨-, e, hrun⟩
      · simp only [hi, hrun] at hextends' ⊢
        have hnew : f.id < g'.id := by
          rcases Change.apply_cases happly with ⟨rfl, -⟩ | ⟨d, n, rfl, -⟩
          · exact hmore g' (hmem g' hi)
          · exact Nat.lt_of_lt_of_le hf hextends.next
        refine ⟨⟨more ++ [g'], by rw [hpool, List.append_assoc], ?_⟩, hcache, hextends'⟩
        exact List.forall_mem_append.mpr ⟨hmore, List.forall_mem_singleton.mpr hnew⟩
      · simp only [hrun]
        exact ⟨⟨more, hpool, hmore⟩, hcache, hextends⟩

theorem Bench.Beside.after {p : List Fragment} (hf : f.id < s.freshFragment)
    (h : b.Beside p f s) {ys : List Step} (hys : ∀ y ∈ ys, p.length ≤ y.index) :
    (after host b (ys.map .step)).Beside p f s := by
  induction ys generalizing b with
  | nil => exact h
  | cons y ys ih =>
    rw [List.forall_mem_cons] at hys
    exact ih (h.perform hhost hf hys.1) hys.2

theorem after_sound (xs : List (Act ω)) (hb : b.state.registry.Sound) :
    (SqlFragments.after host b xs).state.registry.Sound := by
  induction xs generalizing b with
  | nil => exact hb
  | cons x xs ih => exact ih (x.perform_sound hhost hb)

end Beside

/-! ## Sessions that go on -/

/-- All list objects are there that the fragment can come across. -/
def Session.HoldsFor (s : Session ω) (answer : Callable → Fragment → Except Failure Value)
    (f : Fragment) : Prop :=
  ∀ l, (s.reading answer).Reaches [f] (.list l) → s.heap.Holds l

section Extends

variable {answer : Callable → Fragment → Except Failure Value} {f : Fragment} {s t : Session ω}
  (hextends : s.Extends t) (hholds : s.HoldsFor answer f) (depth : Nat)

include hextends

theorem Session.Extends.dialectFor_eq :
    (t.rendering answer depth).dialectFor = (s.rendering answer depth).dialectFor :=
  Rendering.dialectFor_congr hextends.classes

include hholds

theorem Session.Extends.elements_eq (l : ListRef) (hl : (s.reading answer).Reaches [f] (.list l)) :
    (t.reading answer).elements l = (s.reading answer).elements l :=
  (hextends.lists l (hholds l hl)).2

theorem Session.Extends.flatten_eq (d : Dialect) :
    (t.rendering answer depth).flatten d f = (s.rendering answer depth).flatten d f :=
  Reading.flatten_congr (A := s.reading answer) (B := t.reading answer) rfl
    (hextends.elements_eq hholds) depth d

theorem Session.Extends.collect_eq :
    (t.rendering answer depth).collect f = (s.rendering answer depth).collect f := by
  have hpieces : (t.reading answer).pieces depth f = (s.reading answer).pieces depth f :=
    Reading.pieces_congr (A := s.reading answer) (B := t.reading answer) rfl
      (hextends.elements_eq hholds) depth
  change (t.reading answer).collect depth f = (s.reading answer).collect depth f
  rw [Reading.collect_eq_pieces, Reading.collect_eq_pieces, hpieces]

theorem Session.HoldsFor.of_extends : t.HoldsFor answer f := by
  intro l hl
  refine (hextends.lists l (hholds l ?_)).1
  refine hl.of_closed ((s.reading answer).Reaches [f]) ?_ (fun g hg => .member hg)
    fun g id d n hg => .changed id d n hg
  have hclosed := (s.reading answer).closed_reaches [f]
  refine ⟨hclosed.slot, hclosed.item, hclosed.segment, fun r v hr hv => ?_, hclosed.answer⟩
  rw [hextends.elements_eq hholds r hr] at hv
  exact hclosed.element r v hr hv

theorem Rendering.Current.of_extends {c : Cache} (h : (s.rendering answer depth).Current c f) :
    (t.rendering answer depth).Current c f where
  texts key text hkept := by
    obtain ⟨d, hd, htext⟩ := h.texts key text hkept
    refine ⟨d, ?_, (hextends.flatten_eq hholds depth d).trans htext⟩
    cases key with
    | target name => exact (congrFun (hextends.dialectFor_eq depth) name).trans hd
    | text => exact hd
    | sql => exact hd
  values bs hkept := (hextends.collect_eq hholds depth).trans (h.values bs hkept)

end Extends

section Later

variable {host : Host ω} {answer : Callable → Fragment → Except Failure Value}
  (hhost : host.Obeys answer) {f : Fragment} {s : Session ω}

include hhost

/-- **The fragment is read as before.** -/
theorem Read.outcome_of_extends {t : Session ω} (hextends : s.Extends t)
    (hcache : t.cacheOf f = s.cacheOf f) (hsound : s.registry.Sound) (htsound : t.registry.Sound)
    (hs : s.Gathered) (ht : t.Gathered) (hholds : s.HoldsFor answer f) (r : Read) :
    outcome (r.perform host f) t = outcome (r.perform host f) s := by
  have hflatten := hextends.flatten_eq hholds host.depth
  have hcollect := hextends.collect_eq hholds host.depth
  rw [r.outcome_eq hhost htsound ht, r.outcome_eq hhost hsound hs, hcache]
  cases r with
  | compile target =>
    rw [Rendering.read_compile, Rendering.read_compile, hextends.dialectFor_eq, hcollect]
    simp only [hflatten]
  | values => exact congrArg (fun x => Answer.values <$> keptOr _ x) hcollect
  | text => exact congrArg (fun x => Answer.text <$> keptOr _ x) (hflatten _)
  | str => exact congrArg (fun x => Answer.text <$> keptOr _ x) (hflatten _)
  | sql => exact congrArg (fun x => Answer.text <$> keptOr _ x) (hflatten _)

theorem Rendering.Current.perform {b : Bench (Session ω)} (hb : b.Orderly) (hf : f ∈ b.pool)
    (hholds : b.state.HoldsFor answer f)
    (h : (b.state.rendering answer host.depth).Current (b.state.cacheOf f) f) (y : Step) :
    (((Act.step y).perform host b).state.rendering answer host.depth).Current
      (((Act.step y).perform host b).state.cacheOf f) f := by
  refine of_extends (y.perform_extends hhost b) hholds host.depth ?_
  rcases Act.perform_renders hhost hb.registry (.step y) with hcaches | ⟨g, hg, hrenders⟩
  · rwa [Session.cacheOf, hcaches]
  have hsame : g.id = f.id → g = f := hb.identity g hg f hf
  constructor
  · intro key text hkept
    rcases hrenders.texts f key text hkept with hkept | ⟨hid, hnew⟩
    · exact h.texts key text hkept
    · rwa [hsame hid] at hnew
  · intro bs hkept
    rcases hrenders.values f bs hkept with hkept | ⟨hid, hnew⟩
    · exact h.values bs hkept
    · rwa [hsame hid] at hnew

/-- **What is kept stays current** while fragments are read and changed. -/
theorem Rendering.Current.after {b : Bench (Session ω)} (hb : b.Orderly) (hf : f ∈ b.pool)
    (hholds : b.state.HoldsFor answer f)
    (h : (b.state.rendering answer host.depth).Current (b.state.cacheOf f) f) (ys : List Step) :
    ((SqlFragments.after host b (ys.map .step)).state.rendering answer host.depth).Current
      ((SqlFragments.after host b (ys.map .step)).state.cacheOf f) f := by
  induction ys generalizing b with
  | nil => exact h
  | cons y ys ih =>
    exact ih (hb.perform hhost (.step y)) (after_pool hhost [.step y] hf)
      (hholds.of_extends (y.perform_extends hhost b)) (h.perform hhost hb hf hholds y)

end Later

/-! ## Copy on write -/

theorem Host.Obeys.tidy {host : Host ω} {answer : Callable → Fragment → Except Failure Value}
    (hhost : host.Obeys answer) : host.Tidy := by
  intro n c f
  refine hhost.keeps (fun s s' h hs => ⟨?_, fun i hi => ?_, hs.gathered.of_caches h.caches⟩) c f
  · exact Nat.le_trans hs.next h.nextFragment
  · rw [h.caches]
    exact hs.unused i (Nat.le_trans h.nextFragment hi)

/-- **Setters copy on write.** A setter gives the fragment itself if nothing changes, and otherwise
what building a fragment from the same parts and the new field would give; anything but a string is
refused. A chain of setters changes the two fields, of which the last values count. What it gives
was never read: it cannot be told apart from any other fragment of the same parts that was never
read, and it is read as the fragment itself would be, had it kept nothing, as far as the fields
stayed. The fragment is read as before, whatever is done to the copy. -/
theorem setters_copy_on_write {host : Host ω} (htidy : host.Tidy) (memory : ω) (xs : List (Act ω))
    {f : Fragment} (hf : f ∈ (after host (.initial memory) xs).pool) :
    let b := after host (.initial memory) xs
    let s := b.state
    let next := s.freshFragment
    (∀ d, f.joinBy (.str d) s =
      if d = f.delimiter then .ok f s
      else .ok { f with id := next, delimiter := d } { s with freshFragment := next + 1 }) ∧
    (∀ n, f.setName (.str n) s =
      if some n = f.name then .ok f s
      else .ok { f with id := next, name := some n } { s with freshFragment := next + 1 }) ∧
    (∀ d n, Fragment.ofParts f.joined (.ok ⟨f.segments, f.marked, f.slots, d, n⟩) s =
      .ok { f with id := next, delimiter := d, name := n } { s with freshFragment := next + 1 }) ∧
    (∀ v, (∀ d, v ≠ .str d) → f.joinBy v s = .error (.invalid s.heap .delimiter v) s ∧
      f.setName v s = .error (.invalid s.heap .name v) s) ∧
    ∀ zs : List Setter, ∃ g n,
      zs.foldlM Setter.perform f s = .ok g { s with freshFragment := n } ∧
      g = { f with
        id := g.id
        delimiter := (zs.filterMap Setter.delimiter?).getLast?.getD f.delimiter
        name := (zs.filterMap Setter.name?).getLast?.or f.name } ∧
      (g = f ∧ n = next ∨
        (⟨b.pool, { s with freshFragment := n }⟩ : Bench (Session ω)).Unread g) ∧
      (∀ (b' : Bench (Session ω)) g', b'.Tidy 0 → b'.Unread g → b'.Unread g' → g.Twin g' →
        host.Overlooks g.id g'.id → ∀ ys i r,
          (after host ⟨b'.pool ++ [g], b'.state⟩ ys).reads host i r =
            (after host ⟨b'.pool ++ [g'], b'.state⟩ ys).reads host i r) ∧
      (∀ t : Session ω, t.Gathered → t.caches.get? g.id = none → host.Overlooks g.id f.id →
        ∀ r : Read, r.SameFor f g →
          outcome (r.perform host g) t = outcome (r.perform host f) (t.forget f)) ∧
      ∀ answer, host.Obeys answer →
        (∀ t : Session ω, t.Gathered → t.registry.Sound →
          (t.rendering answer host.depth).Current (t.cacheOf f) f → ∀ r : Read,
            outcome (r.perform host f) (t.forget f) = outcome (r.perform host f) t) ∧
        (s.HoldsFor answer f → g.id ≠ f.id → ∀ ys : List Step,
          (∀ y ∈ ys, b.pool.length ≤ y.index) →
            let t := (after host ⟨b.pool ++ [g], { s with freshFragment := n }⟩
              (ys.map .step)).state
            t.cacheOf f = s.cacheOf f ∧
              ∀ r : Read, outcome (r.perform host f) t = outcome (r.perform host f) s) := by
  intro b s next
  have hb : b.Tidy 0 := after_tidy htidy xs (Bench.tidy_initial memory)
  have hbelow : f.id < next := hb.below f hf
  refine ⟨fun d => f.joinBy_str d s, fun n => f.setName_str n s, fun d n => rfl, fun v hv => ?_,
    fun zs => ?_⟩
  · cases v with
    | str d => exact absurd rfl (hv d)
    | _ => exact ⟨rfl, rfl⟩
  obtain ⟨g, n, hchain, htwin, hnew⟩ := Setter.chain zs f s
  rw [Setter.foldl_on] at htwin
  refine ⟨g, n, hchain, htwin, ?_, fun b' g' hb' hg hg' htwin' hhost ys i r => ?_,
    fun t ht hunread hhost r hr => ?_, fun answer hhost => ⟨fun t ht hsound hcurrent r => ?_,
      fun hholds hne ys hys => ?_⟩⟩
  · rcases hnew with hsame | ⟨hle, hlt⟩
    · exact .inl hsame
    · exact .inr ⟨hb.state.unused _ hle, hlt,
        fun f' hf' => Nat.ne_of_lt (Nat.lt_of_lt_of_le (hb.below f' hf') hle)⟩
  · exact congrFun (congrFun (Bench.reads_of_twins htidy hb' hg hg' htwin' hhost ys) i) r
  · refine Read.outcome_of_unread hhost ht hunread ?_ ?_ ?_ hr
    · rw [htwin]
    · rw [htwin]
    · rw [htwin]
  · exact r.outcome_forget hhost hsound ht hcurrent
  · obtain ⟨rfl, -⟩ | ⟨hle, hlt⟩ := hnew
    · exact absurd rfl hne
    intro t
    have horderly := after_orderly hhost (Bench.orderly_initial memory) xs
    have hstart : Bench.Beside b.pool f s ⟨b.pool ++ [g], { s with freshFragment := n }⟩ :=
      ⟨⟨[g], rfl, List.forall_mem_singleton.mpr (Nat.lt_of_lt_of_le hbelow hle)⟩, rfl,
        ⟨Nat.le_of_lt (Nat.lt_of_le_of_lt hle hlt), rfl, fun _ _ ho => ho, fun _ hl => ⟨hl, rfl⟩⟩⟩
    have hbeside := hstart.after hhost hbelow hys
    refine ⟨hbeside.cache, fun r => ?_⟩
    have hgathered : t.Gathered := after_gathered hhost.leavesCaches.gathers
      (b := ⟨b.pool ++ [g], { s with freshFragment := n }⟩) (ys.map .step)
      (hb.state.gathered.of_caches rfl)
    have hsound : t.registry.Sound := after_sound hhost
      (b := ⟨b.pool ++ [g], { s with freshFragment := n }⟩) (ys.map .step) horderly.registry
    exact r.outcome_of_extends hhost hbeside.extension hbeside.cache horderly.registry hsound
      hb.state.gathered hgathered hholds

/-- A joined fragment that was rendered gets another delimiter and then its own again: the copy
renders like the fragment. -/
theorem setters_copy_on_write_back :
    let host : Host Unit := ⟨fun _ _ => pure (.int 7), 1⟩
    let f : Fragment :=
      ⟨0, ["", "", ""], false, [.callable ⟨0, "seven"⟩, .str "x"], ",", none, true⟩
    let xs : List (Act Unit) := [.join (.tuple f.slots) (.str ","), .step (.read 0 .text)]
    let s := (after host (.initial ()) xs).state
    host.Tidy ∧ f ∈ (after host (.initial ()) xs).pool ∧ ∃ g n,
      [Setter.joinBy " AND ", .joinBy ","].foldlM Setter.perform f s =
        .ok g { s with freshFragment := n } ∧
      g.id ≠ f.id ∧ g.joined = true ∧ host.Overlooks g.id f.id ∧ ∀ r : Read,
        outcome (r.perform host g) { s with freshFragment := n } =
          outcome (r.perform host f) s := by
  intro host f xs s
  let answer : Callable → Fragment → Except Failure Value := fun _ _ => .ok (.int 7)
  have hhost : host.Obeys answer := .of_call fun _ _ _ => rfl
  have hoverlooks : ∀ i j, host.Overlooks i j := fun _ _ _ _ _ _ => .pure rfl
  let b₀ := after host (.initial ()) [.join (.tuple f.slots) (.str ",")]
  have hf₀ : f ∈ b₀.pool := List.mem_cons_self
  have hf : f ∈ (after host (.initial ()) xs).pool := after_pool hhost [.step (.read 0 .text)] hf₀
  have hlists : ∀ (A : ListRef → List Value) l, ¬ Reading.Reaches ⟨A, answer⟩ [f] (.list l) := by
    intro A
    refine Reading.not_reaches_list
      (P := fun v => v = .callable ⟨0, "seven"⟩ ∨ v = .str "x" ∨ v = .int 7) ?_ ?_ ?_ ?_ ?_
    · intro g hg v hv
      rw [List.mem_singleton.mp hg] at hv
      rcases List.mem_cons.mp hv with hv | hv
      · exact .inl hv
      · exact .inr (.inl (List.mem_singleton.mp hv))
    · rintro r (h | h | h) <;> cases h
    · rintro g (h | h | h) <;> cases h
    · rintro vs ((h | h | h) | (h | h | h)) <;> cases h
    · intro c g v hv
      cases hv
      exact .inr (.inr rfl)
  have hholds : ∀ t : Session Unit, t.HoldsFor answer f := fun t l hl => absurd hl (hlists _ l)
  have hcurrent : (s.rendering answer host.depth).Current (s.cacheOf f) f := by
    refine Rendering.Current.after hhost (b := b₀)
      (after_orderly hhost (Bench.orderly_initial ()) _) hf₀ (hholds _) ⟨?_, ?_⟩ [.read 0 .text]
    · intro key text hkept
      cases hkept
    · intro bs hkept
      cases hkept
  obtain ⟨hjoinBy, -, -, -, hchains⟩ := setters_copy_on_write hhost.tidy () xs hf
  obtain ⟨g, n, hchain, hg, hnew, -, hlike, hfor⟩ := hchains [.joinBy " AND ", .joinBy ","]
  have hne : g ≠ f := by
    let f₁ : Fragment := { f with id := s.freshFragment, delimiter := " AND " }
    let s₁ : Session Unit := { s with freshFragment := s.freshFragment + 1 }
    have hfirst : Setter.perform f (.joinBy " AND ") s = .ok f₁ s₁ :=
      (hjoinBy " AND ").trans (if_neg (by decide))
    have hsecond : Setter.perform f₁ (.joinBy ",") s₁ =
        .ok { f₁ with id := s.freshFragment + 1, delimiter := "," }
          { s₁ with freshFragment := s.freshFragment + 2 } :=
      (f₁.joinBy_str "," s₁).trans (if_neg (by decide))
    rw [List.foldlM_cons, Pass.bind_ok hfirst, List.foldlM_cons, Pass.bind_ok hsecond] at hchain
    rintro rfl
    injection hchain with hsame
    exact absurd (congrArg Fragment.id hsame) (Nat.succ_ne_zero _)
  obtain ⟨hsame, -⟩ | hunread := hnew
  · exact absurd hsame hne
  have hid : g.id ≠ f.id := (hunread.other f hf).symm
  refine ⟨hhost.tidy, hf, g, n, hchain, hid, by rw [hg], hoverlooks _ _, fun r => ?_⟩
  obtain ⟨hforget, hlater⟩ := hfor answer hhost
  have hgathered : s.Gathered := (after_tidy hhost.tidy xs (Bench.tidy_initial ())).state.gathered
  have hsound : s.registry.Sound :=
    (after_orderly hhost (Bench.orderly_initial ()) xs).registry
  have hsame : r.SameFor f g := by
    rw [hg]
    cases r <;> simp [Read.SameFor, Setter.delimiter?, Setter.name?, f]
  let t : Session Unit := { s with freshFragment := n }
  have ht : t.Gathered := hgathered.of_caches rfl
  have hcopy := hlike t ht hunread.kept (hoverlooks _ _) r hsame
  have hforgotten := hforget t ht hsound hcurrent r
  have hbefore := (hlater (hholds s) hid [] fun y hy => by cases hy).2 r
  exact hcopy.trans (hforgotten.trans hbefore)

end SqlFragments
