import Mathlib.Data.List.Count
import SqlFragments.Proofs.OwnCache

/-!
# Each time a fragment is gone through

A fragment that occurs more than once is gone through as often, and each time its callables are
called again.

* `FragmentVisits`: the calls of a fragment, with the fragments that are gone through.
* `Fragment.ownCalls`: the calls of the callables that a fragment holds in its slots, or in
  sequences in its slots. `Brought`: calls of what a callable answered.
* **`FragmentVisits.accounted`**, **`FragmentVisits.count`**: each callable is called each time.
* `Oracle.host`: callables in a session that are answered by an oracle.
* `SucceedsWith`: a pass that succeeds if another one does.
* **`Oracle.CallsEachTime`**, **`Fragment.memoText_visits`**, **`Fragment.memoValues_visits`**: the
  getters.
* **`passes_keep_to_their_cache`**.
-/

namespace SqlFragments

variable {σ α β γ δ : Type}

/-! ## Going through a fragment -/

/-- One after the other, with all that they give. -/
def AllInTurn (P : α → Transcript → Except Failure (List β) → Prop) :
    List α → Transcript → Except Failure (List β) → Prop
  | [] => Silent (.ok [])
  | a :: as =>
    Followed (P a) fun bs => Followed (AllInTurn P as) fun more => Silent (.ok (bs ++ more))

/-- The calls of a fragment, with the fragments that are gone through: first the fragment itself,
then slot by slot those that it holds, each time that it holds them. -/
def FragmentVisits (elements : ListRef → List Value) :
    (depth : Nat) → Fragment → Transcript → Except Failure (List Fragment) → Prop
  | 0, _ => Silent (.error .tooDeep)
  | n + 1, f =>
    Followed (AllInTurn (fun v => Followed (SlotSettles f elements v)
        (AllInTurn (FragmentVisits elements n))) f.slots) fun visits => Silent (.ok (f :: visits))

theorem InTurn.all {P : α → Transcript → Except Failure Unit → Prop}
    {Q : α → Transcript → Except Failure (List β) → Prop}
    (hPQ : ∀ a log, P a log (.ok ()) → ∃ bs, Q a log (.ok bs)) {as : List α} {log : Transcript}
    (h : InTurn P as log (.ok ())) : ∃ bs, AllInTurn Q as log (.ok bs) := by
  induction as generalizing log with
  | nil => exact ⟨[], h.1, rfl⟩
  | cons a as ih =>
    cases h with
    | on hfirst hrest =>
      obtain ⟨bs, hbs⟩ := hPQ a _ hfirst
      obtain ⟨more, hmore⟩ := ih hrest
      exact ⟨bs ++ more, .on hbs (.on_silent (g := fun more => .ok (bs ++ more)) hmore)⟩

theorem FragmentCalls.visits {elements : ListRef → List Value} {n : Nat} {f : Fragment}
    {log : Transcript} (h : FragmentCalls elements n f log (.ok ())) :
    ∃ visits, FragmentVisits elements n f log (.ok visits) := by
  induction n generalizing f log with
  | zero => cases h.2
  | succ n ih =>
    have hslot : ∀ v log, Followed (SlotSettles f elements v) (InTurn (FragmentCalls elements n))
        log (.ok ()) → ∃ visits, Followed (SlotSettles f elements v)
          (AllInTurn (FragmentVisits elements n)) log (.ok visits) := by
      intro v log hv
      cases hv with
      | on hsettles hnested =>
        obtain ⟨visits, hvisits⟩ := hnested.all fun g log hg => ih hg
        exact ⟨visits, .on hsettles hvisits⟩
    obtain ⟨visits, hvisits⟩ := InTurn.all hslot h
    exact ⟨f :: visits, .on_silent (g := fun visits => .ok (f :: visits)) hvisits⟩

/-! ## Each callable each time -/

section Accounts

variable (elements : ListRef → List Value)

/-- The callables among the elements, where the value is a sequence. -/
def Value.sequenceCallables (v : Value) : List Callable :=
  match v.classify with
  | .sequence s => (s.items elements).filterMap Value.callable?
  | _ => []

namespace Fragment

/-- The callables that a fragment holds, in a slot or in a sequence in a slot. -/
def callables (f : Fragment) : List Callable :=
  f.slots.flatMap fun v => v.callable?.toList ++ v.sequenceCallables elements

/-- Each of the callables called with the fragment. -/
def ownCalls (f : Fragment) : List Call := (f.callables elements).map fun c => ⟨c, f⟩

end Fragment

/-- The call of a callable in a sequence that another call for the same fragment answered. -/
def Brought (log : Transcript) (c : Call) : Prop :=
  ∃ c' w, (⟨c', c.owner⟩, .ok w) ∈ log ∧ c.callable ∈ w.sequenceCallables elements

/-- The calls are those that are expected, and calls of what was answered. -/
def Accounted (expected : List Call) (log : Transcript) : Prop :=
  ∃ brought, (calls log).Perm (expected ++ brought) ∧ ∀ c ∈ brought, Brought elements log c

variable {elements} {expected expected' : List Call} {log log' : Transcript}

theorem Brought.mono (hlog : log ⊆ log') {c : Call} (h : Brought elements log c) :
    Brought elements log' c := by
  obtain ⟨c', w, hw, hc⟩ := h
  exact ⟨c', w, hlog hw, hc⟩

namespace Accounted

theorem nil : Accounted elements [] [] := ⟨[], .rfl, nofun⟩

theorem perm (h : Accounted elements expected log) (hperm : expected.Perm expected') :
    Accounted elements expected' log := by
  obtain ⟨brought, hcalls, hbrought⟩ := h
  exact ⟨brought, hcalls.trans (hperm.append_right brought), hbrought⟩

theorem append (h : Accounted elements expected log) (h' : Accounted elements expected' log') :
    Accounted elements (expected ++ expected') (log ++ log') := by
  obtain ⟨brought, hcalls, hbrought⟩ := h
  obtain ⟨brought', hcalls', hbrought'⟩ := h'
  refine ⟨brought ++ brought', ?_, fun c hc => ?_⟩
  · rw [calls_append]
    refine (hcalls.append hcalls').trans ?_
    rw [List.append_assoc, List.append_assoc]
    exact (List.perm_append_comm_assoc brought expected' brought').append_left expected
  · rcases List.mem_append.mp hc with hc | hc
    · exact (hbrought c hc).mono (List.subset_append_left log log')
    · exact (hbrought' c hc).mono (List.subset_append_right log log')

end Accounted

theorem FragmentsHeld.calls_eq {owner : Fragment} {v : Value} {gs : List Fragment}
    (h : FragmentsHeld owner elements v.classify log (.ok gs)) :
    calls log = (v.sequenceCallables elements).map fun c => ⟨c, owner⟩ := by
  unfold Value.sequenceCallables
  cases hv : v.classify with
  | sequence s =>
    rw [hv] at h
    cases h with
    | on hitems hend =>
      rw [hend.1, List.append_nil]
      exact hitems.calls_eq
  | _ =>
    rw [hv] at h
    rw [h.1]
    rfl

theorem Value.sequenceCallables_of_asked (v : Value) {c : Callable} (h : v.callable? = some c) :
    v.sequenceCallables elements = [] := by
  cases v <;> first | rfl | cases h

/-- **The callables of a slot are called**, and then those in a sequence that was answered. -/
theorem SlotSettles.accounted {owner : Fragment} {v : Value} {gs : List Fragment}
    (h : SlotSettles owner elements v log (.ok gs)) :
    Accounted elements
      ((v.callable?.toList ++ v.sequenceCallables elements).map fun c => ⟨c, owner⟩) log := by
  cases h with
  | on hresolves hheld =>
    unfold Resolves at hresolves
    cases hasked : v.callable? with
    | some c =>
      rw [hasked] at hresolves
      cases hresolves with
      | on hcall hclassify =>
        rename_i w _ _
        cases hclassify.2
        refine ⟨(w.sequenceCallables elements).map fun c => ⟨c, owner⟩, ?_, fun x hx => ?_⟩
        · rw [hclassify.1, List.append_nil, calls_append, hheld.calls_eq, hcall,
            v.sequenceCallables_of_asked hasked]
          exact .rfl
        · obtain ⟨c', hc', rfl⟩ := List.mem_map.mp hx
          refine ⟨c, w, List.mem_append_left _ (List.mem_append_left _ ?_), hc'⟩
          rw [hcall]
          exact List.mem_cons_self
    | none =>
      rw [hasked] at hresolves
      cases hresolves.2
      refine ⟨[], ?_, nofun⟩
      rw [hresolves.1, List.nil_append, hheld.calls_eq, List.append_nil]
      exact .rfl

theorem AllInTurn.accounted {P : α → Transcript → Except Failure (List β) → Prop}
    {here : α → List Call} {below : β → List Call}
    (hP : ∀ a log bs, P a log (.ok bs) →
      Accounted elements (here a ++ bs.flatMap below) log) {as : List α} {bs : List β}
    (h : AllInTurn P as log (.ok bs)) :
    Accounted elements (as.flatMap here ++ bs.flatMap below) log := by
  induction as generalizing log bs with
  | nil =>
    cases h.2
    rw [h.1]
    exact .nil
  | cons a as ih =>
    cases h with
    | on hfirst hrest => cases hrest with
      | on hmore hend =>
        rename_i cs _ _ more _
        cases hend.2
        rw [hend.1, List.append_nil]
        refine ((hP a _ cs hfirst).append (ih hmore)).perm ?_
        rw [List.flatMap_cons, List.flatMap_append, List.append_assoc, List.append_assoc]
        exact (List.perm_append_comm_assoc _ _ _).append_left (here a)

/-- **Each callable is called each time** that its fragment is gone through. All other calls are of
what was answered. -/
theorem FragmentVisits.accounted {n : Nat} {f : Fragment} {visits : List Fragment}
    (h : FragmentVisits elements n f log (.ok visits)) :
    Accounted elements (visits.flatMap (Fragment.ownCalls elements)) log := by
  induction n generalizing f log visits with
  | zero => cases h.2
  | succ n ih =>
    have hnested : ∀ g log visits, FragmentVisits elements n g log (.ok visits) →
        Accounted elements ([] ++ visits.flatMap (Fragment.ownCalls elements)) log :=
      fun g log visits hg => ih hg
    have hslot : ∀ v log visits, Followed (SlotSettles f elements v)
        (AllInTurn (FragmentVisits elements n)) log (.ok visits) →
        Accounted elements
          ((v.callable?.toList ++ v.sequenceCallables elements).map (fun c => ⟨c, f⟩) ++
            visits.flatMap (Fragment.ownCalls elements)) log := by
      intro v log visits hv
      cases hv with
      | on hsettles hheld =>
        have hbelow := hheld.accounted hnested
        rw [List.flatMap_eq_nil_iff.mpr fun _ _ => rfl, List.nil_append] at hbelow
        exact hsettles.accounted.append hbelow
    cases h with
    | on hslots hend =>
      cases hend.2
      rw [hend.1, List.append_nil, List.flatMap_cons, Fragment.ownCalls, Fragment.callables,
        List.map_flatMap]
      exact hslots.accounted hslot

open Classical in
/-- **A callable is called as often as its fragment is gone through**, once for each place where the
fragment holds it, if no answer brings it. -/
theorem FragmentVisits.count {n : Nat} {f g : Fragment} {visits : List Fragment} {c : Callable}
    (h : FragmentVisits elements n f log (.ok visits)) (hc : ¬ Brought elements log ⟨c, g⟩) :
    (calls log).count ⟨c, g⟩ = visits.count g * (g.callables elements).count c := by
  have hown : ∀ h : Fragment, (h.ownCalls elements).count ⟨c, g⟩ =
      if h = g then (g.callables elements).count c else 0 := by
    intro h
    unfold Fragment.ownCalls
    split_ifs with hsame
    · rw [hsame]
      exact List.count_map_of_injective _ (fun c => (⟨c, g⟩ : Call))
        (fun _ _ heq => congrArg Call.callable heq) c
    · refine List.count_eq_zero.mpr fun hmem => hsame ?_
      obtain ⟨_, -, heq⟩ := List.mem_map.mp hmem
      exact congrArg Call.owner heq
  obtain ⟨brought, hperm, hbrought⟩ := h.accounted
  have hnone : brought.count ⟨c, g⟩ = 0 := List.count_eq_zero.mpr fun hmem => hc (hbrought _ hmem)
  rw [hperm.count_eq, List.count_append, hnone, Nat.add_zero]
  clear h hperm
  induction visits with
  | nil => simp
  | cons h visits ih =>
    rw [List.flatMap_cons, List.count_append, ih, hown, List.count_cons, Nat.add_mul, Nat.add_comm]
    by_cases hsame : h = g
    · rw [if_pos hsame, if_pos (beq_iff_eq.mpr hsame), Nat.one_mul]
    · rw [if_neg hsame, if_neg (mt beq_iff_eq.mp hsame), Nat.zero_mul]

end Accounts

/-! ## Passes that succeed -/

/-- Whenever the first pass succeeds, the second succeeds from the same state, and leaves the same.
-/
def SucceedsWith (p : Pass σ α) (q : Pass σ β) : Prop :=
  ∀ s a s', p s = .ok a s' → ∃ b, q s = .ok b s'

namespace SucceedsWith

theorem pure (a : α) (b : β) :
    SucceedsWith (Pure.pure a : Pass σ α) (Pure.pure b : Pass σ β) := by
  rintro s _ _ ⟨⟩
  exact ⟨b, rfl⟩

theorem bind {p : Pass σ α} {q : Pass σ β} {f : α → Pass σ γ} {g : β → Pass σ δ}
    (h : SucceedsWith p q) (hfg : ∀ a b, SucceedsWith (f a) (g b)) :
    SucceedsWith (p >>= f) (q >>= g) := by
  intro s c s'' hrun
  obtain ⟨a, s', hp, hf⟩ := Pass.bind_eq_ok hrun
  obtain ⟨b, hq⟩ := h s a s' hp
  obtain ⟨d, hg⟩ := hfg a b s' c s'' hf
  exact ⟨d, (Pass.bind_ok hq g).trans hg⟩

theorem after (p : Pass σ α) {f : α → Pass σ γ} {g : α → Pass σ δ}
    (hfg : ∀ a, SucceedsWith (f a) (g a)) : SucceedsWith (p >>= f) (p >>= g) := by
  intro s c s'' hrun
  obtain ⟨a, s', hp, hf⟩ := Pass.bind_eq_ok hrun
  obtain ⟨d, hg⟩ := hfg a s' c s'' hf
  exact ⟨d, (Pass.bind_ok hp g).trans hg⟩

end SucceedsWith

section Walk

variable {env : Environment σ} {visit : Piece → β → Pass σ β} {visit' : Piece → γ → Pass σ γ}
  (hvisit : ∀ p b c, SucceedsWith (visit p b) (visit' p c)) (owner : Fragment)

include hvisit

theorem walkDelimiter_succeeds (stands : Bool) (b : β) (c : γ) :
    SucceedsWith (walkDelimiter visit owner stands b) (walkDelimiter visit' owner stands c) := by
  cases stands with
  | true => exact hvisit _ b c
  | false => exact .pure b c

variable {nested : Fragment → β → Pass σ β} {nested' : Fragment → γ → Pass σ γ}
  (hn : ∀ g b c, SucceedsWith (nested g b) (nested' g c))

include hn

theorem walkRuns_succeeds (rs : List Run) (b : β) (c : γ) :
    SucceedsWith (walkRuns visit owner nested rs b) (walkRuns visit' owner nested' rs c) := by
  induction rs generalizing b c with
  | nil => exact .pure b c
  | cons r rest ih =>
    cases r with
    | group vs => exact (hvisit _ b c).bind ih
    | fragment g adjacent =>
      exact (walkDelimiter_succeeds hvisit owner adjacent b c).bind fun b c =>
        (hn g b c).bind ih

theorem walkContent_succeeds (content : Content) (b : β) (c : γ) :
    SucceedsWith (walkContent visit owner nested content b)
      (walkContent visit' owner nested' content c) := by
  cases content with
  | fragment g => exact hn g b c
  | runs rs => exact walkRuns_succeeds hvisit owner hn rs b c
  | scalar v => exact hvisit _ b c
  | skip => exact .pure b c

theorem walkGaps_succeeds (gaps : List (String × Option Value)) (previous : Option SlotKind) (b : β)
    (c : γ) : SucceedsWith (walkGaps env visit owner nested gaps previous b)
      (walkGaps env visit' owner nested' gaps previous c) := by
  induction gaps generalizing previous b c with
  | nil => exact .pure b c
  | cons gap rest ih =>
    obtain ⟨literal, _ | v⟩ := gap
    · exact (hvisit _ b c).bind fun b c => ih _ b c
    · refine (hvisit _ b c).bind fun b c => .after _ fun content => ?_
      exact (walkDelimiter_succeeds hvisit owner _ b c).bind fun b c =>
        (walkContent_succeeds hvisit owner hn content b c).bind fun b c => ih _ b c

omit hn in
omit owner in
/-- **What is done with the pieces makes no difference** to a walk that succeeds. -/
theorem Fragment.walk_succeeds (n : Nat) (f : Fragment) (b : β) (c : γ) :
    SucceedsWith (f.walk env visit n b) (f.walk env visit' n c) := by
  induction n generalizing f b c with
  | zero =>
    rintro s _ _ ⟨⟩
  | succ n ih => exact walkGaps_succeeds hvisit f ih f.gaps none b c

end Walk

theorem writePiece_succeeds (d : Dialect) (p : Piece) (x : String × Nat) (ps : List Piece) :
    SucceedsWith (writePiece d p x : Pass σ (String × Nat)) (notePiece p ps) := by
  intro s a s' hrun
  cases p with
  | literal text =>
    cases hrun
    exact ⟨_, rfl⟩
  | bound b =>
    obtain ⟨y, s₁, hplaceholder, hrest⟩ := Pass.bind_eq_ok hrun
    unfold writePlaceholder at hplaceholder
    cases htoken : d.placeholder (.int (x.2 + 1)) with
    | ok token =>
      rw [htoken] at hplaceholder
      cases hplaceholder
      cases hrest
      exact ⟨_, rfl⟩
    | error e =>
      rw [htoken] at hplaceholder
      cases hplaceholder

theorem keepBound_succeeds (p : Piece) (bs : List Bound) (ps : List Piece) :
    SucceedsWith (keepBound p bs : Pass σ (List Bound)) (notePiece p ps) := by
  cases p <;> exact .pure _ _

/-! ## Callables that an oracle answers -/

/-- Callables are answered by an oracle. They have no other effect on the session. -/
def Oracle.host (oracle : Oracle) (depth : Nat) : Host (List Call) where
  call c f s :=
    resultOf (oracle s.memory ⟨c, f⟩) { s with memory := s.memory ++ [⟨c, f⟩] }
  depth := depth

theorem Oracle.host_ignoresCaches (oracle : Oracle) (depth : Nat) :
    (oracle.host depth).IgnoresCaches := by
  rintro c f caches s _ rfl
  change Agree _ _ (resultOf (oracle s.memory ⟨c, f⟩) _) (resultOf (oracle s.memory ⟨c, f⟩) _)
  cases oracle s.memory ⟨c, f⟩ with
  | ok v => exact ⟨rfl, rfl⟩
  | error e => exact ⟨rfl, rfl⟩

theorem Oracle.environment_mirrors (oracle : Oracle) (depth : Nat) (h : Heap) :
    (oracle.environment h.elements depth).Mirrors
      (fun before (s : Session (List Call)) => s.memory = before ∧ s.heap = h)
      (oracle.host depth).environment where
  elements := by
    rintro _ s ⟨rfl, rfl⟩
    rfl
  call := by
    rintro c f _ s ⟨rfl, rfl⟩
    change Agree _ _ (resultOf (oracle s.memory ⟨c, f⟩) _) (resultOf (oracle s.memory ⟨c, f⟩) _)
    cases oracle s.memory ⟨c, f⟩ with
    | ok v => exact ⟨rfl, rfl, rfl⟩
    | error e => exact ⟨rfl, rfl, rfl⟩
  depth := rfl

open Classical in
/-- Between two sessions `f` was gone through once, with whatever it holds: the calls are answered
by the oracle, and each callable of a fragment is called each time that the fragment is gone
through, once for each place where the fragment holds it. -/
def Oracle.CallsEachTime (oracle : Oracle) (depth : Nat) (f : Fragment)
    (s s' : Session (List Call)) : Prop :=
  ∃ log visits, Answered oracle s.memory log ∧ s'.memory = s.memory ++ calls log ∧
    FragmentVisits s.heap.elements depth f log (.ok visits) ∧
    Accounted s.heap.elements (visits.flatMap (Fragment.ownCalls s.heap.elements)) log ∧
    ∀ g c, ¬ Brought s.heap.elements log ⟨c, g⟩ →
      (calls log).count ⟨c, g⟩ = visits.count g * (g.callables s.heap.elements).count c

section Oracles

variable {oracle : Oracle} {depth : Nat} {f : Fragment} {s s' : Session (List Call)}

theorem Oracle.callsEachTime_of_walk {visit : Piece → β → Pass (List Call) β}
    (hvisit : ∀ p b ps, SucceedsWith (visit p b) (notePiece p ps)) {b b' : β}
    (h : f.walk (oracle.environment s.heap.elements depth) visit depth b s.memory =
      .ok b' s'.memory) : oracle.CallsEachTime depth f s s' := by
  obtain ⟨ps, hpieces⟩ := Fragment.walk_succeeds hvisit depth f b [] _ _ _ h
  obtain ⟨log, x, hanswered, hcalls, hrun⟩ :=
    f.walk_traces oracle s.heap.elements depth depth [] s.memory
  rw [hpieces] at hrun
  cases x with
  | error e => cases hrun
  | ok qs =>
    obtain ⟨visits, hvisits⟩ := FragmentCalls.visits hcalls
    refine ⟨log, visits, hanswered, ?_, hvisits, hvisits.accounted,
      fun g c hc => hvisits.count hc⟩
    injection hrun

theorem Fragment.statement_visits {d : Dialect} {text : String}
    (h : f.statement (oracle.host depth).environment d s = .ok text s') :
    oracle.CallsEachTime depth f s s' := by
  have hpass := (oracle.environment_mirrors depth s.heap).statement f d s.memory s ⟨rfl, rfl⟩
  rw [h] at hpass
  obtain ⟨_, before, hrun, rfl, rfl, -⟩ := hpass.ok_right
  unfold statement at hrun
  rw [write_eq_walk] at hrun
  obtain ⟨x, s₁, hwalk, hend⟩ := Pass.bind_eq_ok hrun
  cases hend
  exact Oracle.callsEachTime_of_walk (writePiece_succeeds d) hwalk

theorem Fragment.bindings_visits {bs : List Bound}
    (h : f.bindings (oracle.host depth).environment s = .ok bs s') :
    oracle.CallsEachTime depth f s s' := by
  have hpass := (oracle.environment_mirrors depth s.heap).bindings f s.memory s ⟨rfl, rfl⟩
  rw [h] at hpass
  obtain ⟨_, before, hrun, rfl, rfl, -⟩ := hpass.ok_right
  unfold bindings at hrun
  rw [collect_eq_walk] at hrun
  exact Oracle.callsEachTime_of_walk keepBound_succeeds hrun

/-- **A text that is not kept** is written with the calls of the whole fragment. -/
theorem Fragment.memoText_visits {key : TextKey} {d : Dialect} {text : String}
    (hmissing : (s.cacheOf f).texts.get? key = none)
    (h : f.memoText (oracle.host depth) key d s = .ok text s') :
    oracle.CallsEachTime depth f s s' := by
  rw [memoText_of_missing _ hmissing] at h
  cases hrun : f.statement (oracle.host depth).environment d
      (s.record (.rendering (.text key) f.shown)) with
  | ok text s₁ =>
    rw [hrun] at h
    cases h
    have hpass : oracle.CallsEachTime depth f (s.record (.rendering (.text key) f.shown)) s₁ :=
      statement_visits hrun
    exact hpass
  | error e s₁ =>
    rw [hrun] at h
    cases h

/-- **Values that are not kept** are collected with the calls of the whole fragment. -/
theorem Fragment.memoValues_visits {bs : List Bound}
    (hmissing : (s.cacheOf f).values = none)
    (h : f.memoValues (oracle.host depth) s = .ok bs s') : oracle.CallsEachTime depth f s s' := by
  rw [memoValues_of_missing _ hmissing] at h
  cases hrun : f.bindings (oracle.host depth).environment
      (s.record (.rendering .values f.shown)) with
  | ok bs s₁ =>
    rw [hrun] at h
    cases h
    have hpass : oracle.CallsEachTime depth f (s.record (.rendering .values f.shown)) s₁ :=
      bindings_visits hrun
    exact hpass
  | error e s₁ =>
    rw [hrun] at h
    cases h

theorem Fragment.memoText_values {host : Host σ} (hhost : host.LeavesCaches) {s s' : Session σ}
    {key : TextKey} {d : Dialect} {text : String} (h : f.memoText host key d s = .ok text s') :
    (s'.cacheOf f).values = (s.cacheOf f).values := by
  rcases f.memoText_cases (s := s) (hhost.keeps s.caches) key d rfl with
    ⟨text', -, hrun⟩ | ⟨-, ⟨text', s₁, hs₁, -, hrun⟩ | ⟨e, s₁, -, -, hrun⟩⟩
  · rw [hrun] at h
    cases h
    rfl
  · rw [hrun] at h
    cases h
    rw [Session.cacheOf_rememberText, if_pos rfl, Session.cacheOf, hs₁]
    rfl
  · rw [hrun] at h
    cases h

/-- **A compile with nothing kept** goes through the fragment twice, for the text and then for the
values. -/
theorem Read.compile_visits {t : String} {a : Answer}
    (htext : (s.cacheOf f).texts.get? (.target t) = none) (hvalues : (s.cacheOf f).values = none)
    (h : (Read.compile t).perform (oracle.host depth) f s = .ok a s') :
    ∃ s₁, oracle.CallsEachTime depth f s s₁ ∧ oracle.CallsEachTime depth f s₁ s' := by
  rw [Read.perform_compile_eq] at h
  obtain ⟨o, s₀, hcreate, hrest⟩ := Pass.bind_eq_ok h
  obtain ⟨text, s₁, hmemo, hfinish⟩ := Pass.bind_eq_ok hrest
  obtain ⟨l, s₂, hlist, hend⟩ := Pass.bind_eq_ok hfinish
  obtain ⟨bs, s₃, hbindings, hhand⟩ := Pass.bind_eq_ok hlist
  have hleaves := (oracle.host_ignoresCaches depth).leavesCaches
  -- a look-up touches the registry only, and handing out the heap only
  obtain ⟨hcaches, -, -⟩ := createDialect_ok hcreate
  have hkept : s₀.cacheOf f = s.cacheOf f := by
    rw [Session.cacheOf, hcaches]
    rfl
  have hbefore : s₀.memory = s.memory ∧ s₀.heap = s.heap :=
    (createDialect_keeps (I := fun s' => s'.memory = s.memory ∧ s'.heap = s.heap)
      (fun _ _ _ _ hs _ => hs) (.str t)).ok ⟨rfl, rfl⟩ hcreate
  have hafter : s₂.memory = s₃.memory := by
    have hkeeps : Keeps (fun s' : Session (List Call) => s'.memory = s₃.memory)
        (handOut bs >>= newListRef) :=
      (handOut_keeps (fun _ _ hs => hs) bs).bind fun items _ hs => hs
    exact hkeeps.ok rfl hhand
  rw [← hkept] at htext hvalues
  have hfirst := Fragment.memoText_visits htext hmemo
  have hsecond := Fragment.memoValues_visits
    ((Fragment.memoText_values hleaves hmemo).trans hvalues) hbindings
  refine ⟨s₁, ?_, ?_⟩
  · unfold Oracle.CallsEachTime at hfirst ⊢
    rwa [hbefore.1, hbefore.2] at hfirst
  · cases hend
    unfold Oracle.CallsEachTime at hsecond ⊢
    change ∃ log visits, _ ∧ s₂.memory = _ ∧ _
    rwa [hafter]

end Oracles

/-- **A pass keeps to its own cache.** As long as callables do not read getters: a read of `f`
gives the same and makes the same calls whatever is kept for other fragments, leaves what is kept
for them, and makes no difference to what they give and call when they are read afterwards. With an
oracle for the callables, a text or values that are not kept yet take the calls of the whole
fragment, where each fragment has its callables called each time that it is gone through. -/
theorem passes_keep_to_their_cache :
    (∀ {ω : Type} (host : Host ω), host.IgnoresCaches →
      ∀ (f : Fragment) (r : Read) (s : Session ω),
        (∀ caches, (s.withCaches caches).cacheOf f = s.cacheOf f →
          outcome (r.perform host f) (s.withCaches caches) = outcome (r.perform host f) s ∧
          r.calls host f (s.withCaches caches) = r.calls host f s ∧
          (stateAfter (r.perform host f) s).AlikeFor (· = f.id)
            (stateAfter (r.perform host f) (s.withCaches caches))) ∧
        (∀ g : Fragment, g.id ≠ f.id →
          (stateAfter (r.perform host f) s).cacheOf g = s.cacheOf g) ∧
        ∀ reads : List (Fragment × Read), (∀ x ∈ reads, x.1.id ≠ f.id) →
          accounts host reads (stateAfter (r.perform host f) s) =
            accounts host reads ((stateAfter (r.perform host f) s).withCaches s.caches)) ∧
    ∀ (oracle : Oracle) (depth : Nat), (oracle.host depth).IgnoresCaches ∧
      ∀ (f : Fragment) (s s' : Session (List Call)),
        (∀ key d text, (s.cacheOf f).texts.get? key = none →
          f.memoText (oracle.host depth) key d s = .ok text s' →
          oracle.CallsEachTime depth f s s') ∧
        (∀ bs, (s.cacheOf f).values = none →
          f.memoValues (oracle.host depth) s = .ok bs s' → oracle.CallsEachTime depth f s s') ∧
        ∀ t a, (s.cacheOf f).texts.get? (.target t) = none → (s.cacheOf f).values = none →
          (Read.compile t).perform (oracle.host depth) f s = .ok a s' →
          ∃ s₁, oracle.CallsEachTime depth f s s₁ ∧ oracle.CallsEachTime depth f s₁ s' := by
  refine ⟨fun host hhost f r s => ⟨fun caches hkept => ?_, fun g hg => ?_, fun reads hreads => ?_⟩,
    fun oracle depth => ⟨oracle.host_ignoresCaches depth, fun f s s' => ⟨?_, ?_, ?_⟩⟩⟩
  · have halike : s.AlikeFor (· = f.id) (s.withCaches caches) := by
      refine ⟨rfl, fun g hg => ?_⟩
      unfold Session.cacheOf at hkept ⊢
      rwa [hg]
    have hread := Read.perform_alike hhost (P := (· = f.id)) rfl r
    exact ⟨(hread.outcome_eq halike).symm, Read.calls_alike hhost (P := (· = f.id)) rfl r halike,
      hread.stateAfter halike⟩
  · exact Read.keeps_cacheOf hhost.leavesCaches hg.symm (s.cacheOf g) r s rfl
  · exact Read.accounts_after hhost f r s hreads
  · exact fun key d text hmissing h => Fragment.memoText_visits hmissing h
  · exact fun bs hmissing h => Fragment.memoValues_visits hmissing h
  · exact fun t a htext hvalues h => Read.compile_visits htext hvalues h

/-- A fragment stands in a slot and among the elements of a sequence, and has been read before. Its
callable is called for each place where it stands, and what is kept for it stays. -/
theorem passes_keep_to_their_cache_nested :
    let oracle : Oracle := fun before _ => .ok (.int before.length)
    let host := oracle.host 2
    let c : Callable := ⟨0, "count"⟩
    let g : Fragment := ⟨1, ["b = "], false, [.callable c], "", none, false⟩
    let f : Fragment :=
      ⟨0, ["", " AND ", ""], false, [.fragment g, .tuple [.callable c, .fragment g]], "", none,
        false⟩
    let s := stateAfter (Read.values.perform host g) (Session.initial [])
    (s.cacheOf g).values = some [.scalar (.int 0)] ∧ ∃ s',
      f.memoValues host s =
        .ok [.scalar (.int 1), .group [.int 2], .scalar (.int 3)] s' ∧
      s'.memory = s.memory ++ [⟨c, g⟩, ⟨c, f⟩, ⟨c, g⟩] ∧
      (s'.cacheOf g).values = some [.scalar (.int 0)] ∧
      oracle.CallsEachTime 2 f s s' := by
  intro oracle host c g f s
  have hvalues : f.memoValues host s = .ok [.scalar (.int 1), .group [.int 2], .scalar (.int 3)]
      (stateAfter (f.memoValues host) s) := rfl
  obtain ⟨-, horacle⟩ := passes_keep_to_their_cache
  obtain ⟨-, hcalls⟩ := horacle oracle 2
  obtain ⟨-, heach, -⟩ := hcalls f s (stateAfter (f.memoValues host) s)
  exact ⟨rfl, _, hvalues, rfl, rfl, heach _ rfl hvalues⟩

end SqlFragments
