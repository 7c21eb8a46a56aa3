import SqlFragments.Proofs.Reading

/-!
# The calls of a pass

Callables are answered by an oracle that may look at all calls before, so the two passes over a
fragment agree only if they make the same calls in the same order. That order is fixed: slots from
left to right, the contents of a slot before the next slot, and in a sequence first the callables
among its elements and then the fragments.

* `Oracle`, `Oracle.environment`: answers that depend on the calls so far, and a pass with them.
* `Transcript`, `Answered`: calls with their answers, as the oracle gives them.
* `Followed`, `InTurn`: one part of a pass after another, up to the first failure.
* `Resolves`, `ResolvesAll`, `SlotSettles`, `FragmentCalls`: the calls of a value, of the elements
  of a sequence, of a slot, and of a fragment.
* `Traces`: a pass whose calls and outcome are as specified.
* **`ResolvesAll.calls_eq`**: each callable among the elements is called once, with the owner.
* **`FragmentCalls.determined`**: an oracle leaves one transcript.
* **`Fragment.walk_traces`**: a walk makes the calls of the fragment.
* **`passes_in_lockstep`**: the text pass and the value pass, for every oracle.
-/

namespace SqlFragments

variable {α β γ : Type}

/-! ## Oracles -/

/-- A callable is called with the fragment that holds it. -/
structure Call where
  callable : Callable
  owner : Fragment

/-- Calls with their answers, in order. -/
abbrev Transcript := List (Call × Except Failure Value)

def calls (log : Transcript) : List Call := log.map Prod.fst

theorem calls_append (log log' : Transcript) : calls (log ++ log') = calls log ++ calls log' :=
  List.map_append

/-- An oracle knows all calls before the one that it answers. -/
abbrev Oracle := List Call → Call → Except Failure Value

/-- A pass that asks an oracle. Its state are the calls so far. -/
def Oracle.environment (oracle : Oracle) (elements : ListRef → List Value) (depth : Nat) :
    Environment (List Call) where
  elements _ r := elements r
  call c f before := resultOf (oracle before ⟨c, f⟩) (before ++ [⟨c, f⟩])
  depth := depth

/-- The answers are those of the oracle, after the calls in `before`. -/
def Answered (oracle : Oracle) : (before : List Call) → Transcript → Prop
  | _, [] => True
  | before, (c, x) :: log => oracle before c = x ∧ Answered oracle (before ++ [c]) log

theorem answered_append {oracle : Oracle} {before : List Call} {log log' : Transcript} :
    Answered oracle before (log ++ log') ↔
      Answered oracle before log ∧ Answered oracle (before ++ calls log) log' := by
  induction log generalizing before with
  | nil =>
    rw [List.nil_append, calls, List.map_nil, List.append_nil]
    exact ⟨fun h => ⟨trivial, h⟩, fun h => h.2⟩
  | cons entry log ih =>
    obtain ⟨c, x⟩ := entry
    rw [List.cons_append, Answered, Answered, ih, and_assoc, calls, calls, List.map_cons,
      List.append_assoc]
    rfl

/-! ## The order of calls -/

/-- No calls, and this outcome. -/
def Silent (x : Except Failure α) (log : Transcript) (y : Except Failure α) : Prop :=
  log = [] ∧ y = x

/-- A second part after the first, unless the first fails. -/
inductive Followed (P : Transcript → Except Failure α → Prop)
    (Q : α → Transcript → Except Failure β → Prop) : Transcript → Except Failure β → Prop
  | on {a : α} {log log' : Transcript} {x : Except Failure β} (h : P log (.ok a))
    (h' : Q a log' x) : Followed P Q (log ++ log') x
  | failed {log : Transcript} {e : Failure} (h : P log (.error e)) : Followed P Q log (.error e)

/-- One after the other, up to the first failure. -/
def InTurn (P : α → Transcript → Except Failure Unit → Prop) :
    List α → Transcript → Except Failure Unit → Prop
  | [] => Silent (.ok ())
  | a :: as => Followed (P a) fun _ => InTurn P as

theorem Followed.map {P : Transcript → Except Failure α → Prop}
    {Q : α → Transcript → Except Failure β → Prop} {Q' : α → Transcript → Except Failure γ → Prop}
    {g : β → γ} {log : Transcript} {x : Except Failure β} (h : Followed P Q log x)
    (hQ : ∀ a log x, Q a log x → Q' a log (g <$> x)) : Followed P Q' log (g <$> x) := by
  cases h with
  | on h h' => exact .on h (hQ _ _ _ h')
  | failed h => exact .failed h

theorem Followed.on_silent {P : Transcript → Except Failure α → Prop} {g : α → Except Failure β}
    {log : Transcript} {a : α} (h : P log (.ok a)) :
    Followed P (fun a => Silent (g a)) log (g a) := by
  have hfollowed : Followed P (fun a => Silent (g a)) (log ++ []) (g a) := .on h ⟨rfl, rfl⟩
  rwa [List.append_nil] at hfollowed

theorem Followed.assoc {P : Transcript → Except Failure α → Prop}
    {Q : α → Transcript → Except Failure β → Prop} {R : β → Transcript → Except Failure γ → Prop}
    {log : Transcript} {x : Except Failure γ} (h : Followed P (fun a => Followed (Q a) R) log x) :
    Followed (Followed P Q) R log x := by
  cases h with
  | failed h => exact .failed (.failed h)
  | on h h' => cases h' with
    | failed h' => exact .failed (.on h h')
    | on h' h'' =>
      rw [← List.append_assoc]
      exact .on (.on h h') h''

theorem InTurn.single {P : α → Transcript → Except Failure Unit → Prop} {a : α} {log : Transcript}
    {x : Except Failure Unit} (h : P a log x) : InTurn P [a] log x := by
  cases x with
  | ok _ => exact Followed.on_silent (g := fun _ => .ok ()) h
  | error e => exact .failed h

section Order

variable (owner : Fragment)

/-- A callable is called, once. What it answers is not called, and neither is anything else. -/
def Resolves (v : Value) : Transcript → Except Failure Resolved → Prop :=
  match v.callable? with
  | some c => Followed (fun log x => log = [(⟨c, owner⟩, x)]) fun v => Silent (.ok v.classify)
  | none => Silent (.ok v.classify)

/-- The elements of a sequence, from left to right. What lies deeper is not called. -/
def ResolvesAll : List Value → Transcript → Except Failure (List Resolved) → Prop
  | [] => Silent (.ok [])
  | v :: vs =>
    Followed (Resolves owner v) fun r =>
      Followed (ResolvesAll vs) fun rs => Silent (.ok (r :: rs))

variable (elements : ListRef → List Value)

/-- The fragments that a slot stands for, once it is resolved: in a sequence, all elements are
resolved before any of its fragments is gone through. -/
def FragmentsHeld : Resolved → Transcript → Except Failure (List Fragment) → Prop
  | .fragment g => Silent (.ok [g])
  | .sequence s =>
    Followed (ResolvesAll owner (s.items elements)) fun rs =>
      Silent (.ok (rs.filterMap Resolved.fragment?))
  | .scalar _ | .skip => Silent (.ok [])

def SlotSettles (v : Value) : Transcript → Except Failure (List Fragment) → Prop :=
  Followed (Resolves owner v) (FragmentsHeld owner elements)

end Order

/-- The calls of a fragment nested at most `depth` deep: slot by slot, and for each slot first the
calls that tell what it holds, then those of the fragments that it holds. -/
def FragmentCalls (elements : ListRef → List Value) :
    (depth : Nat) → Fragment → Transcript → Except Failure Unit → Prop
  | 0, _ => Silent (.error .tooDeep)
  | n + 1, f =>
    InTurn (fun v => Followed (SlotSettles f elements v) (InTurn (FragmentCalls elements n)))
      f.slots

/-! ## Each callable once -/

theorem Resolves.calls_eq {owner : Fragment} {v : Value} {log : Transcript}
    {x : Except Failure Resolved} (h : Resolves owner v log x) :
    calls log = v.callable?.toList.map fun c => ⟨c, owner⟩ := by
  unfold Resolves at h
  cases hcall : v.callable? with
  | some c =>
    rw [hcall] at h
    cases h with
    | on h h' =>
      rw [h, h'.1]
      rfl
    | failed h =>
      rw [h]
      rfl
  | none =>
    rw [hcall] at h
    rw [h.1]
    rfl

/-- **Each callable among the elements is called once**, with the owner of the sequence. -/
theorem ResolvesAll.calls_eq {owner : Fragment} {vs : List Value} {log : Transcript}
    {rs : List Resolved} (h : ResolvesAll owner vs log (.ok rs)) :
    calls log = (vs.filterMap Value.callable?).map fun c => ⟨c, owner⟩ := by
  induction vs generalizing log rs with
  | nil =>
    rw [h.1]
    rfl
  | cons v vs ih =>
    cases h with
    | on hv hrest => cases hrest with
      | on hvs hend =>
        rw [hend.1, List.append_nil, calls_append, hv.calls_eq, ih hvs]
        cases hcall : v.callable? <;> simp [hcall]

/-! ## One transcript -/

/-- With an oracle there is at most one transcript, and one outcome. -/
def Determined (oracle : Oracle) (P : Transcript → Except Failure α → Prop) : Prop :=
  ∀ before log log' x x', Answered oracle before log → Answered oracle before log' →
    P log x → P log' x' → log = log' ∧ x = x'

section Determined

variable {oracle : Oracle}

theorem Determined.silent (x : Except Failure α) : Determined oracle (Silent x) := by
  rintro before _ _ _ _ - - ⟨rfl, rfl⟩ ⟨rfl, rfl⟩
  exact ⟨rfl, rfl⟩

theorem Determined.call (c : Call) : Determined oracle fun log x => log = [(c, x)] := by
  rintro before _ _ x x' ha ha' rfl rfl
  have hx : x = x' := ha.1.symm.trans ha'.1
  rw [hx]
  exact ⟨rfl, rfl⟩

theorem Determined.followed {P : Transcript → Except Failure α → Prop}
    {Q : α → Transcript → Except Failure β → Prop} (hP : Determined oracle P)
    (hQ : ∀ a, Determined oracle (Q a)) : Determined oracle (Followed P Q) := by
  intro before log log' x x' ha ha' h h'
  cases h with
  | on hfirst hsecond =>
    obtain ⟨ha₁, ha₂⟩ := answered_append.mp ha
    cases h' with
    | on hfirst' hsecond' =>
      obtain ⟨ha₁', ha₂'⟩ := answered_append.mp ha'
      obtain ⟨rfl, hok⟩ := hP _ _ _ _ _ ha₁ ha₁' hfirst hfirst'
      cases hok
      obtain ⟨rfl, rfl⟩ := hQ _ _ _ _ _ _ ha₂ ha₂' hsecond hsecond'
      exact ⟨rfl, rfl⟩
    | failed hfirst' => cases (hP _ _ _ _ _ ha₁ ha' hfirst hfirst').2
  | failed hfirst =>
    cases h' with
    | on hfirst' hsecond' =>
      obtain ⟨ha₁', -⟩ := answered_append.mp ha'
      cases (hP _ _ _ _ _ ha ha₁' hfirst hfirst').2
    | failed hfirst' =>
      obtain ⟨rfl, herror⟩ := hP _ _ _ _ _ ha ha' hfirst hfirst'
      cases herror
      exact ⟨rfl, rfl⟩

theorem Determined.inTurn {P : α → Transcript → Except Failure Unit → Prop}
    (hP : ∀ a, Determined oracle (P a)) (as : List α) : Determined oracle (InTurn P as) := by
  induction as with
  | nil => exact .silent _
  | cons a as ih => exact .followed (hP a) fun _ => ih

theorem Resolves.determined (owner : Fragment) (v : Value) :
    Determined oracle (Resolves owner v) := by
  unfold Resolves
  cases v.callable? with
  | some c => exact .followed (.call ⟨c, owner⟩) fun v => .silent _
  | none => exact .silent _

theorem ResolvesAll.determined (owner : Fragment) (vs : List Value) :
    Determined oracle (ResolvesAll owner vs) := by
  induction vs with
  | nil => exact .silent _
  | cons v vs ih =>
    exact .followed (Resolves.determined owner v) fun r => .followed ih fun rs => .silent _

theorem SlotSettles.determined (owner : Fragment) (elements : ListRef → List Value) (v : Value) :
    Determined oracle (SlotSettles owner elements v) := by
  refine .followed (Resolves.determined owner v) fun r => ?_
  cases r with
  | sequence s => exact .followed (ResolvesAll.determined owner _) fun rs => .silent _
  | _ => exact .silent _

/-- **An oracle leaves one transcript** for a fragment. -/
theorem FragmentCalls.determined (elements : ListRef → List Value) (n : Nat) (f : Fragment) :
    Determined oracle (FragmentCalls elements n f) := by
  induction n generalizing f with
  | zero => exact .silent _
  | succ n ih =>
    refine .inTurn (fun v => ?_) f.slots
    exact .followed (SlotSettles.determined f elements v) fun gs => .inTurn ih gs

end Determined

/-! ## Passes that leave a transcript -/

/-- From any calls so far, a pass makes the calls of a transcript that is as specified, with answers
of the oracle, and comes to the outcome that is specified with it. -/
def Traces (oracle : Oracle) (p : Pass (List Call) α) (P : Transcript → Except Failure α → Prop) :
    Prop :=
  ∀ before, ∃ log x, Answered oracle before log ∧ P log x ∧
    p before = resultOf x (before ++ calls log)

/-- An outcome without its value. -/
def done (x : Except Failure α) : Except Failure Unit := (fun _ => ()) <$> x

/-- No calls, and no failure. -/
def Quiet (log : Transcript) (x : Except Failure α) : Prop := log = [] ∧ done x = .ok ()

namespace Traces

variable {oracle : Oracle}

theorem mono {p : Pass (List Call) α} {P Q : Transcript → Except Failure α → Prop}
    (h : Traces oracle p P) (hPQ : ∀ log x, P log x → Q log x) : Traces oracle p Q := by
  intro before
  obtain ⟨log, x, ha, hP, hp⟩ := h before
  exact ⟨log, x, ha, hPQ log x hP, hp⟩

theorem silent {p : Pass (List Call) α} {x : Except Failure α}
    (h : ∀ before, p before = resultOf x before) : Traces oracle p (Silent x) := by
  intro before
  refine ⟨[], x, trivial, ⟨rfl, rfl⟩, ?_⟩
  rw [calls, List.map_nil, List.append_nil]
  exact h before

theorem pure (a : α) : Traces oracle (Pure.pure a) (Silent (.ok a)) := silent fun _ => rfl

theorem throw (e : Failure) :
    Traces oracle (MonadExcept.throw e : Pass (List Call) α) (Silent (.error e)) :=
  silent fun _ => rfl

theorem bind {p : Pass (List Call) α} {f : α → Pass (List Call) β}
    {P : Transcript → Except Failure α → Prop} {Q : α → Transcript → Except Failure β → Prop}
    (hp : Traces oracle p P) (hf : ∀ a, Traces oracle (f a) (Q a)) :
    Traces oracle (p >>= f) (Followed P Q) := by
  intro before
  obtain ⟨log, x, ha, hP, hrun⟩ := hp before
  cases x with
  | error e => exact ⟨log, .error e, ha, .failed hP, Pass.bind_error hrun f⟩
  | ok a =>
    obtain ⟨log', y, ha', hQ, hrun'⟩ := hf a (before ++ calls log)
    refine ⟨log ++ log', y, answered_append.mpr ⟨ha, ha'⟩, .on hP hQ, ?_⟩
    rw [Pass.bind_ok hrun, calls_append, ← List.append_assoc]
    exact hrun'

theorem call (elements : ListRef → List Value) (depth : Nat) (c : Callable) (f : Fragment) :
    Traces oracle ((oracle.environment elements depth).call c f)
      fun log x => log = [(⟨c, f⟩, x)] := by
  intro before
  exact ⟨[(⟨c, f⟩, oracle before ⟨c, f⟩)], _, ⟨rfl, trivial⟩, rfl, rfl⟩

theorem after_quiet {p : Pass (List Call) α} {f : α → Pass (List Call) β}
    {Q : Transcript → Except Failure β → Prop} (hp : Traces oracle p Quiet)
    (hf : ∀ a, Traces oracle (f a) Q) : Traces oracle (p >>= f) Q := by
  refine (hp.bind hf).mono fun log x h => ?_
  cases h with
  | on hquiet hrest =>
    rw [hquiet.1]
    exact hrest
  | failed hquiet => cases hquiet.2

theorem quiet (a : α) : Traces oracle (Pure.pure a) Quiet := by
  refine (pure a).mono ?_
  rintro log x ⟨hlog, rfl⟩
  exact ⟨hlog, rfl⟩

end Traces

/-! ## The walk -/

section Walk

variable {oracle : Oracle} {elements : ListRef → List Value} {depth : Nat} {owner : Fragment}

theorem resolve_traces (v : Value) :
    Traces oracle (resolve (oracle.environment elements depth) owner v) (Resolves owner v) := by
  unfold resolve Resolves
  cases v.callable? with
  | some c => exact (Traces.call elements depth c owner).bind fun v => .pure v.classify
  | none => exact .pure v.classify

theorem resolveItems_traces (vs : List Value) :
    Traces oracle (resolveItems (oracle.environment elements depth) owner vs)
      (ResolvesAll owner vs) := by
  induction vs with
  | nil => exact .pure []
  | cons v vs ih => exact (resolve_traces v).bind fun r => ih.bind fun rs => .pure (r :: rs)

theorem sequenceRuns_traces (s : Sequence) :
    Traces oracle (sequenceRuns (oracle.environment elements depth) owner s) fun log x =>
      Followed (ResolvesAll owner (s.items elements))
        (fun rs => Silent (.ok (rs.filterMap Resolved.fragment?))) log (runFragments <$> x) := by
  have hempty : ∀ vs : List Value, vs.isEmpty = true →
      Traces oracle (pure [.group []]) fun log x => Followed (ResolvesAll owner vs)
        (fun rs => Silent (.ok (rs.filterMap Resolved.fragment?))) log (runFragments <$> x) := by
    intro vs hvs
    rw [List.isEmpty_iff.mp hvs]
    refine (Traces.pure _).mono ?_
    rintro _ _ ⟨rfl, rfl⟩
    have hnil : ResolvesAll owner [] [] (.ok []) := ⟨rfl, rfl⟩
    exact Followed.on_silent hnil
  have hgroup : ∀ (rs : List Resolved) log x, Silent (.ok (group rs)) log x →
      Silent (.ok (rs.filterMap Resolved.fragment?)) log (runFragments <$> x) := by
    rintro rs _ _ ⟨rfl, rfl⟩
    exact ⟨rfl, congrArg Except.ok (runFragments_groupAfter false rs)⟩
  have hitems : ∀ vs : List Value,
      Traces oracle (itemRuns (oracle.environment elements depth) owner vs) fun log x =>
        Followed (ResolvesAll owner vs)
          (fun rs => Silent (.ok (rs.filterMap Resolved.fragment?))) log (runFragments <$> x) := by
    intro vs
    unfold itemRuns
    split_ifs with hvs
    · exact hempty vs hvs
    · refine ((resolveItems_traces vs).bind fun rs => .pure (group rs)).mono fun log x h => ?_
      exact h.map hgroup
  cases s with
  | list r =>
    change Traces oracle (if (elements r).isEmpty then pure [.group []] else do
      let rs ← resolveList (oracle.environment elements depth) owner r
      pure (group rs)) _
    rw [resolveList_of_fixed (oracle.environment elements depth) owner fun _ => rfl]
    exact hitems (elements r)
  | tuple vs => exact hitems vs
  | segments vs => exact hitems vs

theorem settle_traces (v : Value) :
    Traces oracle (settle (oracle.environment elements depth) owner v) fun log x =>
      SlotSettles owner elements v log (Content.fragments <$> x) := by
  have hresolved : ∀ r, Traces oracle
      (settleResolved (oracle.environment elements depth) owner r) fun log x =>
        FragmentsHeld owner elements r log (Content.fragments <$> x) := by
    intro r
    cases r with
    | sequence s =>
      refine ((sequenceRuns_traces s).bind fun rs => .pure (Content.runs rs)).mono fun log x h => ?_
      cases h with
      | on h h' =>
        rw [h'.1, h'.2, List.append_nil]
        exact h
      | failed h => exact h
    | _ =>
      refine (Traces.pure _).mono ?_
      rintro _ _ ⟨rfl, rfl⟩
      exact ⟨rfl, rfl⟩
  exact ((resolve_traces v).bind hresolved).mono fun log x h => h.map fun _ _ _ h => h

variable {nested : Fragment → List Piece → Pass (List Call) (List Piece)}
  {N : Fragment → Transcript → Except Failure Unit → Prop}
  (hn : ∀ g ps, Traces oracle (nested g ps) fun log x => N g log (done x))

theorem walkDelimiter_traces (stands : Bool) (ps : List Piece) :
    Traces oracle (walkDelimiter notePiece owner stands ps) Quiet := by
  cases stands <;> exact .quiet _

theorem Traces.bind_done {p : Pass (List Call) α} {f : α → Pass (List Call) β}
    {P Q : Transcript → Except Failure Unit → Prop}
    (hp : Traces oracle p fun log x => P log (done x))
    (hf : ∀ a, Traces oracle (f a) fun log x => Q log (done x)) :
    Traces oracle (p >>= f) fun log x => Followed P (fun _ => Q) log (done x) := by
  refine (hp.bind hf).mono fun log x h => ?_
  cases h with
  | on h h' => exact .on h h'
  | failed h => exact .failed h

include hn

theorem walkRuns_traces (rs : List Run) (ps : List Piece) :
    Traces oracle (walkRuns notePiece owner nested rs ps) fun log x =>
      InTurn N (runFragments rs) log (done x) := by
  induction rs generalizing ps with
  | nil => exact .quiet ps
  | cons r rest ih =>
    cases r with
    | group vs => exact (Traces.quiet _).after_quiet ih
    | fragment g adjacent =>
      exact (walkDelimiter_traces adjacent ps).after_quiet fun ps => (hn g ps).bind_done ih

theorem walkContent_traces (c : Content) (ps : List Piece) :
    Traces oracle (walkContent notePiece owner nested c ps) fun log x =>
      InTurn N c.fragments log (done x) := by
  cases c with
  | fragment g => exact (hn g ps).mono fun log x h => .single h
  | runs rs => exact walkRuns_traces hn rs ps
  | scalar v => exact .quiet _
  | skip => exact .quiet ps

theorem walkGaps_traces (gaps : List (String × Option Value)) (previous : Option SlotKind)
    (ps : List Piece) :
    Traces oracle
      (walkGaps (oracle.environment elements depth) notePiece owner nested gaps previous ps)
      fun log x => InTurn (fun v => Followed (SlotSettles owner elements v) (InTurn N))
        (gaps.filterMap Prod.snd) log (done x) := by
  induction gaps generalizing previous ps with
  | nil => exact .quiet ps
  | cons gap rest ih =>
    obtain ⟨literal, _ | v⟩ := gap
    · exact (Traces.quiet _).after_quiet (ih _)
    · refine (Traces.quiet _).after_quiet fun ps => ?_
      refine ((settle_traces v).bind fun c => (walkDelimiter_traces _ ps).after_quiet fun ps =>
        (walkContent_traces hn c ps).bind_done fun ps => ih _ ps).mono fun log x h => ?_
      refine Followed.assoc ?_
      cases h with
      | on h h' => exact .on h h'
      | failed h => exact .failed h

end Walk

/-- **A walk makes the calls of the fragment**, with the answers of the oracle. -/
theorem Fragment.walk_traces (oracle : Oracle) (elements : ListRef → List Value) (depth n : Nat)
    (f : Fragment) (ps : List Piece) :
    Traces oracle (f.walk (oracle.environment elements depth) notePiece n ps) fun log x =>
      FragmentCalls elements n f log (done x) := by
  induction n generalizing f ps with
  | zero =>
    refine (Traces.throw .tooDeep).mono ?_
    rintro _ _ ⟨rfl, rfl⟩
    exact ⟨rfl, rfl⟩
  | succ n ih =>
    refine (walkGaps_traces ih f.gaps none ps).mono fun log x h => ?_
    rw [f.gaps_slots] at h
    exact h

/-! ## The two passes -/

/-- **The two passes run in lockstep**, whatever the oracle. There is one transcript, fixed by the
order of calls and the answers of the oracle. The value pass and the text pass, in any dialect that
writes all placeholders, both make its calls and fail with the same failure, or both make its calls
and give as many values as placeholders. -/
theorem passes_in_lockstep (oracle : Oracle) (elements : ListRef → List Value) (depth : Nat)
    (f : Fragment) (before : List Call) :
    let env := oracle.environment elements depth
    ∃ log x, Answered oracle before log ∧ FragmentCalls elements depth f log x ∧
      (∀ log' x', Answered oracle before log' → FragmentCalls elements depth f log' x' →
        log' = log ∧ x' = x) ∧
      ((∃ e, x = .error e ∧
        f.bindings env before = .error e (before ++ calls log) ∧
        ∀ (d : Dialect) (token : Nat → String), d.Writes token →
          f.statement env d before = .error e (before ++ calls log)) ∨
      (∃ ps, x = .ok () ∧
        f.bindings env before = .ok (boundValues ps) (before ++ calls log) ∧
        ∀ (d : Dialect) (token : Nat → String), d.Writes token →
          f.statement env d before =
            .ok (dropNewlines (spell token 1 ps)) (before ++ calls log) ∧
          ((marks token 1 ps).filterMap Mark.token?).length = (boundValues ps).length)) := by
  intro env
  obtain ⟨log, x, ha, hcalls, hrun⟩ := f.walk_traces oracle elements depth depth [] before
  have hpieces : f.pieces env env.depth before = resultOf x (before ++ calls log) := hrun
  refine ⟨log, done x, ha, hcalls, fun log' x' ha' hcalls' => ?_, ?_⟩
  · exact FragmentCalls.determined elements depth f before log' log x' _ ha' ha hcalls' hcalls
  · rw [f.bindings_eq_pieces]
    cases x with
    | error e =>
      refine .inl ⟨e, rfl, Pass.map_error hpieces _, fun d token hd => ?_⟩
      rw [f.statement_eq_pieces env hd]
      exact Pass.map_error hpieces _
    | ok ps =>
      refine .inr ⟨ps, rfl, Pass.map_ok hpieces _, fun d token hd => ⟨?_, ?_⟩⟩
      · rw [f.statement_eq_pieces env hd]
        exact Pass.map_ok hpieces _
      · rw [placeholders_marks, List.length_map, List.length_range']

/-- Calls below the slots of the fragment: in a nested fragment, among the elements of a sequence
and in a fragment among them. The oracle answers with the number of calls before. -/
theorem passes_in_lockstep_nested :
    let oracle : Oracle := fun before _ => .ok (.int before.length)
    let c : Callable := ⟨0, "count"⟩
    let g : Fragment := ⟨1, ["b = "], false, [.callable c], "", none, false⟩
    let h : Fragment := ⟨2, ["c = "], false, [.callable c], "", none, false⟩
    let f : Fragment := ⟨0, ["a = ", " AND ", " IN "], false,
      [.callable c, .fragment g, .tuple [.callable c, .fragment h, .callable c]], "", none, false⟩
    let env := oracle.environment (fun _ => []) 2
    let made : List Call := [⟨c, f⟩, ⟨c, g⟩, ⟨c, f⟩, ⟨c, f⟩, ⟨c, h⟩]
    (∃ log, Answered oracle [] log ∧ FragmentCalls (fun _ => []) 2 f log (.ok ()) ∧
      calls log = made) ∧
    f.bindings env [] = .ok [.scalar (.int 0), .scalar (.int 1), .group [.int 2],
      .scalar (.int 4), .group [.int 3]] made ∧
    f.statement env .postgres [] = .ok "a = $1 AND b = $2 IN $3c = $4$5" made := by
  intro oracle c g h f env made
  have hpieces : f.pieces env 2 [] = .ok [.literal "a = ", .bound (.scalar (.int 0)),
      .literal " AND ", .literal "b = ", .bound (.scalar (.int 1)), .literal " IN ",
      .bound (.group [.int 2]), .literal "c = ", .bound (.scalar (.int 4)),
      .bound (.group [.int 3])] made := rfl
  have hbindings : f.bindings env [] = .ok [.scalar (.int 0), .scalar (.int 1), .group [.int 2],
      .scalar (.int 4), .group [.int 3]] made := rfl
  obtain ⟨log, x, hanswered, hcalls, -, ⟨e, -, herror, -⟩ | ⟨ps, rfl, hok, -⟩⟩ :=
    passes_in_lockstep oracle (fun _ => []) 2 f []
  · cases hbindings.symm.trans herror
  · injection hbindings.symm.trans hok with hvalues hmade
    refine ⟨⟨log, hanswered, hcalls, hmade.symm⟩, hbindings, ?_⟩
    rw [f.statement_eq_pieces env Dialect.writes_postgres]
    exact Pass.map_ok hpieces _

end SqlFragments
