import SqlFragments.Proofs.Caching

/-!
# Bound values do not reach the text

Two fragments that differ only in what is bound have the same statements. What is bound in a place
may be any scalar, an empty sequence, or scalars in a sequence, however many; what has to agree is
the literal text, the nesting of fragments, and which places are left out or fail.

* `SameRuns`: elements of two sequences that differ in their runs of scalars only.
* `Reading.BindsOne`: what binds one value.
* `SlotsAlike`, `DifferInBound`: slots, and fragments, that differ only in what is bound.
* **`runsAlike_of_sameRuns`**: runs of different length take one place each.
* **`DifferInBound.flatten_eq`**: the statement in any dialect.
* **`statements_ignore_bound_values`**: whatever is read of the two fragments in any two sessions.
-/

namespace SqlFragments

/-! ## Runs of scalars -/

/-- The elements that are not left out. -/
def keptElements (rs : List Resolved) : List Resolved := rs.filter fun r => r.kind ≠ .skip

/-- One or more elements that are bound. -/
def IsRun (rs : List Resolved) : Prop :=
  rs ≠ [] ∧ ∀ r ∈ rs, r.kind ≠ .fragment ∧ r.kind ≠ .skip

section Runs

variable (K : Fragment → Fragment → Prop)

/-- Elements that differ only in the scalars between fragments. -/
inductive SameRuns : List Resolved → List Resolved → Prop
  | nil : SameRuns [] []
  | fragment {g g' : Fragment} {rs rs' : List Resolved} (h : K g g') (hrest : SameRuns rs rs') :
    SameRuns (.fragment g :: rs) (.fragment g' :: rs')
  | scalars {run run' rs rs' : List Resolved} (hrun : IsRun run) (hrun' : IsRun run')
    (hrest : SameRuns rs rs') : SameRuns (run ++ rs) (run' ++ rs')

/-- Bound values are not compared. -/
def AnyBound : Bound → Bound → Prop := fun _ _ => True

end Runs

/-- Puts scalars in front of runs: into the group that they begin with, or into a new one. -/
def prependScalars (vs : List Value) : List Run → List Run
  | .group ws :: runs => .group (vs ++ ws) :: runs
  | runs => .group vs :: runs

theorem groupAfter_keptElements (b : Bool) (rs : List Resolved) :
    groupAfter b (keptElements rs) = groupAfter b rs := by
  induction rs generalizing b with
  | nil => rfl
  | cons r rest ih =>
    unfold keptElements at ih ⊢
    cases r with
    | skip => exact ih b
    | fragment g =>
      rw [List.filter_cons_of_pos (by simp [Resolved.kind]), groupAfter, groupAfter, ih true]
    | scalar v =>
      rw [List.filter_cons_of_pos (by simp [Resolved.kind]), groupAfter, groupAfter, ih false]
    | sequence s =>
      rw [List.filter_cons_of_pos (by simp [Resolved.kind]), groupAfter, groupAfter, ih false]

theorem groupAfter_cons_bound (b : Bool) {r : Resolved} (hf : r.kind ≠ .fragment)
    (hs : r.kind ≠ .skip) (rs : List Resolved) :
    groupAfter b (r :: rs) = consScalar r.toValue (groupAfter false rs) := by
  cases r with
  | fragment g => exact absurd rfl hf
  | skip => exact absurd rfl hs
  | scalar v => rfl
  | sequence s => rfl

theorem consScalar_prependScalars (v : Value) (vs : List Value) (runs : List Run) :
    consScalar v (prependScalars vs runs) = prependScalars (v :: vs) runs := by
  unfold prependScalars
  split <;> rfl

theorem consScalar_eq_prependScalars (v : Value) (runs : List Run) :
    consScalar v runs = prependScalars [v] runs := by
  cases runs with
  | nil => rfl
  | cons r runs => cases r <;> rfl

theorem groupAfter_run (b : Bool) {run : List Resolved} (hrun : IsRun run) (rs : List Resolved) :
    groupAfter b (run ++ rs) = prependScalars (run.map Resolved.toValue) (groupAfter false rs) := by
  obtain ⟨hne, hbound⟩ := hrun
  induction run generalizing b with
  | nil => exact absurd rfl hne
  | cons r run ih =>
    obtain ⟨hf, hs⟩ := hbound r List.mem_cons_self
    rw [List.cons_append, groupAfter_cons_bound b hf hs]
    cases run with
    | nil => exact consScalar_eq_prependScalars r.toValue (groupAfter false rs)
    | cons r' run =>
      rw [ih false (List.cons_ne_nil r' run) fun x hx => hbound x (List.mem_cons_of_mem r hx)]
      exact consScalar_prependScalars _ _ _

section Alike

variable {K : Fragment → Fragment → Prop}

theorem prependScalars_alike (vs ws : List Value) {runs runs' : List Run}
    (h : List.Forall₂ (Run.Alike K AnyBound) runs runs') :
    List.Forall₂ (Run.Alike K AnyBound) (prependScalars vs runs) (prependScalars ws runs') := by
  have hgroup : ∀ vs ws, Run.Alike K AnyBound (.group vs) (.group ws) := fun _ _ => .group trivial
  cases h with
  | nil => exact .cons (hgroup vs ws) .nil
  | cons hr hrest =>
    cases hr with
    | fragment hK adjacent => exact .cons (hgroup vs ws) (.cons (.fragment hK adjacent) hrest)
    | group hC => exact .cons (hgroup _ _) hrest

/-- **Runs of scalars take one place each**, however long they are. -/
theorem runsAlike_of_sameRuns {rs rs' : List Resolved} (h : SameRuns K rs rs') (b : Bool) :
    List.Forall₂ (Run.Alike K AnyBound) (groupAfter b rs) (groupAfter b rs') := by
  induction h generalizing b with
  | nil => exact .nil
  | fragment hK _ ih => exact .cons (.fragment hK b) (ih true)
  | scalars hrun hrun' _ ih =>
    rw [groupAfter_run b hrun, groupAfter_run b hrun']
    exact prependScalars_alike _ _ (ih false)

end Alike

/-! ## Fragments that differ in what is bound -/

/-- What binds one value: a scalar, an empty sequence, or scalars in a sequence. -/
inductive Reading.BindsOne (A : Reading) (owner : Fragment) : Resolved → Prop
  | scalar (v : Value) : A.BindsOne owner (.scalar v)
  | empty {s : Sequence} (h : A.items s = []) : A.BindsOne owner (.sequence s)
  | scalars {s : Sequence} {rs : List Resolved} (hrs : A.resolveItems owner (A.items s) = .ok rs)
    (h : IsRun (keptElements rs)) : A.BindsOne owner (.sequence s)

section Slots

variable (A A' : Reading) (K : Fragment → Fragment → Prop) (f f' : Fragment)

/-- What two slots stand for differs only in what is bound. -/
inductive ResolvedAlike : Resolved → Resolved → Prop
  | fragment {g g' : Fragment} (h : K g g') : ResolvedAlike (.fragment g) (.fragment g')
  | skip : ResolvedAlike .skip .skip
  | single {r r' : Resolved} (h : A.BindsOne f r) (h' : A'.BindsOne f' r') : ResolvedAlike r r'
  | sequence {s s' : Sequence} (hne : A.items s ≠ []) (hne' : A'.items s' ≠ [])
    (h : Corresponds (fun rs rs' => SameRuns K (keptElements rs) (keptElements rs'))
      (A.resolveItems f (A.items s)) (A'.resolveItems f' (A'.items s'))) :
    ResolvedAlike (.sequence s) (.sequence s')

/-- Two slots stand for what differs only in what is bound, or fail alike. -/
def SlotsAlike (v v' : Value) : Prop :=
  Corresponds (ResolvedAlike A A' K f f') (A.resolve f v) (A'.resolve f' v')

end Slots

/-- Related fragments differ only in what is bound: in their slots, and in those of the fragments
inside. -/
structure DifferInBound (A A' : Reading) (K : Fragment → Fragment → Prop) : Prop where
  segments : ∀ f f', K f f' → f.segments = f'.segments
  delimiter : ∀ f f', K f f' → f.delimiter = f'.delimiter
  joined : ∀ f f', K f f' → f.joined = f'.joined
  slots : ∀ f f', K f f' → List.Forall₂ (SlotsAlike A A' K f f') f.slots f'.slots

section Settle

variable {A A' : Reading} {K : Fragment → Fragment → Prop} {f f' : Fragment}

theorem Reading.BindsOne.settle {r : Resolved} (h : A.BindsOne f r) :
    ∃ x b, A.settleResolved f r = .ok x ∧ x.bound? = some b := by
  cases h with
  | scalar v => exact ⟨_, _, rfl, rfl⟩
  | @empty s h =>
    have hruns : A.sequenceRuns f s = .ok [.group []] := by
      rw [sequenceRuns, h]
      rfl
    exact ⟨.runs [.group []], .group [], by rw [settleResolved, hruns]; rfl, rfl⟩
  | @scalars s rs hrs h =>
    have hne : A.items s ≠ [] := by
      intro hnil
      rw [hnil] at hrs
      cases hrs
      exact h.1 rfl
    have hgroup : group rs = [.group ((keptElements rs).map Resolved.toValue)] := by
      have hrun := groupAfter_run false h []
      rw [List.append_nil, groupAfter_keptElements] at hrun
      exact hrun
    have hruns : A.sequenceRuns f s = .ok (group rs) := by
      rw [sequenceRuns, if_neg (by rwa [List.isEmpty_iff]), hrs]
      rfl
    exact ⟨.runs (group rs), _, by rw [settleResolved, hruns]; rfl, by rw [hgroup]; rfl⟩

/-- **Slots that are alike hold contents that are alike.** -/
theorem SlotsAlike.settle {v v' : Value} (h : SlotsAlike A A' K f f' v v') :
    Corresponds (Content.Alike K AnyBound) (A.settle f v) (A'.settle f' v') := by
  refine Corresponds.bind h fun r r' hr => ?_
  cases hr with
  | fragment hK => exact .ok (.fragment hK)
  | skip => exact .ok .skip
  | single h h' =>
    obtain ⟨x, b, hx, hb⟩ := h.settle
    obtain ⟨x', b', hx', hb'⟩ := h'.settle
    rw [hx, hx']
    exact .ok (.single hb hb' trivial)
  | @sequence s s' hne hne' hrs =>
    have hruns : Corresponds (List.Forall₂ (Run.Alike K AnyBound)) (A.sequenceRuns f s)
        (A'.sequenceRuns f' s') := by
      rw [Reading.sequenceRuns, Reading.sequenceRuns, if_neg (by rwa [List.isEmpty_iff]),
        if_neg (by rwa [List.isEmpty_iff])]
      refine hrs.bind fun rs rs' h => .ok ?_
      have hgroups := runsAlike_of_sameRuns h false
      rw [groupAfter_keptElements, groupAfter_keptElements] at hgroups
      exact hgroups
    exact hruns.bind fun rs rs' h => .ok (.runs h)

end Settle

namespace DifferInBound

variable {A A' : Reading} {K : Fragment → Fragment → Prop} (h : DifferInBound A A' K)

include h

theorem walksAlike (depth : Nat) :
    WalksAlike (A.environment depth) (A'.environment depth) (fun _ _ => True) K
      AnyBound where
  segments := h.segments
  delimiter := h.delimiter
  joined := h.joined
  slots := by
    intro f f' hK
    refine (h.slots f f' hK).imp fun v v' hv => ?_
    rw [A.settle_environment, A'.settle_environment]
    exact hv.settle.lockstep

variable {f f' : Fragment} (hK : K f f') (depth : Nat)

include hK

/-- **The statement does not depend on what is bound**, in any dialect. -/
theorem flatten_eq (d : Dialect) : A.flatten depth d f = A'.flatten depth d f' := by
  have hlockstep : Lockstep (fun _ _ => True) Eq (f.statement (A.environment depth) d)
      (f'.statement (A'.environment depth) d) := by
    unfold Fragment.statement
    rw [Fragment.write_eq_walk, Fragment.write_eq_walk]
    refine .bind (Fragment.walk_lockstep (h.walksAlike depth) (writePiece_visitsAlike _ _ d) depth
      hK rfl) ?_
    rintro ⟨text, k⟩ _ rfl
    exact .pure rfl
  exact (hlockstep.corresponds trivial).eq

theorem collect_corresponds :
    Corresponds (fun bs bs' => bs.length = bs'.length) (A.collect depth f)
      (A'.collect depth f') := by
  have hv : VisitsAlike (fun (_ _ : Unit) => True) AnyBound
      (fun bs bs' : List Bound => bs.length = bs'.length) keepBound keepBound := by
    constructor
    · intro s bs bs' hlength
      exact .pure hlength
    · intro x y bs bs' _ hlength
      refine .pure ?_
      rw [List.length_append, List.length_append, hlength]
      rfl
  have hlockstep : Lockstep (fun _ _ => True) (fun bs bs' => bs.length = bs'.length)
      (f.bindings (A.environment depth)) (f'.bindings (A'.environment depth)) := by
    unfold Fragment.bindings
    rw [Fragment.collect_eq_walk, Fragment.collect_eq_walk]
    exact Fragment.walk_lockstep (h.walksAlike depth) hv depth hK rfl
  exact hlockstep.corresponds trivial

end DifferInBound

/-! ## Reads -/

/-- **What a read says of the statement** does not depend on what is bound. -/
theorem DifferInBound.statement_answer_eq {U U' : Rendering} {K : Fragment → Fragment → Prop}
    (h : DifferInBound U.reading U'.reading K) (hdepth : U.depth = U'.depth)
    (hclasses : U.registry.classes = U'.registry.classes) {f f' : Fragment} (hK : K f f')
    (r : Read) : Answer.statement? <$> U.answer f r = Answer.statement? <$> U'.answer f' r := by
  have hflatten : ∀ d, Corresponds Eq (U.flatten d f) (U'.flatten d f') := by
    intro d
    rw [Rendering.flatten, Rendering.flatten, ← hdepth]
    exact .of_eq (h.flatten_eq hK U.depth d)
  have hcollect : Corresponds (fun bs bs' => bs.length = bs'.length) (U.collect f)
      (U'.collect f') := by
    rw [Rendering.collect, Rendering.collect, ← hdepth]
    exact h.collect_corresponds hK U.depth
  have hfor : U.dialectFor = U'.dialectFor := Rendering.dialectFor_congr hclasses
  have htext : ∀ t t' : String, t = t' →
      Corresponds (fun a b => Answer.statement? a = Answer.statement? b) (.ok (.text t))
        (.ok (.text t')) := by
    rintro t _ rfl
    exact .ok rfl
  refine Corresponds.map_eq ?_
  cases r with
  | text => exact (hflatten _).bind htext
  | sql => exact (hflatten _).bind htext
  | str => exact (hflatten _).bind htext
  | values => exact hcollect.bind fun bs bs' _ => .ok rfl
  | compile target =>
    refine (Corresponds.of_eq (congrFun hfor target)).bind ?_
    rintro d _ rfl
    refine (hflatten d).bind ?_
    rintro t _ rfl
    exact hcollect.bind fun bs bs' _ => .ok rfl

section Sessions

variable {ω ω' : Type} {host : Host ω} {host' : Host ω'} {U U' : Rendering}
  {pool pool' : List Fragment} {s : Session ω} {s' : Session ω'} {ahead ahead' : Nat → Nat → Prop}

/-- **Bound values do not reach the text.** Take two sessions after any reads and changes, and in
each of them a fragment, such that the two differ only in what is bound. They have one statement in
each dialect, and whatever has been read of them says the same of the statement. -/
theorem statements_ignore_bound_values (hdepth : host.depth = U.depth)
    (hanswers : host.Answers U pool ahead) (hs : s.Starts U pool)
    (hahead : ahead s.freshFragment s.freshFragment) (hdepth' : host'.depth = U'.depth)
    (hanswers' : host'.Answers U' pool' ahead') (hs' : s'.Starts U' pool')
    (hahead' : ahead' s'.freshFragment s'.freshFragment)
    (hsame : U.depth = U'.depth) (hregistry : U.registry.classes = U'.registry.classes)
    {K : Fragment → Fragment → Prop} (hK : DifferInBound U.reading U'.reading K)
    (xs ys : List Step) :
    let run := runSteps (Step.perform host) ⟨pool, s⟩ xs
    let run' := runSteps (Step.perform host') ⟨pool', s'⟩ ys
    ∀ i j f f', run.2.pool[i]? = some f → run'.2.pool[j]? = some f' → K f f' →
      (∀ d, outcome (f.statement host.environment d) run.2.state =
        outcome (f'.statement host'.environment d) run'.2.state) ∧
      ∀ r x y, .read i r x ∈ run.1 → .read j r y ∈ run'.1 →
        Answer.statement? <$> x = Answer.statement? <$> y := by
  intro run run' i j f f' hi hj hff'
  refine ⟨fun d => ?_, fun r x y hx hy => ?_⟩
  · have hlast := (runSteps_simulates hdepth hanswers xs (hs.simulates hahead)).2
    have hlast' := (runSteps_simulates hdepth' hanswers' ys (hs'.simulates hahead')).2
    rw [hlast.outcome_statement hdepth hanswers (List.mem_of_getElem? hi),
      hlast'.outcome_statement hdepth' hanswers' (List.mem_of_getElem? hj), Rendering.flatten,
      Rendering.flatten, ← hsame]
    exact hK.flatten_eq hff' U.depth d
  · rw [hanswers.answer_of_mem hdepth hs hahead hx hi,
      hanswers'.answer_of_mem hdepth' hs' hahead' hy hj]
    exact hK.statement_answer_eq hsame hregistry hff' r

end Sessions

/-- A string that looks like a statement, and an empty sequence, change places. -/
theorem statements_ignore_bound_values_injection :
    let host : Host Unit := ⟨fun _ _ => pure .null, 1⟩
    let fragment : List Value → Fragment := fun slots =>
      ⟨0, ["a = ", " AND b IN "], false, slots, "", none, false⟩
    let f := fragment [.str "x", .tuple []]
    let f' := fragment [.tuple [], .str "'; DROP TABLE t; -- $9"]
    let s : Session Unit := { Session.initial () with freshFragment := 1 }
    ∃ x y, (runSteps (Step.perform host) ⟨[f], s⟩ [.read 0 .text]).1 = [.read 0 .text x] ∧
      (runSteps (Step.perform host) ⟨[f'], s⟩ [.read 0 .text]).1 = [.read 0 .text y] ∧
      Answer.statement? <$> x = Answer.statement? <$> y := by
  intro host fragment f f' s
  let A : Reading := ⟨fun _ => [], fun _ _ => .ok .null⟩
  let U : Rendering := ⟨A, 1, .initial⟩
  have hanswers : ∀ pool, host.Answers U pool Eq := fun pool =>
    Host.answers_of_undisturbed (fun c g s => ⟨s, .refl s, rfl⟩) pool
  have hstarts : ∀ slots, (∀ v ∈ slots, (∃ t, v = .str t) ∨ v = .tuple []) →
      s.Starts U [fragment slots] := by
    intro slots hslots
    refine Session.starts_initial () (by simp) (by simp [fragment]) ?_ 1
    refine A.not_reaches_list
      (P := fun v => v = .null ∨ (∃ t, v = .str t) ∨ v = .tuple []) ?_ ?_ ?_ ?_ ?_
    · intro g hg v hv
      rw [List.mem_singleton.mp hg] at hv
      exact .inr (hslots v hv)
    · rintro r (hr | ⟨t, hr⟩ | hr) <;> cases hr
    · rintro g (hg | ⟨t, hg⟩ | hg) <;> cases hg
    · rintro vs ((hvs | ⟨t, hvs⟩ | hvs) | (hvs | ⟨t, hvs⟩ | hvs)) v hv <;> cases hvs
      cases hv
    · intro c g v hv
      cases hv
      exact .inl rfl
  have hs : s.Starts U [f] := by
    refine hstarts _ fun v hv => ?_
    rcases List.mem_cons.mp hv with rfl | hv
    · exact .inl ⟨_, rfl⟩
    · exact .inr (List.mem_singleton.mp hv)
  have hs' : s.Starts U [f'] := by
    refine hstarts _ fun v hv => ?_
    rcases List.mem_cons.mp hv with rfl | hv
    · exact .inr rfl
    · exact .inl ⟨_, List.mem_singleton.mp hv⟩
  have hK : DifferInBound A A fun a b => a = f ∧ b = f' := by
    constructor
    case segments => rintro _ _ ⟨rfl, rfl⟩; rfl
    case delimiter => rintro _ _ ⟨rfl, rfl⟩; rfl
    case joined => rintro _ _ ⟨rfl, rfl⟩; rfl
    case slots =>
      rintro _ _ ⟨rfl, rfl⟩
      exact .cons (.ok (.single (.scalar _) (.empty rfl)))
        (.cons (.ok (.single (.empty rfl) (.scalar _))) .nil)
  have hrun := eq_of_alike (fun _ _ h => h)
    (runSteps_simulates rfl (hanswers _) [.read 0 .text] (hs.simulates rfl)).1
  have hrun' := eq_of_alike (fun _ _ h => h)
    (runSteps_simulates rfl (hanswers _) [.read 0 .text] (hs'.simulates rfl)).1
  refine ⟨U.answer f .text, U.answer f' .text, hrun, hrun', ?_⟩
  refine (statements_ignore_bound_values rfl (hanswers _) hs rfl rfl (hanswers _) hs' rfl rfl rfl hK
    [.read 0 .text] [.read 0 .text] 0 0 f f' rfl rfl ⟨rfl, rfl⟩).2 .text _ _ ?_ ?_
  · rw [hrun]
    exact List.mem_cons_self
  · rw [hrun']
    exact List.mem_cons_self

end SqlFragments
