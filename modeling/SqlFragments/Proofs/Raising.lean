import SqlFragments.Proofs.Recording

/-!
# What makes rendering fail

A pass calls callables and asks a dialect for placeholders, and everything else that it does
succeeds. So it fails with what a callable raised, which then was the last one called, or with what
the dialect raised; the ordinals that a dialect is asked for start at one. Fragments that are nested
too deep for the session are the only other cause.

* `FailsFrom`, `FailsBy`: a pass that fails with what its last call raised, or with a failure of its
  own, from one state or from every state. `FailsFrom.bind`, `FailsBy.bind`: one part after another.
* `Environment.NestsWithin`, `Environment.GrowsWithin`, `Host.Bounds`: how deep fragments are
  nested, for how long list objects grow while they are resolved, and the limit of a session.
* **`Fragment.walk_failsBy`**, **`Fragment.statement_failsBy`**, **`Fragment.bindings_failsBy`**:
  the walk, and the two passes.
* **`Fragment.statement_congr_from_one`**: placeholders are asked for ordinals from one on.
* **`only_calls_and_dialects_fail`**.
-/

namespace SqlFragments

variable {σ τ ω α β : Type}

/-! ## Passes that fail by a call -/

/-- From `t`, after calls that were all answered: a pass succeeds, `I` holds and all calls were
answered, or it fails with what the last call raised, or it fails by itself, as `E` says, and all
calls were answered. -/
def FailsFrom (log : τ → Transcript) (I : τ → Prop) (E : Failure → Prop) (p : Pass τ α) (t : τ) :
    Prop :=
  match p t with
  | .ok _ t' => I t' ∧ AllAnswered (log t')
  | .error e t' => RaisedLast (log t') e ∨ AllAnswered (log t') ∧ E e

/-- A pass fails by a call or by itself, as long as `I` holds and all calls so far were answered. -/
def FailsBy (log : τ → Transcript) (I : τ → Prop) (E : Failure → Prop) (p : Pass τ α) : Prop :=
  ∀ t, I t → AllAnswered (log t) → FailsFrom log I E p t

section Rules

variable {log : τ → Transcript} {I : τ → Prop} {E : Failure → Prop} {t t' : τ}

namespace FailsFrom

theorem of_ok {p : Pass τ α} {a : α} (hrun : p t = .ok a t') (hI : I t')
    (hlog : AllAnswered (log t')) : FailsFrom log I E p t := by
  unfold FailsFrom
  rw [hrun]
  exact ⟨hI, hlog⟩

theorem of_error {p : Pass τ α} {e : Failure} (hrun : p t = .error e t')
    (h : RaisedLast (log t') e ∨ AllAnswered (log t') ∧ E e) : FailsFrom log I E p t := by
  unfold FailsFrom
  rw [hrun]
  exact h

theorem ok {p : Pass τ α} {a : α} (h : FailsFrom log I E p t) (hrun : p t = .ok a t') :
    I t' ∧ AllAnswered (log t') := by
  unfold FailsFrom at h
  rwa [hrun] at h

theorem error {p : Pass τ α} {e : Failure} (h : FailsFrom log I E p t)
    (hrun : p t = .error e t') : RaisedLast (log t') e ∨ AllAnswered (log t') ∧ E e := by
  unfold FailsFrom at h
  rwa [hrun] at h

theorem bind {p : Pass τ α} {f : α → Pass τ β} (hp : FailsFrom log I E p t)
    (hf : ∀ a t', p t = .ok a t' → I t' → AllAnswered (log t') → FailsFrom log I E (f a) t') :
    FailsFrom log I E (p >>= f) t := by
  cases hrun : p t with
  | ok a t' =>
    obtain ⟨hI, hlog⟩ := hp.ok hrun
    have hrest := hf a t' hrun hI hlog
    unfold FailsFrom
    rw [Pass.bind_ok hrun]
    exact hrest
  | error e t' => exact .of_error (Pass.bind_error hrun f) (hp.error hrun)

end FailsFrom

namespace FailsBy

theorem pure (a : α) : FailsBy log I E (Pure.pure a : Pass τ α) := fun _ hI hlog => ⟨hI, hlog⟩

theorem throw {e : Failure} (h : E e) :
    FailsBy log I E (MonadExcept.throw e : Pass τ α) := fun _ _ hlog => .inr ⟨hlog, h⟩

theorem bind {p : Pass τ α} {f : α → Pass τ β} (hp : FailsBy log I E p)
    (hf : ∀ a, (∃ t t', I t ∧ p t = .ok a t') → FailsBy log I E (f a)) :
    FailsBy log I E (p >>= f) := fun t hI hlog =>
  (hp t hI hlog).bind fun a t' hrun => hf a ⟨t, t', hI, hrun⟩ t'

theorem get_bind {f : τ → Pass τ α} (hf : ∀ t, FailsBy log I E (f t)) :
    FailsBy log I E (get >>= f) := fun t hI hlog => hf t t hI hlog

theorem of_silent {p : Pass τ α} (hkeeps : Keeps I p)
    (hp : ∀ t, ∃ a t', p t = .ok a t' ∧ log t' = log t) : FailsBy log I E p := by
  intro t hI hlog
  obtain ⟨a, t', hrun, hsame⟩ := hp t
  rw [← hsame] at hlog
  exact .of_ok hrun (hkeeps.ok hI hrun) hlog

end FailsBy

end Rules

/-! ## Environments -/

/-- Each call is noted with its answer. -/
structure Environment.Records (env : Environment τ) (log : τ → Transcript) (I : τ → Prop) :
    Prop where
  answered : ∀ c f t v t', I t → env.call c f t = .ok v t' →
    I t' ∧ log t' = log t ++ [(⟨c, f⟩, .ok v)]
  failed : ∀ c f t e t', I t → env.call c f t = .error e t' →
    log t' = log t ++ [(⟨c, f⟩, .error e)]

namespace Environment

/-- A fragment that a slot of `owner` can turn out to hold while `I` holds. -/
def MayHold (env : Environment τ) (I : τ → Prop) (owner g : Fragment) : Prop :=
  ∃ v ∈ owner.slots, ∃ t c t', I t ∧ settle env owner v t = .ok c t' ∧ g ∈ c.fragments

/-- Whatever callables answer while `I` holds, fragments are nested at most `depth` deep. -/
def NestsWithin (env : Environment τ) (I : τ → Prop) : (depth : Nat) → Fragment → Prop
  | 0, _ => False
  | n + 1, f => ∀ g, env.MayHold I f g → env.NestsWithin I n g

/-- When the elements that a list object holds from index `i` on are resolved, and what was added
meanwhile, and so on, then nothing is left after `n` rounds. -/
def StopsGrowing (env : Environment τ) (owner : Fragment) (r : ListRef) : (n i : Nat) → τ → Prop
  | 0, i, t => (env.elements t r).length ≤ i
  | n + 1, i, t => (env.elements t r).length ≤ i ∨
    ∀ rs t', resolveFrom env owner r ((env.elements t r).length - i) i t = .ok rs t' →
      env.StopsGrowing owner r n (env.elements t r).length t'

/-- Whatever callables do to a list object while it is resolved, nothing is left of it after as many
rounds as the limit allows. -/
def GrowsWithin (env : Environment τ) (I : τ → Prop) : Prop :=
  ∀ owner r t, I t → env.StopsGrowing owner r (env.depth + 1) 0 t

namespace Mirrors

variable {env : Environment σ} {env' : Environment τ} {R : σ → τ → Prop} {I : σ → Prop}
  (h : env.Mirrors R env')

include h

theorem nestsWithin {n : Nat} {f : Fragment} (hf : env.NestsWithin I n f) :
    env'.NestsWithin (fun t => ∃ s, R s t ∧ I s) n f := by
  induction n generalizing f with
  | zero => exact hf
  | succ n ih =>
    rintro g ⟨v, hv, t, c, t', ⟨s, hst, hs⟩, hrun, hg⟩
    have hsettle := h.alike.settle (f := f) (v := v) rfl (.same trivial) s t hst
    rw [hrun] at hsettle
    obtain ⟨c', s', hrun', hcc', -⟩ := hsettle.ok_right
    rw [← hcc'.fragments_eq] at hg
    exact ih (hf g ⟨v, hv, s, c', s', hs, hrun', hg⟩)

theorem stopsGrowing {owner : Fragment} {r : ListRef} {n i : Nat} {s : σ} {t : τ} (hst : R s t)
    (hs : env.StopsGrowing owner r n i s) : env'.StopsGrowing owner r n i t := by
  induction n generalizing i s t with
  | zero =>
    unfold StopsGrowing
    rw [h.elements s t hst]
    exact hs
  | succ n ih =>
    unfold StopsGrowing
    rw [h.elements s t hst]
    refine hs.imp_right fun hs rs t' hrun => ?_
    have hresolve := h.alike.resolveFrom (f := owner) (r := r) rfl trivial
      ((env.elements s r).length - i) i s t hst
    rw [hrun] at hresolve
    obtain ⟨xs, s', hrun', -, hst'⟩ := hresolve.ok_right
    exact ih hst' (hs xs s' hrun')

theorem growsWithin (hgrows : env.GrowsWithin I) : env'.GrowsWithin fun t => ∃ s, R s t ∧ I s := by
  rintro owner r t ⟨s, hst, hs⟩
  rw [h.depth]
  exact h.stopsGrowing hst (hgrows owner r s hs)

end Mirrors

end Environment

/-! ## The walk -/

section Walk

variable {env : Environment τ} {log : τ → Transcript} {I : τ → Prop} {E : Failure → Prop}
  (hrec : env.Records log I)

include hrec

theorem resolve_failsBy (owner : Fragment) (v : Value) :
    FailsBy log I E (resolve env owner v) := by
  unfold resolve
  cases v.callable? with
  | some c =>
    refine FailsBy.bind (fun t hI hlog => ?_) fun v _ => .pure v.classify
    cases hrun : env.call c owner t with
    | ok v t' =>
      obtain ⟨hI', hnoted⟩ := hrec.answered c owner t v t' hI hrun
      refine .of_ok hrun hI' ?_
      rw [hnoted]
      exact hlog.concat _ v
    | error e t' =>
      exact .of_error hrun (.inl ⟨log t, _, hrec.failed c owner t e t' hI hrun, hlog⟩)
  | none => exact .pure v.classify

theorem resolveItems_failsBy (owner : Fragment) (vs : List Value) :
    FailsBy log I E (resolveItems env owner vs) := by
  induction vs with
  | nil => exact .pure []
  | cons v rest ih =>
    exact (resolve_failsBy hrec owner v).bind fun r _ => ih.bind fun rs _ => .pure (r :: rs)

theorem resolveFrom_failsBy (owner : Fragment) (r : ListRef) (n i : Nat) :
    FailsBy log I E (resolveFrom env owner r n i) := by
  induction n generalizing i with
  | zero => exact .pure []
  | succ n ih =>
    refine .get_bind fun t => ?_
    cases (env.elements t r)[i]? with
    | none => exact .pure []
    | some v =>
      exact (resolve_failsBy hrec owner v).bind fun x _ => (ih (i + 1)).bind fun xs _ =>
        .pure (x :: xs)

theorem resolveRounds_failsBy (owner : Fragment) (r : ListRef) {rounds i : Nat} {t : τ} (hI : I t)
    (hlog : AllAnswered (log t)) (hgrows : E .tooDeep ∨ env.StopsGrowing owner r rounds i t) :
    FailsFrom log I E (resolveRounds env owner r rounds i) t := by
  by_cases hnone : (env.elements t r).length ≤ i
  · exact .of_ok (resolveRounds_of_none env owner hnone rounds) hI hlog
  induction rounds generalizing i t with
  | zero =>
    have hrun : resolveRounds env owner r 0 i t = .error .tooDeep t := by
      rw [resolveRounds, Pass.get_bind, if_neg hnone]
      rfl
    exact .of_error hrun (.inr ⟨hlog, hgrows.resolve_right hnone⟩)
  | succ rounds ih =>
    unfold FailsFrom
    rw [resolveRounds, Pass.get_bind, if_neg hnone]
    refine FailsFrom.bind (resolveFrom_failsBy hrec owner r _ i t hI hlog) ?_
    intro xs t' hrun hI' hlog'
    have hrest : E .tooDeep ∨ env.StopsGrowing owner r rounds (env.elements t r).length t' :=
      hgrows.imp_right fun hstops => hstops.resolve_left hnone xs t' hrun
    refine FailsFrom.bind ?_ fun more t'' _ hI'' hlog'' => .of_ok rfl hI'' hlog''
    by_cases hnone' : (env.elements t' r).length ≤ (env.elements t r).length
    · exact .of_ok (resolveRounds_of_none env owner hnone' rounds) hI' hlog'
    · exact ih hI' hlog' hrest hnone'

theorem itemRuns_failsBy (owner : Fragment) (vs : List Value) :
    FailsBy log I E (itemRuns env owner vs) := by
  unfold itemRuns
  split_ifs
  · exact .pure _
  · exact (resolveItems_failsBy hrec owner vs).bind fun rs _ => .pure (group rs)

variable (hgrow : E .tooDeep ∨ env.GrowsWithin I)

include hgrow

theorem listRuns_failsBy (owner : Fragment) (r : ListRef) :
    FailsBy log I E (listRuns env owner r) := by
  intro t hI hlog
  by_cases hnone : (env.elements t r).isEmpty
  · have hrun : listRuns env owner r t = .ok [.group []] t := by
      rw [listRuns, Pass.get_bind, if_pos hnone]
      rfl
    exact .of_ok hrun hI hlog
  unfold FailsFrom
  rw [listRuns, Pass.get_bind, if_neg hnone]
  have hlist : FailsFrom log I E (resolveList env owner r) t :=
    resolveRounds_failsBy hrec owner r hI hlog (hgrow.imp_right fun hgrows => hgrows owner r t hI)
  exact hlist.bind fun rs t' _ hI' hlog' => .of_ok rfl hI' hlog'

theorem settle_failsBy (owner : Fragment) (v : Value) :
    FailsBy log I E (settle env owner v) := by
  have hruns : ∀ s, FailsBy log I E (sequenceRuns env owner s) := by
    intro s
    cases s with
    | list r => exact listRuns_failsBy hrec hgrow owner r
    | tuple vs => exact itemRuns_failsBy hrec owner vs
    | segments vs => exact itemRuns_failsBy hrec owner vs
  refine (resolve_failsBy hrec owner v).bind fun r _ => ?_
  cases r with
  | sequence s => exact (hruns s).bind fun rs _ => .pure (Content.runs rs)
  | _ => exact .pure _

variable {visit : Piece → β → Pass τ β} (hvisit : ∀ p b, FailsBy log I E (visit p b))

include hvisit

omit hrec hgrow in
theorem walkDelimiter_failsBy (owner : Fragment) (stands : Bool) (b : β) :
    FailsBy log I E (walkDelimiter visit owner stands b) := by
  cases stands with
  | true => exact hvisit _ b
  | false => exact .pure b

omit hrec hgrow in
theorem walkRuns_failsBy (owner : Fragment) {nested : Fragment → β → Pass τ β} {rs : List Run}
    (hn : ∀ g ∈ runFragments rs, ∀ b, FailsBy log I E (nested g b)) (b : β) :
    FailsBy log I E (walkRuns visit owner nested rs b) := by
  induction rs generalizing b with
  | nil => exact .pure b
  | cons r rest ih =>
    cases r with
    | group vs => exact (hvisit _ b).bind fun b _ => ih hn b
    | fragment g adjacent =>
      have hrest : ∀ g ∈ runFragments rest, ∀ b, FailsBy log I E (nested g b) :=
        fun g' hg' => hn g' (List.mem_cons_of_mem g hg')
      exact (walkDelimiter_failsBy hvisit owner adjacent b).bind fun b _ =>
        (hn g List.mem_cons_self b).bind fun b _ => ih hrest b

omit hrec hgrow in
theorem walkContent_failsBy (owner : Fragment) {nested : Fragment → β → Pass τ β} {c : Content}
    (hn : ∀ g ∈ c.fragments, ∀ b, FailsBy log I E (nested g b)) (b : β) :
    FailsBy log I E (walkContent visit owner nested c b) := by
  cases c with
  | fragment g => exact hn g List.mem_cons_self b
  | runs rs => exact walkRuns_failsBy hvisit owner hn b
  | scalar v => exact hvisit _ b
  | skip => exact .pure b

theorem walkGaps_failsBy (owner : Fragment) {nested : Fragment → β → Pass τ β}
    (hn : ∀ g, env.MayHold I owner g → ∀ b, FailsBy log I E (nested g b))
    {gaps : List (String × Option Value)}
    (hgaps : ∀ v ∈ gaps.filterMap Prod.snd, v ∈ owner.slots) (previous : Option SlotKind) (b : β) :
    FailsBy log I E (walkGaps env visit owner nested gaps previous b) := by
  induction gaps generalizing previous b with
  | nil => exact .pure b
  | cons gap rest ih =>
    obtain ⟨literal, _ | v⟩ := gap
    · exact (hvisit _ b).bind fun b _ => ih hgaps _ b
    · have hv : v ∈ owner.slots := hgaps v List.mem_cons_self
      have hrest : ∀ w ∈ rest.filterMap Prod.snd, w ∈ owner.slots :=
        fun w hw => hgaps w (List.mem_cons_of_mem v hw)
      refine (hvisit _ b).bind fun b _ => ?_
      refine (settle_failsBy hrec hgrow owner v).bind ?_
      rintro c ⟨t, t', hI, hrun⟩
      have hheld : ∀ g ∈ c.fragments, ∀ b, FailsBy log I E (nested g b) :=
        fun g hg => hn g ⟨v, hv, t, c, t', hI, hrun, hg⟩
      exact (walkDelimiter_failsBy hvisit owner _ b).bind fun b _ =>
        (walkContent_failsBy hvisit owner hheld b).bind fun b _ => ih hrest _ b

omit hgrow in
/-- **A walk fails** by its calls or its visits, unless fragments are nested too deep. -/
theorem Fragment.walk_failsBy {n : Nat} {f : Fragment}
    (hlimit : E .tooDeep ∨ env.GrowsWithin I ∧ env.NestsWithin I n f) (b : β) :
    FailsBy log I E (f.walk env visit n b) := by
  induction n generalizing f b with
  | zero =>
    rcases hlimit with hself | ⟨-, hnests⟩
    · exact .throw hself
    · exact hnests.elim
  | succ n ih =>
    have hnested : ∀ g, env.MayHold I f g → ∀ b, FailsBy log I E (g.walk env visit n b) :=
      fun g hg => ih (hlimit.imp_right fun h => ⟨h.1, h.2 g hg⟩)
    refine walkGaps_failsBy hrec (hlimit.imp_right And.left) hvisit f hnested ?_ none b
    rw [f.gaps_slots]
    exact fun v hv => hv

end Walk

/-! ## The two passes -/

section Passes

variable {env : Environment τ} {log : τ → Transcript} {I : τ → Prop} {E : Failure → Prop}

theorem writePlaceholder_failsBy {d : Dialect}
    (hd : ∀ (k : Nat) x, d.placeholder (.int (k + 1)) = .error x → E (.ofPlaceholder x)) (k : Nat) :
    FailsBy log I E (writePlaceholder d k : Pass τ (String × Nat)) := by
  unfold writePlaceholder
  cases hx : d.placeholder (.int (k + 1)) with
  | ok token => exact .pure _
  | error x => exact .throw (hd k x hx)

theorem writePiece_failsBy {d : Dialect}
    (hd : ∀ (k : Nat) x, d.placeholder (.int (k + 1)) = .error x → E (.ofPlaceholder x))
    (p : Piece) (x : String × Nat) :
    FailsBy log I E (writePiece d p x : Pass τ (String × Nat)) := by
  cases p with
  | literal s => exact .pure _
  | bound b => exact (writePlaceholder_failsBy hd x.2).bind fun y _ => .pure _

theorem keepBound_failsBy (p : Piece) (bs : List Bound) :
    FailsBy log I E (keepBound p bs : Pass τ (List Bound)) := by
  cases p <;> exact .pure _

variable (hrec : env.Records log I) {f : Fragment}
  (hlimit : E .tooDeep ∨ env.GrowsWithin I ∧ env.NestsWithin I env.depth f)

include hrec hlimit

/-- **The text pass fails** by its calls, or by the dialect. -/
theorem Fragment.statement_failsBy {d : Dialect}
    (hd : ∀ (k : Nat) x, d.placeholder (.int (k + 1)) = .error x → E (.ofPlaceholder x)) :
    FailsBy log I E (f.statement env d) := by
  unfold statement
  rw [write_eq_walk]
  exact (walk_failsBy hrec (writePiece_failsBy hd) hlimit _).bind fun x _ => .pure _

/-- **The value pass fails** by its calls. -/
theorem Fragment.bindings_failsBy : FailsBy log I E (f.bindings env) := by
  unfold bindings
  rw [collect_eq_walk]
  exact walk_failsBy hrec keepBound_failsBy hlimit _

end Passes

/-- **Placeholders are asked for ordinals from one on.** What a dialect does with any other makes no
difference. -/
theorem Fragment.statement_congr_from_one (env : Environment τ) (f : Fragment) {d d' : Dialect}
    (h : ∀ k : Nat, 1 ≤ k → d.placeholder (.int k) = d'.placeholder (.int k)) :
    f.statement env d = f.statement env d' := by
  have hplaceholder : ∀ k,
      (writePlaceholder d k : Pass τ (String × Nat)) = writePlaceholder d' k := by
    intro k
    have hk := h (k + 1) (Nat.le_add_left 1 k)
    rw [Int.natCast_succ] at hk
    unfold writePlaceholder
    rw [hk]
  have hvisit : (writePiece d : Piece → String × Nat → Pass τ (String × Nat)) = writePiece d' := by
    funext p x
    cases p with
    | literal s => rfl
    | bound b =>
      change (writePlaceholder d x.2 >>= _) = (writePlaceholder d' x.2 >>= _)
      rw [hplaceholder]
  unfold statement
  rw [write_eq_walk, write_eq_walk, hvisit]

/-! ## Reads -/

/-- All that can come up while `f` is rendered is within the limit of the session: fragments are not
nested deeper, and list objects do not grow for longer while they are resolved. -/
def Host.Bounds (host : Host ω) (f : Fragment) (s : Session ω) : Prop :=
  ∃ I, host.Sustains I ∧ I s ∧ host.environment.GrowsWithin I ∧
    host.environment.NestsWithin I host.depth f

section Sessions

variable {host : Host ω} {I : Session ω → Prop}

theorem Host.recording_records (hcall : ∀ c f, Keeps I (host.call c f)) :
    host.recording.environment.Records Session.transcript fun t => I t.unrecorded where
  answered := by
    intro c f t v t' hI hrun
    change host.recording.call c f t = .ok v t' at hrun
    unfold recording at hrun
    dsimp only at hrun
    cases hcalled : host.call c f t.unrecorded with
    | ok w s' =>
      rw [hcalled] at hrun
      cases hrun
      exact ⟨(hcall c f).ok hI hcalled, rfl⟩
    | error e s' =>
      rw [hcalled] at hrun
      cases hrun
  failed := by
    intro c f t e t' hI hrun
    change host.recording.call c f t = .error e t' at hrun
    unfold recording at hrun
    dsimp only at hrun
    cases hcalled : host.call c f t.unrecorded with
    | ok w s' =>
      rw [hcalled] at hrun
      cases hrun
    | error e' s' =>
      rw [hcalled] at hrun
      cases hrun
      rfl

variable (hsustains : host.Sustains I) {E : Failure → Prop} {f : Fragment}
  (hlimit : E .tooDeep ∨
    host.environment.GrowsWithin I ∧ host.environment.NestsWithin I host.depth f)

include hsustains hlimit

omit hsustains in
theorem Host.recording_limit : E .tooDeep ∨
    host.recording.environment.GrowsWithin (fun t => I t.unrecorded) ∧
      host.recording.environment.NestsWithin (fun t => I t.unrecorded) host.depth f := by
  have hsame : (fun t : Session (ω × Transcript) => ∃ s, t.unrecorded = s ∧ I s) =
      fun t => I t.unrecorded := by
    funext t
    simp
  refine hlimit.imp_right fun h => ?_
  rw [← hsame]
  exact ⟨host.recording_mirrors.growsWithin h.1, host.recording_mirrors.nestsWithin h.2⟩

theorem Fragment.memoText_failsBy (key : TextKey) {d : Dialect}
    (hd : ∀ (k : Nat) x, d.placeholder (.int (k + 1)) = .error x → E (.ofPlaceholder x)) :
    FailsBy Session.transcript (fun t => I t.unrecorded) E (f.memoText host.recording key d) := by
  intro t hI hlog
  cases hkept : (t.cacheOf f).texts.get? key with
  | some text => exact .of_ok (memoText_of_kept hkept d) hI hlog
  | none =>
    have hpass := statement_failsBy (Host.recording_records hsustains.call)
      (Host.recording_limit hlimit) hd
      (t.record (.rendering (.text key) f.shown)) (hsustains.record _ _ hI) hlog
    have hrun := memoText_of_missing host.recording hkept d
    cases hstatement : f.statement host.recording.environment d
        (t.record (.rendering (.text key) f.shown)) with
    | ok text t' =>
      obtain ⟨hI', hlog'⟩ := hpass.ok hstatement
      rw [hstatement] at hrun
      exact .of_ok hrun (hsustains.cache _ f _ hI') hlog'
    | error e t' =>
      rw [hstatement] at hrun
      exact .of_error hrun (hpass.error hstatement)

theorem Fragment.memoValues_failsBy :
    FailsBy Session.transcript (fun t => I t.unrecorded) E (f.memoValues host.recording) := by
  intro t hI hlog
  cases hkept : (t.cacheOf f).values with
  | some bs => exact .of_ok (memoValues_of_kept hkept) hI hlog
  | none =>
    have hpass := bindings_failsBy (Host.recording_records hsustains.call)
      (Host.recording_limit hlimit)
      (t.record (.rendering .values f.shown)) (hsustains.record _ _ hI) hlog
    have hrun := memoValues_of_missing host.recording hkept
    cases hbindings :
        f.bindings host.recording.environment (t.record (.rendering .values f.shown)) with
    | ok bs t' =>
      obtain ⟨hI', hlog'⟩ := hpass.ok hbindings
      rw [hbindings] at hrun
      exact .of_ok hrun (hsustains.cache _ f _ hI') hlog'
    | error e t' =>
      rw [hbindings] at hrun
      exact .of_error hrun (hpass.error hbindings)

omit hlimit in
theorem handOut_failsBy (bs : List Bound) :
    FailsBy Session.transcript (fun t => I t.unrecorded) E
      (handOut bs : Op (ω × Transcript) (List Value)) := by
  have hnew : ∀ vs, FailsBy Session.transcript (fun t => I t.unrecorded) E
      (newList vs : Op (ω × Transcript) Value) :=
    fun vs => .of_silent (fun t hI => hsustains.allocate _ vs hI) fun t => ⟨_, _, rfl, rfl⟩
  induction bs with
  | nil => exact .pure []
  | cons b rest ih =>
    cases b with
    | scalar v => exact ih.bind fun tail _ => .pure (v :: tail)
    | group vs => exact (hnew vs).bind fun own _ => ih.bind fun tail _ => .pure (own :: tail)

theorem Fragment.values_failsBy :
    FailsBy Session.transcript (fun t => I t.unrecorded) E (f.values host.recording) := by
  refine (memoValues_failsBy hsustains hlimit).bind fun bs _ =>
    (handOut_failsBy hsustains bs).bind fun items _ => ?_
  exact .of_silent (fun t hI => hsustains.allocate _ items hI) fun t => ⟨_, _, rfl, rfl⟩

theorem Fragment.finishCompile_failsBy (target text : String) :
    FailsBy Session.transcript (fun t => I t.unrecorded) E
      (f.finishCompile host.recording target text) := by
  refine (values_failsBy hsustains hlimit).bind fun l _ => ?_
  exact .of_silent (fun t hI => hsustains.fresh _ hI) fun t => ⟨_, _, rfl, rfl⟩

end Sessions

/-! ## The causes -/

namespace Read

variable (s : Session ω) (e : Failure)

/-- There is no dialect for the target: no class is registered for it, or an abstract one. -/
def Unavailable : Read → Prop
  | compile t => s.registry.object? t = none ∧
    (s.registry.class? t = none ∧
        e = .unsupportedTarget (.str t) (quoted t) s.registry.targets ∨
      ∃ c, s.registry.class? t = some c ∧ c.dialect? = none ∧ e = .abstractClass c.title)
  | _ => False

/-- The dialect of the target does not write the placeholder of some ordinal from one on. -/
def Refused : Read → Prop
  | compile t => ∃ o s₀, createDialect (.str t) s = .ok o s₀ ∧
    ∃ (k : Nat) (x : Raised), 1 ≤ k ∧ o.dialect.render (.int k) = .error x ∧ e = .raised x
  | _ => False

end Read

section Causes

variable {host : Host ω} {f : Fragment} {s : Session ω}

theorem Host.sustains_true (host : Host ω) : host.Sustains fun _ => True where
  call c f s _ := by cases host.call c f s <;> trivial
  record _ _ _ := trivial
  cache _ _ _ _ := trivial
  allocate _ _ _ := trivial
  fresh _ _ := trivial
  create _ _ _ _ _ _ := trivial

theorem postgres_writes (k : Nat) (x : PlaceholderError) :
    Dialect.postgres.placeholder (.int (k + 1)) ≠ .error x := by
  rw [Dialect.placeholder_int _ (by omega)]
  rintro ⟨⟩

theorem mysql_writes (k : Nat) (x : PlaceholderError) :
    Dialect.mysql.placeholder (.int (k + 1)) ≠ .error x := by
  rw [Dialect.placeholder_int _ (by omega)]
  rintro ⟨⟩

theorem Dialect.placeholder_refused {d : Dialect} {k : Nat} {x : PlaceholderError}
    (h : d.placeholder (.int (k + 1)) = .error x) :
    ∃ y, d.render (.int ((k + 1 : Nat) : Int)) = .error y ∧ x = .raised y := by
  rw [placeholder_int _ (by omega)] at h
  rw [Int.natCast_succ]
  cases hrender : d.render (.int (k + 1)) with
  | ok token =>
    rw [hrender] at h
    cases h
  | error y =>
    rw [hrender] at h
    cases h
    exact ⟨y, rfl, rfl⟩

theorem createDialect_unavailable {t : String} {e : Failure} {s' : Session ω}
    (h : createDialect (.str t) s = .error e s') : (Read.compile t).Unavailable s e := by
  rw [createDialect_str] at h
  unfold Registry.create at h
  cases hobject : s.registry.object? t with
  | some o =>
    rw [hobject] at h
    cases h
  | none =>
    rw [hobject] at h
    cases hclass : s.registry.class? t with
    | none =>
      rw [hclass] at h
      cases h
      exact ⟨hobject, .inl ⟨hclass, rfl⟩⟩
    | some c =>
      rw [hclass] at h
      unfold DialectClass.instantiate? at h
      cases hdialect : c.dialect? with
      | none =>
        simp only [hdialect, Option.map_none] at h
        cases h
        exact ⟨hobject, .inr ⟨c, hclass, hdialect, rfl⟩⟩
      | some d =>
        simp only [hdialect, Option.map_some] at h
        cases h

theorem createDialect_recorded (t : String) (s : Session ω) :
    (∃ o s₀, createDialect (.str t) s = .ok o s₀ ∧
      createDialect (.str t) s.recorded = .ok o s₀.recorded) ∨
    ∃ e, createDialect (.str t) s = .error e s ∧
      createDialect (.str t) s.recorded = .error e s.recorded := by
  have hsame : s.recorded.registry.create s.recorded.fresh t = s.registry.create s.fresh t := rfl
  rw [createDialect_str, createDialect_str, hsame]
  cases s.registry.create s.fresh t with
  | ok x => exact .inl ⟨_, _, rfl, rfl⟩
  | error e => cases e <;> exact .inr ⟨_, rfl, rfl⟩

variable {I : Session ω → Prop} {E : Failure → Prop} (hsustains : host.Sustains I) (hs : I s)
  (hlimit : E .tooDeep ∨
    host.environment.GrowsWithin I ∧ host.environment.NestsWithin I host.depth f)

include hsustains hs hlimit

theorem Read.failsBy (r : Read) (hown : ∀ e, r.Refused s e → E e) :
    match r.perform host.recording f s.recorded with
    | .ok _ t => AllAnswered t.transcript
    | .error e t => RaisedLast t.transcript e ∨
      AllAnswered t.transcript ∧ (E e ∨ r.Unavailable s e ∧ t = s.recorded) := by
  have hread : ∀ p : Op (ω × Transcript) Answer,
      FailsBy Session.transcript (fun t => I t.unrecorded) E p → ∀ s₀ : Session ω, I s₀ →
      match p s₀.recorded with
      | .ok _ t => AllAnswered t.transcript
      | .error e t => RaisedLast t.transcript e ∨
        AllAnswered t.transcript ∧ (E e ∨ r.Unavailable s e ∧ t = s.recorded) := by
    intro p hp s₀ hs₀
    have hrun := hp s₀.recorded hs₀ .nil
    cases hresult : p s₀.recorded with
    | ok a t => exact (hrun.ok hresult).2
    | error e t => exact (hrun.error hresult).imp_right fun h => ⟨h.1, .inl h.2⟩
  have htext : ∀ key, FailsBy Session.transcript (fun t => I t.unrecorded) E
      (f.memoText host.recording key .postgres >>= fun x => pure (Answer.text x)) := fun key =>
    (Fragment.memoText_failsBy hsustains hlimit key
      fun k x hx => (postgres_writes k x hx).elim).bind fun x _ => .pure _
  have hsql : ∀ key, FailsBy Session.transcript (fun t => I t.unrecorded) E
      (f.memoText host.recording key .mysql >>= fun x => pure (Answer.text x)) := fun key =>
    (Fragment.memoText_failsBy hsustains hlimit key
      fun k x hx => (mysql_writes k x hx).elim).bind fun x _ => .pure _
  cases r with
  | text => exact hread _ (htext _) s hs
  | sql => exact hread _ (hsql _) s hs
  | str => exact hread _ (htext _) s hs
  | values =>
    refine hread _ ((Fragment.values_failsBy hsustains hlimit).bind fun l _ => ?_) s hs
    exact .get_bind fun t => .pure _
  | compile target =>
    rw [Read.perform_compile_eq]
    rcases createDialect_recorded target s with
      ⟨o, s₀, hcreate, hrecorded⟩ | ⟨e, hcreate, hrecorded⟩
    · rw [Pass.bind_ok hrecorded]
      have hd : ∀ (k : Nat) x, o.dialect.placeholder (.int (k + 1)) = .error x →
          E (.ofPlaceholder x) := by
        intro k x hx
        obtain ⟨y, hy, rfl⟩ := Dialect.placeholder_refused hx
        exact hown _ ⟨o, s₀, hcreate, k + 1, y, Nat.le_add_left 1 k, hy, rfl⟩
      refine hread _ ((Fragment.memoText_failsBy hsustains hlimit _ hd).bind fun text _ => ?_) s₀
        ((createDialect_keeps hsustains.create (.str target)).ok hs hcreate)
      exact Fragment.finishCompile_failsBy hsustains hlimit target text
    · rw [Pass.bind_error hrecorded]
      exact .inr ⟨.nil, .inr ⟨createDialect_unavailable hcreate, rfl⟩⟩

end Causes

section Main

variable (host : Host ω) (f : Fragment) (s : Session ω)

/-- A read that fails, with its calls: the last of them raised the failure, or none of them did and
the failure has another cause. -/
theorem Read.failure_cases (r : Read) {e : Failure} {s' : Session ω}
    (h : r.perform host f s = .error e s') :
    RaisedLast (r.calls host f s) e ∨ AllAnswered (r.calls host f s) ∧
      (r.Unavailable s e ∧ s' = s ∧ r.calls host f s = [] ∨ r.Refused s e ∨
        e = .tooDeep ∧ ¬ host.Bounds f s) := by
  have hrecorded := Read.perform_recording host f r s s.recorded rfl
  rw [h] at hrecorded
  obtain ⟨t, hrun, hst⟩ := hrecorded.error_left
  have hcalls : r.calls host f s = t.transcript := by
    rw [Read.calls, stateAfter_error hrun]
  rw [hcalls]
  -- within the limit of the session a pass has no failure of its own
  have hcause : RaisedLast t.transcript e ∨ AllAnswered t.transcript ∧
      ((r.Refused s e ∨ e = .tooDeep ∧ ¬ host.Bounds f s) ∨
        r.Unavailable s e ∧ t = s.recorded) := by
    by_cases hbounds : host.Bounds f s
    · obtain ⟨I, hsustains, hs, hwithin⟩ := hbounds
      have hread := Read.failsBy (E := r.Refused s) hsustains hs (.inr hwithin) r fun _ he => he
      rw [hrun] at hread
      exact hread.imp_right fun h => ⟨h.1, h.2.imp_left .inl⟩
    · have hread := Read.failsBy (E := fun e => r.Refused s e ∨ e = .tooDeep ∧ ¬ host.Bounds f s)
        (f := f) host.sustains_true trivial (.inl (.inr ⟨rfl, hbounds⟩)) r fun _ he => .inl he
      rw [hrun] at hread
      exact hread
  rcases hcause with hraised | ⟨hall, hself | ⟨hunavailable, rfl⟩⟩
  · exact .inl hraised
  · exact .inr ⟨hall, .inr hself⟩
  · exact .inr ⟨hall, .inl ⟨hunavailable, hst.symm, rfl⟩⟩

theorem Read.calls_allAnswered (r : Read) {a : Answer} {s' : Session ω}
    (h : r.perform host f s = .ok a s') : AllAnswered (r.calls host f s) := by
  have hrecorded := Read.perform_recording host f r s s.recorded rfl
  rw [h] at hrecorded
  obtain ⟨_, t, hrun, -, -⟩ := hrecorded.ok_left
  have hread := Read.failsBy (E := fun _ => True) (f := f) (s := s) host.sustains_true trivial
    (.inl trivial) r fun _ _ => trivial
  rw [hrun] at hread
  rw [Read.calls, stateAfter_ok hrun]
  exact hread

/-- **Only callables and dialects make rendering fail.** A read that fails does so with what its
last call raised, all calls before having been answered; or all its calls were answered, and there
is no dialect for the target, which is noticed before anything else is done, or the dialect did not
write some placeholder, or fragments are nested deeper than the limit of the session. All calls of
a read that succeeds were answered. A compile is a look-up, an access to the text and an access to
the values. No dialect ever refuses an ordinal: placeholders are asked for ordinals from one on. -/
theorem only_calls_and_dialects_fail :
    (∀ (r : Read) e s', r.perform host f s = .error e s' →
      RaisedLast (r.calls host f s) e ∨ AllAnswered (r.calls host f s) ∧
        (r.Unavailable s e ∧ s' = s ∧ r.calls host f s = [] ∨ r.Refused s e ∨
          e = .tooDeep ∧ ¬ host.Bounds f s)) ∧
    (∀ (r : Read) a s', r.perform host f s = .ok a s' → AllAnswered (r.calls host f s)) ∧
    (∀ t o s₀, createDialect (.str t) s = .ok o s₀ →
      (Read.compile t).perform host f s = (do
        let text ← f.memoText host (.target t) o.dialect
        f.finishCompile host t text) s₀) ∧
    (∀ d d' : Dialect, (∀ k : Nat, 1 ≤ k → d.placeholder (.int k) = d'.placeholder (.int k)) →
      f.statement host.environment d = f.statement host.environment d') ∧
    ∀ (d : Dialect) index name t,
      f.statement host.recording.environment d s.recorded = .error (.indexTooSmall index name) t →
      RaisedLast t.transcript (.indexTooSmall index name) := by
  refine ⟨fun r e s' h => Read.failure_cases host f s r h,
    fun r a s' h => Read.calls_allAnswered host f s r h, ?_,
    fun d d' h => f.statement_congr_from_one _ h, ?_⟩
  · intro t o s₀ hcreate
    rw [Read.perform_compile_eq]
    exact Pass.bind_ok hcreate _
  · intro d index name t hrun
    have hpass := Fragment.statement_failsBy
      (E := fun e => ∀ index name, e ≠ .indexTooSmall index name)
      (Host.recording_records host.sustains_true.call) (.inl fun _ _ => nofun) (f := f) (d := d)
      (fun k x hx => by
        obtain ⟨y, -, rfl⟩ := Dialect.placeholder_refused hx
        exact fun _ _ => nofun)
      s.recorded trivial .nil
    exact (hpass.error hrun).resolve_right fun h => h.2 index name rfl

end Main

end SqlFragments
