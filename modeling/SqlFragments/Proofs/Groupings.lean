import Mathlib.Data.List.Chain
import SqlFragments.Proofs.Noninterference
import SqlFragments.Proofs.Placement

/-!
# Groupings

The runs of a sequence are fixed by a few conditions: nothing of what its elements stand for is lost
or moved, a group holds one or more values and no fragment, no group follows a group, and a fragment
is adjacent if the run before it is a fragment. Only what is skipped goes.

* `unskipped`: what elements stand for, without what is skipped.
* `Grouping`: the conditions. `grouping_fragment_iff`, `grouping_group_iff`: the first run and the
  others.
* **`grouping_unskipped_iff`**: exactly one list of runs meets the conditions.
* `standsFor`, `elementValues`: what an element, and the elements of a sequence stand for.
* `GoesThrough`: going through a list object that changes meanwhile, element by element.
  **`goesThrough_elementValues`**, **`elementValues_of_goesThrough`**: this is what its elements
  stand for. **`elementValues_list_ok`**: if nothing is taken out, what is added counts, too.
* **`sequenceRuns_ok_iff`**: the runs are the grouping of what the elements stand for.
* `SkipsDeleted`: elements without some that are skipped. **`sequenceRuns_of_deleted`**: these have
  the same runs.
* **`grouping_lossless`**.
-/

namespace SqlFragments

variable {σ ω : Type}

/-! ## The conditions -/

def Run.isFragment : Run → Bool
  | .fragment _ _ => true
  | .group _ => false

/-- What elements stand for, without what is skipped. -/
def unskipped (vs : List Value) : List Value := vs.filter fun v => v.classify.kind ≠ .skip

/-- A grouping of values that follow a fragment (`afterFragment`) or not. -/
structure Grouping (afterFragment : Bool) (vs : List Value) (runs : List Run) : Prop where
  /-- Nothing is lost, added or moved. -/
  values : runs.flatMap Run.values = vs
  groups : ∀ ws, .group ws ∈ runs → ws ≠ [] ∧ ∀ v ∈ ws, v.classify.kind ≠ .fragment
  /-- No group follows a group. -/
  apart : runs.IsChain fun r r' => r.isFragment ∨ r'.isFragment
  first : ∀ f adjacent, runs.head? = some (.fragment f adjacent) → adjacent = afterFragment
  /-- A fragment is adjacent if the run before it is a fragment. -/
  adjacent : runs.IsChain fun r r' =>
    ∀ f adjacent, r' = .fragment f adjacent → adjacent = r.isFragment

section Runs

variable {b : Bool} {vs ws : List Value} {runs : List Run}

theorem grouping_nil_iff : Grouping b vs [] ↔ vs = [] := by
  constructor
  · exact fun h => h.values.symm
  · rintro rfl
    exact ⟨rfl, nofun, .nil, nofun, .nil⟩

theorem grouping_fragment_iff {f : Fragment} {adjacent : Bool} :
    Grouping b vs (.fragment f adjacent :: runs) ↔
      adjacent = b ∧ ∃ rest, vs = .fragment f :: rest ∧ Grouping true rest runs := by
  constructor
  · intro h
    obtain ⟨-, hapart⟩ := List.isChain_cons.mp h.apart
    obtain ⟨hnext, hadjacent⟩ := List.isChain_cons.mp h.adjacent
    refine ⟨h.first f adjacent rfl, runs.flatMap Run.values, h.values.symm, rfl, ?_, hapart, ?_,
      hadjacent⟩
    · exact fun ws hws => h.groups ws (List.mem_cons_of_mem _ hws)
    · exact fun g a hg => hnext _ hg g a rfl
  · rintro ⟨rfl, rest, rfl, h⟩
    refine ⟨?_, ?_, ?_, ?_, ?_⟩
    · rw [List.flatMap_cons, h.values]
      rfl
    · intro ws hws
      rcases List.mem_cons.mp hws with hws | hws
      · cases hws
      · exact h.groups ws hws
    · exact List.isChain_cons.mpr ⟨fun r _ => .inl rfl, h.apart⟩
    · rintro g a hg
      cases hg
      rfl
    · refine List.isChain_cons.mpr ⟨?_, h.adjacent⟩
      rintro r hr g a rfl
      exact h.first g a hr

theorem grouping_group_iff : Grouping b vs (.group ws :: runs) ↔
    ws ≠ [] ∧ (∀ v ∈ ws, v.classify.kind ≠ .fragment) ∧ (∀ r ∈ runs.head?, r.isFragment) ∧
      ∃ rest, vs = ws ++ rest ∧ Grouping false rest runs := by
  constructor
  · intro h
    obtain ⟨hnext, hapart⟩ := List.isChain_cons.mp h.apart
    obtain ⟨hfirst, hadjacent⟩ := List.isChain_cons.mp h.adjacent
    obtain ⟨hne, hbound⟩ := h.groups ws List.mem_cons_self
    refine ⟨hne, hbound, ?_, runs.flatMap Run.values, h.values.symm, rfl, ?_, hapart, ?_, hadjacent⟩
    · exact fun r hr => (hnext r hr).resolve_left nofun
    · exact fun ws' hws => h.groups ws' (List.mem_cons_of_mem _ hws)
    · exact fun g a hg => hfirst _ hg g a rfl
  · rintro ⟨hne, hbound, hnext, rest, rfl, h⟩
    refine ⟨?_, ?_, ?_, ?_, ?_⟩
    · rw [List.flatMap_cons, h.values]
      rfl
    · intro ws' hws
      rcases List.mem_cons.mp hws with hws | hws
      · cases hws
        exact ⟨hne, hbound⟩
      · exact h.groups ws' hws
    · exact List.isChain_cons.mpr ⟨fun r hr => .inr (hnext r hr), h.apart⟩
    · rintro g a hg
      cases hg
    · refine List.isChain_cons.mpr ⟨?_, h.adjacent⟩
      rintro r hr g a rfl
      exact h.first g a hr

/-! ## One grouping -/

theorem Grouping.consScalar {v : Value} (h : Grouping false vs runs)
    (hv : v.classify.kind ≠ .fragment) (b : Bool) : Grouping b (v :: vs) (consScalar v runs) := by
  have hnew : (∀ r ∈ runs.head?, r.isFragment) → Grouping b (v :: vs) (.group [v] :: runs) := by
    intro hhead
    refine grouping_group_iff.mpr ⟨List.cons_ne_nil _ _, ?_, hhead, vs, rfl, h⟩
    intro w hw
    rw [List.mem_singleton.mp hw]
    exact hv
  cases runs with
  | nil => exact hnew nofun
  | cons r runs =>
    cases r with
    | fragment f adjacent =>
      refine hnew fun r hr => ?_
      cases hr
      rfl
    | group ws =>
      obtain ⟨-, hbound, hhead, rest, rfl, hrest⟩ := grouping_group_iff.mp h
      refine grouping_group_iff.mpr ⟨List.cons_ne_nil _ _, ?_, hhead, rest, rfl, hrest⟩
      exact List.forall_mem_cons.mpr ⟨hv, hbound⟩

theorem grouping_groupAfter (b : Bool) (vs : List Value) :
    Grouping b (unskipped vs) (groupAfter b (vs.map Value.classify)) := by
  induction vs generalizing b with
  | nil => exact grouping_nil_iff.mpr rfl
  | cons v rest ih =>
    rw [List.map_cons]
    by_cases hskip : v.classify.kind = .skip
    · cases v with
      | skip => exact ih b
      | _ => cases hskip
    · have hkept : unskipped (v :: rest) = v :: unskipped rest :=
        List.filter_cons_of_pos (decide_eq_true hskip)
      rw [hkept]
      by_cases hfragment : v.classify.kind = .fragment
      · cases v with
        | fragment f => exact grouping_fragment_iff.mpr ⟨rfl, unskipped rest, rfl, ih true⟩
        | _ => cases hfragment
      · rw [groupAfter_cons_bound b hfragment hskip, Value.toValue_classify]
        exact (ih false).consScalar hfragment b

theorem Grouping.eq_groupAfter (h : Grouping b vs runs)
    (hvs : ∀ v ∈ vs, v.classify.kind ≠ .skip) : runs = groupAfter b (vs.map Value.classify) := by
  induction runs generalizing b vs with
  | nil =>
    rw [grouping_nil_iff.mp h]
    rfl
  | cons r runs ih =>
    cases r with
    | fragment f adjacent =>
      obtain ⟨rfl, rest, rfl, hrest⟩ := grouping_fragment_iff.mp h
      obtain ⟨-, hvs⟩ := List.forall_mem_cons.mp hvs
      rw [ih hrest hvs]
      rfl
    | group ws =>
      obtain ⟨hne, hbound, hhead, rest, rfl, hrest⟩ := grouping_group_iff.mp h
      obtain ⟨hws, hvs⟩ := List.forall_mem_append.mp hvs
      have hrun : IsRun (ws.map Value.classify) := by
        refine ⟨fun hnil => hne (List.map_eq_nil_iff.mp hnil), fun r hr => ?_⟩
        obtain ⟨v, hv, rfl⟩ := List.mem_map.mp hr
        exact ⟨hbound v hv, hws v hv⟩
      have hvalues : (ws.map Value.classify).map Resolved.toValue = ws := by
        simp [Function.comp_def]
      rw [List.map_append, groupAfter_run b hrun, hvalues, ← ih hrest hvs]
      -- the group stays apart, because a fragment or nothing follows it
      cases runs with
      | nil => rfl
      | cons r runs =>
        cases r with
        | fragment f adjacent => rfl
        | group ws' => cases hhead _ rfl

theorem Grouping.runFragments_eq (h : Grouping b vs runs)
    (hvs : ∀ v ∈ vs, v.classify.kind ≠ .skip) :
    runFragments runs = vs.filterMap fun v => v.classify.fragment? := by
  rw [h.eq_groupAfter hvs, runFragments_groupAfter, List.filterMap_map]
  rfl

end Runs

theorem of_mem_unskipped {vs : List Value} {v : Value} (h : v ∈ unskipped vs) :
    v.classify.kind ≠ .skip :=
  of_decide_eq_true (List.mem_filter.mp h).2

/-- **There is one grouping.** -/
theorem grouping_unskipped_iff {b : Bool} {vs : List Value} {runs : List Run} :
    Grouping b (unskipped vs) runs ↔ runs = groupAfter b (vs.map Value.classify) := by
  have hkept : (unskipped vs).map Value.classify = keptElements (vs.map Value.classify) := by
    rw [unskipped, keptElements, List.filter_map]
    rfl
  constructor
  · intro h
    rw [h.eq_groupAfter fun v hv => of_mem_unskipped hv, hkept, groupAfter_keptElements]
  · rintro rfl
    exact grouping_groupAfter b vs

/-! ## What the elements of a sequence stand for -/

section Elements

variable (env : Environment σ) (owner : Fragment)

/-- An element stands for itself or, if it is a callable, for its answer. -/
def standsFor (v : Value) : Pass σ Value :=
  match v.callable? with
  | some c => env.call c owner
  | none => pure v

theorem resolve_eq_standsFor (v : Value) :
    resolve env owner v = Value.classify <$> standsFor env owner v := by
  unfold resolve standsFor
  cases v.callable? <;> rfl

theorem resolveItems_eq_mapM (items : List Value) :
    resolveItems env owner items =
      List.map Value.classify <$> items.mapM (standsFor env owner) := by
  induction items with
  | nil => simp [resolveItems]
  | cons v rest ih => simp [resolveItems, resolve_eq_standsFor, ih]

/-- What the elements of a sequence stand for, from left to right. -/
def elementValues (s : Sequence) : Pass σ (List Value) :=
  List.map Resolved.toValue <$> sequenceElements env owner s

/-- A sequence that holds the same elements as at first whenever their turn comes, and no others
behind them. -/
def Sequence.Unchanged (s : Sequence) (t : σ) : Prop :=
  ∀ n vs t', ((s.items (env.elements t)).take n).mapM (standsFor env owner) t = .ok vs t' →
    (s.items (env.elements t')).drop n = (s.items (env.elements t)).drop n

/-- Whatever callables do, a list object holds what it held before, and perhaps more behind it. -/
def Environment.OnlyAdds (r : ListRef) : Prop :=
  ∀ c f t v t', env.call c f t = .ok v t' → env.elements t r <+: env.elements t' r

/-- What is found first, and then the rest. -/
def before (ws : List Value) :
    EStateM.Result Failure σ (List Value) → EStateM.Result Failure σ (List Value)
  | .ok ws' t => .ok (ws ++ ws') t
  | .error e t => .error e t

/-- From a state on, a list object is gone through from index `i`: at its turn, an element is what
stands at its index then, and the end is where nothing stands. With the elements and what they stand
for, or the failure of the last one. -/
inductive GoesThrough (r : ListRef) : Nat → σ → List Value →
    EStateM.Result Failure σ (List Value) → Prop
  | done {i : Nat} {t : σ} (hnone : (env.elements t r)[i]? = none) :
    GoesThrough r i t [] (.ok [] t)
  | failed {i : Nat} {t t' : σ} {v : Value} {e : Failure} (hv : (env.elements t r)[i]? = some v)
    (hw : standsFor env owner v t = .error e t') : GoesThrough r i t [v] (.error e t')
  | next {i : Nat} {t t' : σ} {v w : Value} {vs : List Value}
    {x : EStateM.Result Failure σ (List Value)} (hv : (env.elements t r)[i]? = some v)
    (hw : standsFor env owner v t = .ok w t') (hrest : GoesThrough r (i + 1) t' vs x) :
    GoesThrough r i t (v :: vs) (before [w] x)

end Elements

section Values

variable {env : Environment σ} {owner : Fragment} {s : Sequence} {r : ListRef} {t t' : σ}
  {rs : List Resolved}

theorem resolveItems_ok {items : List Value} (h : resolveItems env owner items t = .ok rs t') :
    ∃ vs, items.mapM (standsFor env owner) t = .ok vs t' ∧ rs = vs.map Value.classify := by
  rw [resolveItems_eq_mapM] at h
  exact Pass.map_eq_ok h

end Values

/-! ## List objects that change -/

section Changing

variable {env : Environment σ} {owner : Fragment} {r : ListRef} {i : Nat} {t t' : σ}
  {vs vs' ws : List Value} {x x' : EStateM.Result Failure σ (List Value)}

theorem before_append (ws ws' : List Value) (x : EStateM.Result Failure σ (List Value)) :
    before ws (before ws' x) = before (ws ++ ws') x := by
  cases x with
  | ok ws'' t => exact congrArg (EStateM.Result.ok · t) (List.append_assoc ws ws' ws'').symm
  | error e t => rfl

theorem before_nil (x : EStateM.Result Failure σ (List Value)) : before [] x = x := by
  cases x <;> rfl

theorem before_eq_ok (h : before ws x = .ok vs t) :
    ∃ ws', x = .ok ws' t ∧ vs = ws ++ ws' := by
  cases x with
  | ok ws' t' =>
    cases h
    exact ⟨ws', rfl, rfl⟩
  | error e t' => cases h

namespace GoesThrough

/-- **There is one way** to go through a list object. -/
theorem unique (h : GoesThrough env owner r i t vs x) (h' : GoesThrough env owner r i t vs' x') :
    vs = vs' ∧ x = x' := by
  induction h generalizing vs' x' with
  | done hnone =>
    cases h' with
    | done => exact ⟨rfl, rfl⟩
    | failed hv => cases hnone.symm.trans hv
    | next hv => cases hnone.symm.trans hv
  | failed hv hw =>
    cases h' with
    | done hnone => cases hnone.symm.trans hv
    | failed hv' hw' =>
      cases hv.symm.trans hv'
      cases hw.symm.trans hw'
      exact ⟨rfl, rfl⟩
    | next hv' hw' =>
      cases hv.symm.trans hv'
      cases hw.symm.trans hw'
  | next hv hw _ ih =>
    cases h' with
    | done hnone => cases hnone.symm.trans hv
    | failed hv' hw' =>
      cases hv.symm.trans hv'
      cases hw.symm.trans hw'
    | next hv' hw' hrest' =>
      cases hv.symm.trans hv'
      cases hw.symm.trans hw'
      obtain ⟨rfl, rfl⟩ := ih hrest'
      exact ⟨rfl, rfl⟩

theorem mapM_eq (h : GoesThrough env owner r i t vs x) :
    vs.mapM (standsFor env owner) t = x := by
  induction h with
  | done => rfl
  | failed _ hw =>
    rw [List.mapM_cons]
    exact Pass.bind_error hw _
  | @next _ _ _ _ w vs x _ hw _ ih =>
    rw [List.mapM_cons, Pass.bind_ok hw]
    cases x with
    | ok ws t' =>
      rw [Pass.bind_ok ih]
      rfl
    | error e t' => exact Pass.bind_error ih _

/-- At the end there are no more elements. -/
theorem length_le (h : GoesThrough env owner r i t vs (.ok ws t')) :
    (env.elements t' r).length ≤ i + vs.length := by
  generalize hx : EStateM.Result.ok ws t' = x at h
  induction h generalizing ws with
  | done hnone =>
    cases hx
    exact List.getElem?_eq_none_iff.mp hnone
  | failed => cases hx
  | @next i _ _ _ w vs x _ _ _ ih =>
    obtain ⟨ws', rfl, -⟩ := before_eq_ok hx.symm
    have hle := ih rfl
    rw [List.length_cons]
    omega

/-- **If nothing is taken out**, the elements are those from the beginning and those added. -/
theorem elements_eq (hadds : env.OnlyAdds r) (h : GoesThrough env owner r i t vs (.ok ws t')) :
    ∃ added, vs = (env.elements t r).drop i ++ added := by
  generalize hx : EStateM.Result.ok ws t' = x at h
  induction h generalizing ws with
  | done hnone =>
    rw [List.drop_of_length_le (List.getElem?_eq_none_iff.mp hnone)]
    exact ⟨[], rfl⟩
  | failed => cases hx
  | @next i t t₁ v w vs x hv hw _ ih =>
    obtain ⟨ws', rfl, -⟩ := before_eq_ok hx.symm
    obtain ⟨added, rfl⟩ := ih rfl
    have hkept : env.elements t r <+: env.elements t₁ r := by
      unfold standsFor at hw
      cases hcall : v.callable? with
      | some c =>
        rw [hcall] at hw
        exact hadds c owner t w t₁ hw
      | none =>
        rw [hcall] at hw
        cases hw
        exact List.prefix_rfl
    obtain ⟨more, hmore⟩ := hkept
    obtain ⟨hi, rfl⟩ := List.getElem?_eq_some_iff.mp hv
    refine ⟨more ++ added, ?_⟩
    rw [← hmore, List.drop_append_of_le_length hi, List.drop_eq_getElem_cons hi,
      List.append_assoc, List.cons_append]

end GoesThrough

/-- What some elements from index `i` on stand for; the others follow. -/
theorem resolveFrom_ok {n : Nat} {rs : List Resolved}
    (h : resolveFrom env owner r n i t = .ok rs t') :
    ∃ vs ws, rs = ws.map Value.classify ∧
      (vs.length = n ∨ vs.length < n ∧ (env.elements t' r).length ≤ i + vs.length) ∧
      ∀ vs' x, GoesThrough env owner r (i + vs.length) t' vs' x →
        GoesThrough env owner r i t (vs ++ vs') (before ws x) := by
  induction n generalizing i t rs with
  | zero =>
    cases h
    exact ⟨[], [], rfl, .inl rfl, fun vs' x h => (before_nil x).symm ▸ h⟩
  | succ n ih =>
    rw [resolveFrom, Pass.get_bind] at h
    cases hv : (env.elements t r)[i]? with
    | none =>
      rw [hv] at h
      cases h
      exact ⟨[], [], rfl, .inr ⟨Nat.succ_pos n, List.getElem?_eq_none_iff.mp hv⟩,
        fun vs' x h => (before_nil x).symm ▸ h⟩
    | some v =>
      rw [hv] at h
      obtain ⟨x, t₁, hx, h⟩ := Pass.bind_eq_ok h
      obtain ⟨xs, t₂, hxs, hok⟩ := Pass.bind_eq_ok h
      cases hok
      obtain ⟨vs, ws, rfl, hend, hthrough⟩ := ih hxs
      rw [resolve_eq_standsFor] at hx
      cases hw : standsFor env owner v t with
      | error e t₂ =>
        rw [Pass.map_error hw] at hx
        cases hx
      | ok w t₂ =>
        rw [Pass.map_ok hw] at hx
        cases hx
        have hlength : i + (v :: vs).length = i + 1 + vs.length := by
          rw [List.length_cons]
          omega
        refine ⟨v :: vs, w :: ws, rfl, ?_, fun vs' x h => ?_⟩
        · rw [hlength]
          exact hend.imp (congrArg Nat.succ) (.imp_left Nat.succ_lt_succ)
        · rw [hlength] at h
          have hnext := GoesThrough.next hv hw (hthrough vs' x h)
          rwa [before_append] at hnext

theorem resolveFrom_error {n : Nat} {e : Failure}
    (h : resolveFrom env owner r n i t = .error e t') :
    ∃ vs, GoesThrough env owner r i t vs (.error e t') := by
  induction n generalizing i t with
  | zero => cases h
  | succ n ih =>
    rw [resolveFrom, Pass.get_bind] at h
    cases hv : (env.elements t r)[i]? with
    | none =>
      rw [hv] at h
      cases h
    | some v =>
      rw [hv] at h
      dsimp only at h
      rw [resolve_eq_standsFor] at h
      cases hw : standsFor env owner v t with
      | error e₁ t₁ =>
        rw [Pass.bind_error (Pass.map_error hw _)] at h
        cases h
        exact ⟨[v], .failed hv hw⟩
      | ok w t₁ =>
        rw [Pass.bind_ok (Pass.map_ok hw _)] at h
        cases hrs : resolveFrom env owner r n (i + 1) t₁ with
        | ok rs t₂ =>
          rw [Pass.bind_ok hrs] at h
          cases h
        | error e₂ t₂ =>
          rw [Pass.bind_error hrs] at h
          cases h
          obtain ⟨vs, hthrough⟩ := ih hrs
          exact ⟨v :: vs, .next hv hw hthrough⟩

/-- What is resolved, by what it stands for. -/
def classified : EStateM.Result Failure σ (List Value) → EStateM.Result Failure σ (List Resolved)
  | .ok ws t => .ok (ws.map Value.classify) t
  | .error e t => .error e t

theorem classified_eq_ok {rs : List Resolved} (h : classified x = .ok rs t) :
    ∃ ws, x = .ok ws t ∧ rs = ws.map Value.classify := by
  cases x with
  | ok ws t' =>
    cases h
    exact ⟨ws, rfl, rfl⟩
  | error e t' => cases h

variable (env owner r) in
theorem goesThrough_resolveRounds (rounds i : Nat) (t : σ) :
    (∃ vs x, GoesThrough env owner r i t vs x ∧
      resolveRounds env owner r rounds i t = classified x) ∨
    ∃ t', resolveRounds env owner r rounds i t = .error .tooDeep t' := by
  induction rounds generalizing i t with
  | zero =>
    rw [resolveRounds, Pass.get_bind]
    split
    · next hnone =>
      exact .inl ⟨[], _, .done (List.getElem?_eq_none_iff.mpr hnone), rfl⟩
    · exact .inr ⟨t, rfl⟩
  | succ rounds ih =>
    by_cases hnone : (env.elements t r).length ≤ i
    · exact .inl ⟨[], _, .done (List.getElem?_eq_none_iff.mpr hnone),
        resolveRounds_of_none env owner hnone _⟩
    rw [resolveRounds, Pass.get_bind, if_neg hnone]
    cases hfirst : resolveFrom env owner r ((env.elements t r).length - i) i t with
    | error e t₁ =>
      obtain ⟨vs, hthrough⟩ := resolveFrom_error hfirst
      exact .inl ⟨vs, _, hthrough, Pass.bind_error hfirst _⟩
    | ok rs t₁ =>
      obtain ⟨vs, ws, rfl, hend, hthrough⟩ := resolveFrom_ok hfirst
      rw [Pass.bind_ok hfirst]
      rcases hend with hlength | ⟨hlength, hend⟩
      · have hi : i + vs.length = (env.elements t r).length := by omega
        rw [hi] at hthrough
        rcases ih (env.elements t r).length t₁ with ⟨vs', x, hrest, hrun⟩ | ⟨t', hrun⟩
        · refine .inl ⟨_, _, hthrough vs' x hrest, ?_⟩
          cases x with
          | ok ws' t₂ =>
            rw [Pass.bind_ok hrun]
            exact congrArg (EStateM.Result.ok · t₂) List.map_append.symm
          | error e t₂ => exact Pass.bind_error hrun _
        · exact .inr ⟨t', Pass.bind_error hrun _⟩
      · -- the list object came to its end within the round
        have hnone' : (env.elements t₁ r).length ≤ (env.elements t r).length := by omega
        refine .inl ⟨_, _, hthrough [] _ (.done (List.getElem?_eq_none_iff.mpr hend)), ?_⟩
        rw [Pass.bind_ok (resolveRounds_of_none env owner hnone' rounds)]
        exact congrArg (EStateM.Result.ok · t₁)
          ((List.append_nil _).trans (congrArg _ (List.append_nil ws).symm))

end Changing

section Values

variable {env : Environment σ} {owner : Fragment} {s : Sequence} {r : ListRef} {t t' : σ}
  {rs : List Resolved}

namespace Sequence.Unchanged

theorem of_tuple (items : List Value) (t : σ) : (Sequence.tuple items).Unchanged env owner t :=
  fun _ _ _ _ => rfl

theorem of_segments (items : List Value) (t : σ) :
    (Sequence.segments items).Unchanged env owner t :=
  fun _ _ _ _ => rfl

theorem resolveFrom_eq (h : (Sequence.list r).Unchanged env owner t) {vs : List Value} (n : Nat)
    {i : Nat} (hvs : ((env.elements t r).take i).mapM (standsFor env owner) t = .ok vs t') :
    resolveFrom env owner r n i t' =
      resolveItems env owner (((env.elements t r).drop i).take n) t' := by
  induction n generalizing i vs t' with
  | zero => rfl
  | succ n ih =>
    have hdrop : (env.elements t' r).drop i = (env.elements t r).drop i := h i vs t' hvs
    have hfirst : (env.elements t' r)[i]? = (env.elements t r)[i]? := by
      rw [← List.head?_drop, hdrop, List.head?_drop]
    rw [resolveFrom, Pass.get_bind, hfirst]
    cases hv : (env.elements t r)[i]? with
    | none =>
      rw [take_drop_of_none hv]
      rfl
    | some v =>
      rw [take_drop_of_some hv, resolveItems]
      cases hx : resolve env owner v t' with
      | error e t₁ => exact (Pass.bind_error hx _).trans (Pass.bind_error hx _).symm
      | ok x t₁ =>
        have htake : ((env.elements t r).take (i + 1)).mapM (standsFor env owner) t =
            .ok (vs ++ [x.toValue]) t₁ := by
          obtain ⟨hi, rfl⟩ := List.getElem?_eq_some_iff.mp hv
          rw [← List.take_append_getElem hi, List.mapM_append, Pass.bind_ok hvs]
          rw [resolve_eq_standsFor] at hx
          obtain ⟨w, hw, rfl⟩ := Pass.map_eq_ok hx
          rw [Value.toValue_classify, List.mapM_cons, bind_assoc, Pass.bind_ok hw]
          rfl
        refine (Pass.bind_ok hx _).trans (Eq.trans ?_ (Pass.bind_ok hx _).symm)
        have hrest := ih htake
        cases hxs : resolveItems env owner (((env.elements t r).drop (i + 1)).take n) t₁ with
        | error e t₂ => rw [Pass.bind_error (hrest.trans hxs), Pass.bind_error hxs]
        | ok xs t₂ => rw [Pass.bind_ok (hrest.trans hxs), Pass.bind_ok hxs]

variable (h : s.Unchanged env owner t)

include h

theorem sequenceElements_eq :
    sequenceElements env owner s t = resolveItems env owner (s.items (env.elements t)) t := by
  cases s with
  | tuple items => rfl
  | segments items => rfl
  | list r =>
    change resolveRounds env owner r (env.depth + 1) 0 t =
      resolveItems env owner (env.elements t r) t
    have hstart : ((env.elements t r).take 0).mapM (standsFor env owner) t = .ok [] t := rfl
    have hfirst := h.resolveFrom_eq (env.elements t r).length hstart
    rw [List.drop_zero, List.take_length] at hfirst
    by_cases hempty : (env.elements t r).length ≤ 0
    · rw [resolveRounds_of_none env owner hempty,
        List.length_eq_zero_iff.mp (Nat.le_zero.mp hempty)]
      rfl
    rw [resolveRounds, Pass.get_bind, if_neg hempty, Nat.sub_zero]
    cases hrs : resolveItems env owner (env.elements t r) t with
    | error e t₁ => rw [Pass.bind_error (hfirst.trans hrs)]
    | ok rs t₁ =>
      obtain ⟨vs, hvs, rfl⟩ := resolveItems_ok hrs
      rw [← List.take_length (l := env.elements t r)] at hvs
      have hdrop := h (env.elements t r).length vs t₁ hvs
      have hnone : (env.elements t₁ r).length ≤ (env.elements t r).length := by
        rw [← List.drop_eq_nil_iff]
        exact hdrop.trans List.drop_length
      rw [Pass.bind_ok (hfirst.trans hrs), Pass.bind_ok (resolveRounds_of_none env owner hnone _)]
      exact congrArg (EStateM.Result.ok · t₁) (List.append_nil _)

theorem map_sequenceElements {α : Type} (f : List Resolved → α) :
    (f <$> sequenceElements env owner s) t =
      (f <$> resolveItems env owner (s.items (env.elements t))) t := by
  cases hrs : resolveItems env owner (s.items (env.elements t)) t with
  | error e t₁ => rw [Pass.map_error hrs, Pass.map_error (h.sequenceElements_eq.trans hrs)]
  | ok rs t₁ => rw [Pass.map_ok hrs, Pass.map_ok (h.sequenceElements_eq.trans hrs)]

theorem elementValues_eq :
    elementValues env owner s t =
      (s.items (env.elements t)).mapM (standsFor env owner) t := by
  rw [elementValues, h.map_sequenceElements, resolveItems_eq_mapM]
  simp [Function.comp_def]

end Sequence.Unchanged

theorem sequenceElements_ok (h : sequenceElements env owner s t = .ok rs t') :
    ∃ vs, elementValues env owner s t = .ok vs t' ∧ rs = vs.map Value.classify := by
  have hclassified : ∃ vs : List Value, rs = vs.map Value.classify := by
    cases s with
    | list r =>
      rcases goesThrough_resolveRounds env owner r (env.depth + 1) 0 t with
        ⟨_, x, -, hrun⟩ | ⟨_, hrun⟩
      · obtain ⟨vs, -, rfl⟩ := classified_eq_ok (hrun.symm.trans h)
        exact ⟨vs, rfl⟩
      · cases hrun.symm.trans h
    | tuple items =>
      obtain ⟨vs, -, hrs⟩ := resolveItems_ok h
      exact ⟨vs, hrs⟩
    | segments items =>
      obtain ⟨vs, -, hrs⟩ := resolveItems_ok h
      exact ⟨vs, hrs⟩
  obtain ⟨vs, rfl⟩ := hclassified
  refine ⟨vs, ?_, rfl⟩
  rw [elementValues, Pass.map_ok h]
  simp [Function.comp_def]

/-- **A list object** stands for what is found when it is gone through, unless it goes on for too
long. -/
theorem goesThrough_elementValues {x : EStateM.Result Failure σ (List Value)}
    (h : elementValues env owner (.list r) t = x) :
    (∃ vs, GoesThrough env owner r 0 t vs x) ∨ ∃ t', x = .error .tooDeep t' := by
  rcases goesThrough_resolveRounds env owner r (env.depth + 1) 0 t with
    ⟨vs, y, hthrough, hrun⟩ | ⟨t', hrun⟩
  · have hy : elementValues env owner (.list r) t = y := by
      cases y with
      | ok ws t' =>
        refine (Pass.map_ok hrun _).trans ?_
        simp [Function.comp_def]
      | error e t' => exact Pass.map_error hrun _
    rw [← h, hy]
    exact .inl ⟨vs, hthrough⟩
  · exact .inr ⟨t', h.symm.trans (Pass.map_error hrun _)⟩

theorem elementValues_of_goesThrough {vs : List Value} {x : EStateM.Result Failure σ (List Value)}
    (h : GoesThrough env owner r 0 t vs x) :
    elementValues env owner (.list r) t = x ∨
      ∃ t', elementValues env owner (.list r) t = .error .tooDeep t' := by
  rcases @goesThrough_elementValues σ env owner r t _ rfl with
    ⟨vs', hthrough⟩ | htooDeep
  · exact .inl (hthrough.unique h).2
  · exact .inr htooDeep

/-- **A list object that grows** while it is gone through stands for what is added, too. -/
theorem elementValues_list_ok {vs : List Value} (hadds : env.OnlyAdds r)
    (h : elementValues env owner (.list r) t = .ok vs t') :
    ∃ added, (env.elements t r ++ added).mapM (standsFor env owner) t = .ok vs t' ∧
      (env.elements t' r).drop (env.elements t r ++ added).length = [] := by
  rcases goesThrough_elementValues h with ⟨items, hthrough⟩ | ⟨_, htooDeep⟩
  · obtain ⟨added, rfl⟩ := hthrough.elements_eq hadds
    have hlength := hthrough.length_le
    rw [List.drop_zero] at hthrough hlength
    rw [Nat.zero_add] at hlength
    exact ⟨added, hthrough.mapM_eq, List.drop_eq_nil_iff.mpr hlength⟩
  · cases htooDeep

end Values

/-! ## The runs of a sequence -/

section SequenceRuns

variable {env : Environment σ} {owner : Fragment} {s : Sequence} {t t' : σ}

theorem sequenceRuns_of_empty (h : s.items (env.elements t) = []) :
    sequenceRuns env owner s t = .ok [.group []] t := by
  cases s with
  | list r =>
    have hnone : env.elements t r = [] := h
    rw [sequenceRuns, listRuns, Pass.get_bind, hnone]
    rfl
  | tuple items =>
    cases h
    rfl
  | segments items =>
    cases h
    rfl

theorem sequenceRuns_of_ne (h : s.items (env.elements t) ≠ []) :
    sequenceRuns env owner s t = (group <$> sequenceElements env owner s) t := by
  have hitems : ∀ items : List Value, items ≠ [] →
      itemRuns env owner items = group <$> resolveItems env owner items := by
    intro items hne
    rw [itemRuns, if_neg (by simpa using hne)]
    exact bind_pure_comp _ _
  cases s with
  | list r =>
    have hne : ¬ (env.elements t r).isEmpty = true := fun hnone => h (List.isEmpty_iff.mp hnone)
    rw [sequenceRuns, listRuns, Pass.get_bind, if_neg hne]
    exact congrFun (bind_pure_comp _ _) t
  | tuple items => exact congrFun (hitems items h) t
  | segments items => exact congrFun (hitems items h) t

/-- **The runs of a sequence** are the grouping of what its elements stand for. -/
theorem sequenceRuns_ok_iff (h : s.items (env.elements t) ≠ []) {runs : List Run} :
    sequenceRuns env owner s t = .ok runs t' ↔
      ∃ vs, elementValues env owner s t = .ok vs t' ∧ Grouping false (unskipped vs) runs := by
  rw [sequenceRuns_of_ne h]
  cases hrs : sequenceElements env owner s t with
  | error e t₁ =>
    have helements : elementValues env owner s t = .error e t₁ := Pass.map_error hrs _
    rw [Pass.map_error hrs, helements]
    simp
  | ok rs t₁ =>
    obtain ⟨vs, hvs, rfl⟩ := sequenceElements_ok hrs
    rw [Pass.map_ok hrs, hvs]
    constructor
    · intro hok
      cases hok
      exact ⟨vs, rfl, grouping_unskipped_iff.mpr rfl⟩
    · rintro ⟨ws, hok, hgrouping⟩
      cases hok
      rw [grouping_unskipped_iff.mp hgrouping]
      rfl

theorem sequenceRuns_error_iff (h : s.items (env.elements t) ≠ []) {e : Failure} :
    sequenceRuns env owner s t = .error e t' ↔ elementValues env owner s t = .error e t' := by
  rw [sequenceRuns_of_ne h]
  cases hrs : sequenceElements env owner s t with
  | error e₁ t₁ => rw [Pass.map_error hrs, elementValues, Pass.map_error hrs]; simp
  | ok rs t₁ => rw [Pass.map_ok hrs, elementValues, Pass.map_ok hrs]; simp

end SequenceRuns

/-! ## Deleting what is skipped -/

/-- Elements without some of those that are skipped. -/
inductive SkipsDeleted (skipped : Value → Prop) : List Value → List Value → Prop
  | nil : SkipsDeleted skipped [] []
  | keep (v : Value) {items items' : List Value} (h : SkipsDeleted skipped items items') :
    SkipsDeleted skipped (v :: items) (v :: items')
  | delete {v : Value} {items items' : List Value} (hv : skipped v)
    (h : SkipsDeleted skipped items items') : SkipsDeleted skipped (v :: items) items'

theorem SkipsDeleted.refl {skipped : Value → Prop} (items : List Value) :
    SkipsDeleted skipped items items := by
  induction items with
  | nil => exact .nil
  | cons v rest ih => exact .keep v ih

section Delete

variable {env : Environment σ} {owner : Fragment} {items items' : List Value} {t : σ}

theorem keptElements_cons (env : Environment σ) (owner : Fragment) (r : Resolved)
    (items : List Value) :
    (fun rs => keptElements (r :: rs)) <$> resolveItems env owner items =
      (keptElements [r] ++ ·) <$> keptElements <$> resolveItems env owner items := by
  rw [Functor.map_map]
  exact congrArg (· <$> _) (funext fun rs => List.filter_append [r] rs)

theorem keptElements_of_deleted
    (h : SkipsDeleted (fun v => resolve env owner v = pure .skip) items items') :
    keptElements <$> resolveItems env owner items =
      keptElements <$> resolveItems env owner items' := by
  induction h with
  | nil => rfl
  | keep v h ih =>
    rw [resolveItems, resolveItems, map_bind, map_bind]
    refine bind_congr fun r => ?_
    rw [map_bind, map_bind]
    simp only [map_pure, bind_pure_comp]
    rw [keptElements_cons, keptElements_cons, ih]
  | delete hv h ih =>
    rw [← ih, resolveItems, hv, pure_bind, map_bind]
    simp only [map_pure, bind_pure_comp]
    rfl

theorem SkipsDeleted.ne_nil {skipped : Value → Prop} (h : SkipsDeleted skipped items items')
    (hne : items' ≠ []) : items ≠ [] := by
  rintro rfl
  cases h
  exact hne rfl

/-- **Deleting what is skipped** does not change the runs. -/
theorem sequenceRuns_of_deleted {s s' : Sequence} (hs : s.Unchanged env owner t)
    (hs' : s'.Unchanged env owner t)
    (h : SkipsDeleted (fun v => resolve env owner v = pure .skip)
      (s.items (env.elements t)) (s'.items (env.elements t)))
    (hne : s'.items (env.elements t) ≠ []) :
    sequenceRuns env owner s t = sequenceRuns env owner s' t := by
  have hgroup : ∀ items, group <$> resolveItems env owner items =
      group <$> keptElements <$> resolveItems env owner items := by
    intro items
    rw [Functor.map_map]
    exact congrArg (· <$> _) (funext fun rs => (groupAfter_keptElements false rs).symm)
  rw [sequenceRuns_of_ne (h.ne_nil hne), sequenceRuns_of_ne hne, hs.map_sequenceElements,
    hs'.map_sequenceElements, hgroup, keptElements_of_deleted h, ← hgroup]

end Delete

theorem valueRuns_toValue (host : Host ω) (owner : Fragment) (s : Sequence) :
    valueRuns host owner s.toValue = sequenceRuns host.environment owner s := by
  funext t
  rw [valueRuns, Pass.get_bind]
  cases s with
  | list r =>
    change (if (t.heap.elements r).isEmpty then pure [.group []]
      else listRuns host.environment owner r : Op ω (List Run)) t = _
    split
    · next hnone =>
      have hitems : (Sequence.list r).items (host.environment.elements t) = [] :=
        List.isEmpty_iff.mp hnone
      exact (sequenceRuns_of_empty hitems).symm
    · rfl
  | tuple items => cases items <;> rfl
  | segments items => cases items <;> rfl

theorem unskipped_of_deleted {vs vs' : List Value} (h : SkipsDeleted (· = .skip) vs vs') :
    unskipped vs = unskipped vs' := by
  induction h with
  | nil => rfl
  | keep v h ih =>
    unfold unskipped at ih ⊢
    rw [List.filter_cons, List.filter_cons, ih]
  | delete hv h ih =>
    rw [hv]
    exact ih

theorem unskipped_eq_nil {vs : List Value} (h : ∀ v ∈ vs, v = .skip) : unskipped vs = [] := by
  refine List.filter_eq_nil_iff.mpr fun v hv => ?_
  rw [h v hv]
  decide

/-- **The one lossless grouping.** An empty sequence is one empty group. Whatever callables answer
and however the session changes, the runs of any other are the one grouping of what its elements
stand for, from left to right and without what is skipped; going through them fails where asking an
element fails. -/
theorem grouping_lossless (env : Environment σ) (owner : Fragment) :
    (∀ (s : Sequence) (t : σ), s.items (env.elements t) = [] →
      sequenceRuns env owner s t = .ok [.group []] t) ∧
    (∀ (s : Sequence) (t : σ), s.items (env.elements t) ≠ [] →
      (∀ runs t', sequenceRuns env owner s t = .ok runs t' ↔
        ∃ vs, elementValues env owner s t = .ok vs t' ∧ Grouping false (unskipped vs) runs) ∧
      ∀ e t', sequenceRuns env owner s t = .error e t' ↔
        elementValues env owner s t = .error e t') ∧
    -- what the elements stand for; a list object may change meanwhile
    (∀ items t, (Sequence.tuple items).Unchanged env owner t ∧
      (Sequence.segments items).Unchanged env owner t) ∧
    (∀ (s : Sequence) (t : σ), s.Unchanged env owner t →
      elementValues env owner s t = (s.items (env.elements t)).mapM (standsFor env owner) t) ∧
    (∀ r t x, elementValues env owner (.list r) t = x →
      (∃ vs, GoesThrough env owner r 0 t vs x) ∨ ∃ t', x = .error .tooDeep t') ∧
    (∀ r t vs x, GoesThrough env owner r 0 t vs x → vs.mapM (standsFor env owner) t = x ∧
      (elementValues env owner (.list r) t = x ∨
        ∃ t', elementValues env owner (.list r) t = .error .tooDeep t')) ∧
    (∀ r t vs t', env.OnlyAdds r → elementValues env owner (.list r) t = .ok vs t' →
      ∃ added, (env.elements t r ++ added).mapM (standsFor env owner) t = .ok vs t' ∧
        (env.elements t' r).drop (env.elements t r ++ added).length = []) ∧
    -- the conditions leave no choice
    (∀ vs, ∃! runs, Grouping false (unskipped vs) runs) ∧
    (∀ vs runs, Grouping false (unskipped vs) runs →
      runFragments runs = (unskipped vs).filterMap fun v => v.classify.fragment?) ∧
    -- only what is skipped
    (∀ (s : Sequence) t vs t', s.items (env.elements t) ≠ [] →
      elementValues env owner s t = .ok vs t' → (∀ v ∈ vs, v = .skip) →
      sequenceRuns env owner s t = .ok [] t') ∧
    -- without some of what is skipped: elements, or what elements stand for
    (∀ (s s' : Sequence) (t : σ), s.Unchanged env owner t → s'.Unchanged env owner t →
      SkipsDeleted (fun v => resolve env owner v = pure .skip) (s.items (env.elements t))
        (s'.items (env.elements t)) →
      s'.items (env.elements t) ≠ [] →
      sequenceRuns env owner s t = sequenceRuns env owner s' t) ∧
    (∀ (s s' : Sequence) t t' vs vs' t₁ t₁', s.items (env.elements t) ≠ [] →
      s'.items (env.elements t') ≠ [] → elementValues env owner s t = .ok vs t₁ →
      elementValues env owner s' t' = .ok vs' t₁' → SkipsDeleted (· = .skip) vs vs' →
      outcome (sequenceRuns env owner s) t = outcome (sequenceRuns env owner s') t') ∧
    ∀ {ω : Type} (host : Host ω) (owner : Fragment) (s : Sequence),
      valueRuns host owner s.toValue = sequenceRuns host.environment owner s := by
  have hruns : ∀ {s : Sequence} {t vs t'}, s.items (env.elements t) ≠ [] →
      elementValues env owner s t = .ok vs t' →
      sequenceRuns env owner s t = .ok (groupAfter false (vs.map Value.classify)) t' :=
    fun hne hvs => (sequenceRuns_ok_iff hne).mpr ⟨_, hvs, grouping_groupAfter false _⟩
  refine ⟨fun s t => sequenceRuns_of_empty, ?_,
    fun items t => ⟨.of_tuple items t, .of_segments items t⟩, fun s t h => h.elementValues_eq,
    fun r t x => goesThrough_elementValues,
    fun r t vs x h => ⟨h.mapM_eq, elementValues_of_goesThrough h⟩,
    fun r t vs t' => elementValues_list_ok, ?_, ?_, ?_, fun s s' t => sequenceRuns_of_deleted, ?_,
    valueRuns_toValue⟩
  · exact fun s t hne => ⟨fun runs t' => sequenceRuns_ok_iff hne,
      fun e t' => sequenceRuns_error_iff hne⟩
  · exact fun vs => ⟨_, grouping_groupAfter false vs, fun runs => grouping_unskipped_iff.mp⟩
  · exact fun vs runs h => h.runFragments_eq fun v hv => of_mem_unskipped hv
  · intro s t vs t' hne hvs hskip
    refine (sequenceRuns_ok_iff hne).mpr ⟨vs, hvs, ?_⟩
    rw [unskipped_eq_nil hskip]
    exact grouping_nil_iff.mpr rfl
  · intro s s' t t' vs vs' t₁ t₁' hne hne' hvs hvs' h
    have hsame : groupAfter false (vs.map Value.classify) =
        groupAfter false (vs'.map Value.classify) := by
      refine grouping_unskipped_iff.mp ?_
      rw [← unskipped_of_deleted h]
      exact grouping_groupAfter false vs
    rw [outcome, outcome, hruns hne hvs, hruns hne' hvs', hsame]

/-- Fragments next to each other, a nested tuple, and callables that are counted: one of them
answers that it is skipped, another one answers with a callable. Then a list object whose callables
replace what comes next, take out the last element and add others. -/
theorem grouping_lossless_mixed :
    let g : Fragment := ⟨1, ["x"], false, [], "", none, false⟩
    let inner : Value := .callable ⟨2, "inner"⟩
    let env : Environment Nat := ⟨fun _ _ => [], fun c _ => do
      modify (· + 1)
      pure (if c.id = 0 then .skip else inner), 2⟩
    let rest : List Value := [.tuple [.int 2], .fragment g, .callable ⟨0, "none"⟩, .fragment g,
      .callable ⟨1, "outer"⟩]
    let runs : List Run := [.group [.int 1, .tuple [.int 2]], .fragment g false, .fragment g true,
      .group [inner]]
    sequenceRuns env g (.tuple (.int 1 :: .skip :: rest)) 0 = .ok runs 2 ∧
      sequenceRuns env g (.tuple (.int 1 :: rest)) 0 = .ok runs 2 ∧
      sequenceRuns env g (.tuple [.skip, .skip]) 0 = .ok [] 0 ∧
      sequenceRuns env g (.tuple []) 0 = .ok [.group []] 0 ∧
      let drop : Value := .callable ⟨3, "drop"⟩
      let add : Value := .callable ⟨4, "add"⟩
      let changing : Environment (List Value) := ⟨fun s _ => s, fun c _ => do
        modify fun s => if c.id = 3 then [drop, add] else s ++ [.int 8, .fragment g]
        pure (.int c.id), 2⟩
      sequenceRuns changing g (.list ⟨0⟩) [drop, .int 1, .int 2] =
        .ok [.group [.int 3, .int 4, .int 8], .fragment g false]
          [drop, add, .int 8, .fragment g] := by
  intro g inner env rest runs
  obtain ⟨hempty, hruns, -, -, -, -, -, -, -, hskips, hdeleted, -⟩ := grouping_lossless env g
  have hmixed : sequenceRuns env g (.tuple (.int 1 :: .skip :: rest)) 0 = .ok runs 2 := by
    refine ((hruns (.tuple _) 0 (List.cons_ne_nil _ _)).1 runs 2).mpr
      ⟨[.int 1, .skip, .tuple [.int 2], .fragment g, .skip, .fragment g, inner], rfl, ?_⟩
    exact grouping_groupAfter false _
  refine ⟨hmixed, ?_, ?_, hempty _ _ rfl, ?_⟩
  · rw [← hmixed]
    refine (hdeleted _ _ 0 (.of_tuple _ _) (.of_tuple _ _) ?_ (List.cons_ne_nil _ _)).symm
    exact .keep _ (.delete rfl (.refl rest))
  · refine hskips (.tuple [.skip, .skip]) 0 [.skip, .skip] 0 (List.cons_ne_nil _ _) rfl ?_
    simp
  · intro drop add changing
    obtain ⟨-, hruns', -⟩ := grouping_lossless changing g
    refine ((hruns' (.list ⟨0⟩) [drop, .int 1, .int 2] (List.cons_ne_nil _ _)).1 _ _).mpr
      ⟨[.int 3, .int 4, .int 8, .fragment g], rfl, ?_⟩
    exact grouping_groupAfter false _

end SqlFragments
