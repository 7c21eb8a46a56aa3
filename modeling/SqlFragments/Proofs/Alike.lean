import Mathlib.Data.List.Forall2
import SqlFragments.Proofs.Walk

/-!
# Fragments that are walked alike

Two fragments are alike when they have the same literal text, delimiter and way of joining, and when
their slots, one by one, hold contents that are alike. What is bound may differ, as far as a given
relation between bound values allows.

* `Content.fragments`: the fragments that a slot holds. **`runFragments_groupAfter`**: grouping
  keeps them, in order.
* `Run.Alike`, `Content.Alike`: runs and contents that are alike; `Content.alike_self`.
* `SettlesAlike`, `WalksAlike`: a relation between fragments that is kept by resolving their slots.
* `VisitsAlike`: visitors that treat related pieces alike.
* **`Fragment.walk_lockstep`**: walks over fragments that are alike stay in lockstep.
* **`Fragment.collect_lockstep`**: so do the values, whatever the literal parts are.
-/

namespace SqlFragments

variable {σ τ β γ : Type}

/-! ## Fragments in a slot -/

def Resolved.fragment? : Resolved → Option Fragment
  | fragment g => some g
  | _ => none

/-- The fragments among runs. -/
def runFragments (rs : List Run) : List Fragment :=
  rs.filterMap fun
    | .fragment g _ => some g
    | .group _ => none

/-- The fragments that a content consists of. -/
def Content.fragments : Content → List Fragment
  | fragment g => [g]
  | runs rs => runFragments rs
  | scalar _ | skip => []

theorem runFragments_consScalar (v : Value) (runs : List Run) :
    runFragments (consScalar v runs) = runFragments runs := by
  cases runs with
  | nil => rfl
  | cons r runs => cases r <;> rfl

theorem runFragments_groupAfter (b : Bool) (rs : List Resolved) :
    runFragments (groupAfter b rs) = rs.filterMap Resolved.fragment? := by
  induction rs generalizing b with
  | nil => rfl
  | cons r rest ih =>
    cases r with
    | fragment g =>
      change g :: runFragments (groupAfter true rest) = g :: rest.filterMap Resolved.fragment?
      rw [ih true]
    | skip => exact ih b
    | scalar v => exact (runFragments_consScalar v _).trans (ih false)
    | sequence s => exact (runFragments_consScalar s.toValue _).trans (ih false)

/-! ## Alike, but for what is bound -/

section Alike

variable (K : Fragment → Fragment → Prop) (C : Bound → Bound → Prop)

inductive Run.Alike : Run → Run → Prop
  | fragment {g g' : Fragment} (h : K g g') (adjacent : Bool) :
    Run.Alike (.fragment g adjacent) (.fragment g' adjacent)
  | group {vs vs' : List Value} (h : C (.group vs) (.group vs')) :
    Run.Alike (.group vs) (.group vs')

/-- The bound value of a content that is nothing but one bound value. -/
def Content.bound? : Content → Option Bound
  | scalar v => some (.scalar v)
  | runs [.group vs] => some (.group vs)
  | _ => none

inductive Content.Alike : Content → Content → Prop
  | fragment {g g' : Fragment} (h : K g g') : Content.Alike (.fragment g) (.fragment g')
  | runs {rs rs' : List Run} (h : List.Forall₂ (Run.Alike K C) rs rs') :
    Content.Alike (.runs rs) (.runs rs')
  | single {c c' : Content} {b b' : Bound} (hb : c.bound? = some b) (hb' : c'.bound? = some b')
    (h : C b b') : Content.Alike c c'
  | skip : Content.Alike .skip .skip

end Alike

theorem Content.alike_self {K : Fragment → Fragment → Prop} {C : Bound → Bound → Prop} {x : Content}
    (hK : ∀ g ∈ x.fragments, K g g) (hscalar : ∀ v, x = .scalar v → C (.scalar v) (.scalar v))
    (hgroup : ∀ vs, C (.group vs) (.group vs)) : Content.Alike K C x x := by
  cases x with
  | fragment g => exact .fragment (hK g List.mem_cons_self)
  | runs rs =>
    refine .runs (List.forall₂_same.mpr fun r hr => ?_)
    cases r with
    | fragment g adjacent =>
      exact .fragment (hK g (List.mem_filterMap.mpr ⟨_, hr, rfl⟩)) adjacent
    | group vs => exact .group (hgroup vs)
  | scalar v => exact .single rfl rfl (hscalar v rfl)
  | skip => exact .skip

theorem Content.Alike.mono {K : Fragment → Fragment → Prop} {C C' : Bound → Bound → Prop}
    (hC : ∀ b b', C b b' → C' b b') {x y : Content} (h : Content.Alike K C x y) :
    Content.Alike K C' x y := by
  cases h with
  | fragment h => exact .fragment h
  | runs h =>
    refine .runs (h.imp fun r r' hr => ?_)
    cases hr with
    | fragment h adjacent => exact .fragment h adjacent
    | group h => exact .group (hC _ _ h)
  | single hb hb' h => exact .single hb hb' (hC _ _ h)
  | skip => exact .skip

theorem Content.Alike.fragments_eq {C : Bound → Bound → Prop} {x y : Content}
    (h : Content.Alike Eq C x y) : x.fragments = y.fragments := by
  have hnone : ∀ {c : Content} {b : Bound}, c.bound? = some b → c.fragments = [] := by
    intro c b hb
    unfold bound? at hb
    split at hb
    · rfl
    · rfl
    · cases hb
  cases h with
  | fragment h => rw [h]
  | runs h =>
    change runFragments _ = runFragments _
    induction h with
    | nil => rfl
    | cons hr _ ih =>
      cases hr with
      | fragment h adjacent =>
        cases h
        exact congrArg (_ :: ·) ih
      | group => exact ih
  | single hb hb' => rw [hnone hb, hnone hb']
  | skip => rfl

/-- Resolving the slots of related fragments gives contents that are alike, in lockstep. -/
structure SettlesAlike (env : Environment σ) (env' : Environment τ) (R : σ → τ → Prop)
    (K : Fragment → Fragment → Prop) (C : Bound → Bound → Prop) : Prop where
  slots : ∀ f g, K f g → List.Forall₂ (fun v w =>
    Lockstep R (Content.Alike K C) (settle env f v) (settle env' g w)) f.slots g.slots

/-- Related fragments have the same literal parts, too. -/
structure WalksAlike (env : Environment σ) (env' : Environment τ) (R : σ → τ → Prop)
    (K : Fragment → Fragment → Prop) (C : Bound → Bound → Prop) : Prop
    extends SettlesAlike env env' R K C where
  segments : ∀ f g, K f g → f.segments = g.segments
  delimiter : ∀ f g, K f g → f.delimiter = g.delimiter
  joined : ∀ f g, K f g → f.joined = g.joined

theorem WalksAlike.of_eq {env : Environment σ} {env' : Environment τ} {R : σ → τ → Prop}
    {K : Fragment → Fragment → Prop} {C : Bound → Bound → Prop} (hK : ∀ f g, K f g → f = g)
    (hslots : ∀ f, K f f → ∀ v ∈ f.slots,
      Lockstep R (Content.Alike K C) (settle env f v) (settle env' f v)) :
    WalksAlike env env' R K C where
  segments f g h := by rw [hK f g h]
  delimiter f g h := by rw [hK f g h]
  joined f g h := by rw [hK f g h]
  slots := by
    intro f g h
    obtain rfl := hK f g h
    exact List.forall₂_same.mpr (hslots f h)

/-- Visiting the same text, or bound values that are related, keeps the results related. -/
structure VisitsAlike (R : σ → τ → Prop) (C : Bound → Bound → Prop) (B : β → γ → Prop)
    (visit : Piece → β → Pass σ β) (visit' : Piece → γ → Pass τ γ) : Prop where
  literal : ∀ s b c, B b c → Lockstep R B (visit (.literal s) b) (visit' (.literal s) c)
  bound : ∀ x y b c, C x y → B b c → Lockstep R B (visit (.bound x) b) (visit' (.bound y) c)

/-- Two kinds, or none, that are the same as far as the place of delimiters goes. -/
def SameSide (p q : Option SlotKind) : Prop := p.map (· == .fragment) = q.map (· == .fragment)

theorem Fragment.separates_congr {f g : Fragment} (hfg : f.joined = g.joined)
    {p q : Option SlotKind} (hpq : SameSide p q) {k l : SlotKind}
    (hkl : (k == .fragment) = (l == .fragment)) : f.separates p k = g.separates q l := by
  cases p with
  | none => cases q with
    | none => rfl
    | some q => simp [SameSide] at hpq
  | some p => cases q with
    | none => simp [SameSide] at hpq
    | some q =>
      have hpq' : (p == .fragment) = (q == .fragment) := by simpa [SameSide] using hpq
      simp only [separates]
      rw [hfg, hpq', hkl]

section Contents

variable {K : Fragment → Fragment → Prop} {C : Bound → Bound → Prop} {c c' : Content}

theorem Content.kind_of_bound? {b : Bound} (h : c.bound? = some b) :
    c.kind = .scalar ∨ c.kind = .sequence := by
  cases c with
  | fragment g => simp [bound?] at h
  | runs rs => exact Or.inr rfl
  | scalar v => exact Or.inl rfl
  | skip => simp [bound?] at h

theorem Content.Alike.fragment_iff (h : Content.Alike K C c c') :
    (c.kind == .fragment) = (c'.kind == .fragment) := by
  cases h with
  | fragment h => rfl
  | runs h => rfl
  | single hb hb' h =>
    rcases kind_of_bound? hb with hk | hk <;> rcases kind_of_bound? hb' with hk' | hk' <;>
      rw [hk, hk'] <;> rfl
  | skip => rfl

theorem Content.Alike.skip_iff (h : Content.Alike K C c c') :
    c.kind = .skip ↔ c'.kind = .skip := by
  cases h with
  | fragment h => exact Iff.rfl
  | runs h => exact Iff.rfl
  | single hb hb' h =>
    rcases kind_of_bound? hb with hk | hk <;> rcases kind_of_bound? hb' with hk' | hk' <;>
      rw [hk, hk'] <;> simp
  | skip => exact Iff.rfl

theorem sameSide_kindAfter (h : Content.Alike K C c c') {p q : Option SlotKind}
    (hpq : SameSide p q) : SameSide (kindAfter p c.kind) (kindAfter q c'.kind) := by
  unfold kindAfter
  by_cases hk : c.kind = .skip
  · rw [if_pos hk, if_pos (h.skip_iff.mp hk)]
    exact hpq
  · rw [if_neg hk, if_neg (mt h.skip_iff.mpr hk)]
    simp [SameSide, h.fragment_iff]

end Contents

/-! ## The walk, part by part -/

section Walk

variable {env : Environment σ} {env' : Environment τ} {R : σ → τ → Prop}
  {K : Fragment → Fragment → Prop} {C : Bound → Bound → Prop} {B : β → γ → Prop}
  {visit : Piece → β → Pass σ β} {visit' : Piece → γ → Pass τ γ}

section Parts

variable {f g : Fragment} {nested : Fragment → β → Pass σ β} {nested' : Fragment → γ → Pass τ γ}
  (hv : VisitsAlike R C B visit visit') (hfg : f.delimiter = g.delimiter)

include hv hfg

theorem walkDelimiter_lockstep (stands : Bool) {b : β} {c : γ} (hB : B b c) :
    Lockstep R B (walkDelimiter visit f stands b) (walkDelimiter visit' g stands c) := by
  unfold walkDelimiter
  split_ifs
  · rw [hfg]
    exact hv.literal _ b c hB
  · exact .pure hB

variable (hn : ∀ f g b c, K f g → B b c → Lockstep R B (nested f b) (nested' g c))

include hn

theorem walkRuns_lockstep {rs rs' : List Run} (h : List.Forall₂ (Run.Alike K C) rs rs') {b : β}
    {c : γ} (hB : B b c) :
    Lockstep R B (walkRuns visit f nested rs b) (walkRuns visit' g nested' rs' c) := by
  induction h generalizing b c with
  | nil => exact .pure hB
  | cons hr _ ih =>
    cases hr with
    | fragment hK adjacent =>
      refine .bind (walkDelimiter_lockstep hv hfg adjacent hB) fun b c hB => ?_
      exact .bind (hn _ _ b c hK hB) fun b c hB => ih hB
    | group hC => exact .bind (hv.bound _ _ b c hC hB) fun b c hB => ih hB

omit hv hfg hn in
theorem walkContent_of_bound? {x : Content} {y : Bound} (h : x.bound? = some y) (b : β) :
    walkContent visit f nested x b = visit (.bound y) b := by
  unfold Content.bound? at h
  split at h
  · cases h
    rfl
  · cases h
    simp [walkContent, walkRuns]
  · cases h

theorem walkContent_lockstep {x y : Content} (h : Content.Alike K C x y) {b : β} {c : γ}
    (hB : B b c) :
    Lockstep R B (walkContent visit f nested x b) (walkContent visit' g nested' y c) := by
  cases h with
  | fragment hK => exact hn _ _ b c hK hB
  | runs hrs => exact walkRuns_lockstep hv hfg hn hrs hB
  | single hb hb' hC =>
    rw [walkContent_of_bound? hb, walkContent_of_bound? hb']
    exact hv.bound _ _ b c hC hB
  | skip => exact .pure hB

theorem walkSlot_lockstep (hj : f.joined = g.joined) (s : String) {v w : Value}
    (h : Lockstep R (Content.Alike K C) (settle env f v) (settle env' g w))
    {rest rest' : List (String × Option Value)}
    (ih : ∀ {p q : Option SlotKind} {b : β} {c : γ}, SameSide p q → B b c →
      Lockstep R B (walkGaps env visit f nested rest p b)
        (walkGaps env' visit' g nested' rest' q c))
    {p q : Option SlotKind} (hpq : SameSide p q) {b : β} {c : γ} (hB : B b c) :
    Lockstep R B (walkGaps env visit f nested ((s, some v) :: rest) p b)
      (walkGaps env' visit' g nested' ((s, some w) :: rest') q c) := by
  have hpq' : SameSide (if s.isEmpty then p else none) (if s.isEmpty then q else none) := by
    split_ifs
    · exact hpq
    · rfl
  unfold walkGaps
  refine .bind (hv.literal s b c hB) fun b c hB => .bind h fun x y hxy => ?_
  have hskip : (x.kind != .skip) = (y.kind != .skip) := by
    by_cases hx : x.kind = .skip
    · rw [hx, hxy.skip_iff.mp hx]
    · simp [bne, beq_eq_false_iff_ne.mpr hx, beq_eq_false_iff_ne.mpr (mt hxy.skip_iff.mpr hx)]
  rw [hskip, Fragment.separates_congr hj hpq' hxy.fragment_iff]
  refine .bind (walkDelimiter_lockstep hv hfg _ hB) fun b c hB => ?_
  exact .bind (walkContent_lockstep hv hfg hn hxy hB) fun b c hB =>
    ih (sameSide_kindAfter hxy hpq') hB

theorem walkGaps_lockstep (hj : f.joined = g.joined) {ss : List String} {vs ws : List Value}
    (h : List.Forall₂ (fun v w =>
      Lockstep R (Content.Alike K C) (settle env f v) (settle env' g w)) vs ws)
    {p q : Option SlotKind} (hpq : SameSide p q) {b : β} {c : γ} (hB : B b c) :
    Lockstep R B (walkGaps env visit f nested (pairGaps ss vs) p b)
      (walkGaps env' visit' g nested' (pairGaps ss ws) q c) := by
  induction ss generalizing vs ws p q b c with
  | nil =>
    -- the slots behind the last segment
    induction h generalizing p q b c with
    | nil => exact .pure hB
    | cons hvw _ ih =>
      rw [pairGaps_nil_cons, pairGaps_nil_cons]
      exact walkSlot_lockstep hv hfg hn hj "" hvw (fun hpq hB => ih hpq hB) hpq hB
  | cons s ss ih =>
    cases h with
    | nil =>
      simp only [pairGaps, walkGaps]
      refine .bind (hv.literal s b c hB) fun b c hB => ih .nil ?_ hB
      split_ifs
      · exact hpq
      · rfl
    | cons hvw hrest =>
      rw [pairGaps, pairGaps]
      exact walkSlot_lockstep hv hfg hn hj s hvw (fun hpq hB => ih hrest hpq hB) hpq hB

end Parts

/-- **Walks over fragments that are alike stay in lockstep.** -/
theorem Fragment.walk_lockstep (h : WalksAlike env env' R K C)
    (hv : VisitsAlike R C B visit visit') (n : Nat) {f g : Fragment} (hK : K f g) {b : β} {c : γ}
    (hB : B b c) : Lockstep R B (f.walk env visit n b) (g.walk env' visit' n c) := by
  induction n generalizing f g b c with
  | zero => exact .throw _
  | succ n ih =>
    have hn : ∀ f g b c, K f g → B b c →
        Lockstep R B (f.walk env visit n b) (g.walk env' visit' n c) :=
      fun _ _ _ _ hK hB => ih hK hB
    unfold Fragment.walk gaps
    rw [h.segments f g hK]
    exact walkGaps_lockstep hv (h.delimiter f g hK) hn (h.joined f g hK) (h.slots f g hK) rfl hB

end Walk

/-! ## The values, slot by slot -/

section Collect

variable {nested : Fragment → Pass σ (List Bound)} {nested' : Fragment → Pass τ (List Bound)}

/-- What a content adds to the values. -/
def collectContent (nested : Fragment → Pass σ (List Bound)) : Content → Pass σ (List Bound)
  | .fragment g => nested g
  | .runs rs => collectRuns nested rs
  | .scalar v => pure [.scalar v]
  | .skip => pure []

theorem collectSlots_cons (env : Environment σ) (f : Fragment) (v : Value) (rest : List Value) :
    collectSlots env f nested (v :: rest) = (do
      let c ← settle env f v
      let own ← collectContent nested c
      let tail ← collectSlots env f nested rest
      pure (own ++ tail)) := by
  simp only [collectSlots, settle, bind_assoc]
  refine bind_congr fun r => ?_
  cases r <;> simp [settleResolved, collectContent, collectResolved]

theorem collectContent_of_bound? {c : Content} {b : Bound} (h : c.bound? = some b) :
    collectContent nested c = pure [b] := by
  unfold Content.bound? at h
  split at h
  · cases h
    rfl
  · cases h
    simp [collectContent, collectRuns]
  · cases h

variable {env : Environment σ} {env' : Environment τ} {R : σ → τ → Prop}
  {K : Fragment → Fragment → Prop} {C : Bound → Bound → Prop}
  (hn : ∀ f g, K f g → Lockstep R (List.Forall₂ C) (nested f) (nested' g))

include hn

theorem collectRuns_lockstep {rs rs' : List Run} (h : List.Forall₂ (Run.Alike K C) rs rs') :
    Lockstep R (List.Forall₂ C) (collectRuns nested rs) (collectRuns nested' rs') := by
  induction h with
  | nil => exact .pure .nil
  | cons hr _ ih =>
    cases hr with
    | fragment hK adjacent =>
      refine .bind (hn _ _ hK) fun bs cs hbs => .bind ih fun bs' cs' hbs' => ?_
      exact .pure (List.rel_append hbs hbs')
    | group hC => exact .bind ih fun bs cs hbs => .pure (.cons hC hbs)

theorem collectContent_lockstep {x y : Content} (h : Content.Alike K C x y) :
    Lockstep R (List.Forall₂ C) (collectContent nested x) (collectContent nested' y) := by
  cases h with
  | fragment hK => exact hn _ _ hK
  | runs hrs => exact collectRuns_lockstep hn hrs
  | single hb hb' hC =>
    rw [collectContent_of_bound? hb, collectContent_of_bound? hb']
    exact .pure (.cons hC .nil)
  | skip => exact .pure .nil

theorem collectSlots_lockstep {f g : Fragment} {vs ws : List Value}
    (h : List.Forall₂ (fun v w =>
      Lockstep R (Content.Alike K C) (settle env f v) (settle env' g w)) vs ws) :
    Lockstep R (List.Forall₂ C) (collectSlots env f nested vs)
      (collectSlots env' g nested' ws) := by
  induction h with
  | nil => exact .pure .nil
  | cons hvw _ ih =>
    rw [collectSlots_cons, collectSlots_cons]
    refine .bind hvw fun x y hxy => .bind (collectContent_lockstep hn hxy) fun bs cs hbs => ?_
    exact .bind ih fun bs' cs' hbs' => .pure (List.rel_append hbs hbs')

end Collect

/-- **The values of fragments that settle alike** are collected in lockstep. -/
theorem Fragment.collect_lockstep {env : Environment σ} {env' : Environment τ} {R : σ → τ → Prop}
    {K : Fragment → Fragment → Prop} {C : Bound → Bound → Prop} (h : SettlesAlike env env' R K C)
    (n : Nat) {f g : Fragment} (hK : K f g) :
    Lockstep R (List.Forall₂ C) (f.collect env n) (g.collect env' n) := by
  induction n generalizing f g with
  | zero => exact .throw _
  | succ n ih => exact collectSlots_lockstep (fun _ _ hK => ih hK) (h.slots f g hK)

end SqlFragments
