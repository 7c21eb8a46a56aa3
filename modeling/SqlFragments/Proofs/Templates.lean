import SqlFragments.Builder.Basic
import SqlFragments.Proofs.Placement
import SqlFragments.Proofs.Sound

/-!
# Templates filled in

Splitting the text of a template at its pairs of braces is the only way to take it apart into
literal pieces without a pair. A fragment made from the pieces and from scalars has the text of the
template with each pair replaced by the placeholder of its slot: pairs without a slot are left out,
and the placeholders of slots without a pair come at the end.

* `PairFree`: text without a pair. **`intercalate_splitAtPairs`**, **`splitAtPairs_intercalate`**:
  splitting undoes joining, and the other way round.
* `replacePairs`, `fillIn`: text with its pairs replaced. **`interleave_splitAtPairs`**: it is made
  of the pieces and the tokens in turn.
* `Value.IsData`: scalars that are not asked. **`showSlots_data`**, **`collectSlots_data`**: what a
  pass makes of them.
* **`template_filled_in`**.
-/

namespace SqlFragments

variable {σ ω : Type}

/-! ## Splitting at pairs -/

def bracePair : List Char := ['\x7b', '\x7d']

def PairFree (cs : List Char) : Prop := ¬ bracePair <:+: cs

theorem pairFree_nil : PairFree [] := by
  rw [PairFree, List.infix_nil]
  exact List.cons_ne_nil _ _

theorem pairFree_singleton (c : Char) : PairFree [c] := fun h =>
  absurd h.length_le (by simp [bracePair])

theorem pairFree_cons_cons_iff {c d : Char} {cs : List Char} :
    PairFree (c :: d :: cs) ↔ ¬ (c = '\x7b' ∧ d = '\x7d') ∧ PairFree (d :: cs) := by
  unfold PairFree bracePair
  rw [List.infix_cons_iff, List.cons_prefix_cons, List.cons_prefix_cons, not_or]
  simp [eq_comm]

theorem splitAtPairs_of_pairFree {p : List Char} (h : PairFree p) : splitAtPairs p = [p] := by
  fun_induction splitAtPairs p with
  | case1 => rfl
  | case2 c => rfl
  | case3 c d rest hpair => exact absurd hpair (pairFree_cons_cons_iff.mp h).1
  | case4 c d rest hpair ih =>
    rw [ih (pairFree_cons_cons_iff.mp h).2]
    rfl

theorem splitAtPairs_append {p : List Char} (h : PairFree p) (cs : List Char) :
    splitAtPairs (p ++ (bracePair ++ cs)) = p :: splitAtPairs cs := by
  fun_induction splitAtPairs p with
  | case1 => simp [bracePair, splitAtPairs]
  | case2 c => simp [bracePair, splitAtPairs, consPiece]
  | case3 c d rest hpair => exact absurd hpair (pairFree_cons_cons_iff.mp h).1
  | case4 c d rest hpair ih =>
    rw [List.cons_append, List.cons_append, splitAtPairs, if_neg hpair, ← List.cons_append,
      ih (pairFree_cons_cons_iff.mp h).2]
    rfl

/-- **Joined pieces are split again**, unless there is a pair in one of them. -/
theorem splitAtPairs_intercalate {ps : List (List Char)} (hne : ps ≠ [])
    (h : ∀ p ∈ ps, PairFree p) : splitAtPairs (bracePair.intercalate ps) = ps := by
  induction ps with
  | nil => exact absurd rfl hne
  | cons p ps ih =>
    obtain ⟨hp, hps⟩ := List.forall_mem_cons.mp h
    cases ps with
    | nil =>
      rw [List.intercalate_singleton]
      exact splitAtPairs_of_pairFree hp
    | cons q qs =>
      rw [List.intercalate_cons_cons, List.append_assoc, splitAtPairs_append hp,
        ih (List.cons_ne_nil _ _) hps]

theorem exists_splitAtPairs_eq_cons (cs : List Char) : ∃ p ps, splitAtPairs cs = p :: ps :=
  List.exists_cons_of_ne_nil (splitAtPairs_ne_nil cs)

theorem intercalate_consPiece (c : Char) {ps : List (List Char)} (h : ps ≠ []) :
    bracePair.intercalate (consPiece c ps) = c :: bracePair.intercalate ps := by
  obtain ⟨p, ps, rfl⟩ := List.exists_cons_of_ne_nil h
  cases ps with
  | nil => rfl
  | cons q qs =>
    rw [consPiece, List.intercalate_cons_cons, List.intercalate_cons_cons]
    rfl

/-- **Pieces are joined again.** -/
theorem intercalate_splitAtPairs (cs : List Char) :
    bracePair.intercalate (splitAtPairs cs) = cs := by
  fun_induction splitAtPairs cs with
  | case1 => rfl
  | case2 c => rfl
  | case3 c d rest hpair ih =>
    obtain ⟨p, ps, hsplit⟩ := exists_splitAtPairs_eq_cons rest
    rw [hsplit] at ih ⊢
    rw [List.intercalate_cons_cons, ih, hpair.1, hpair.2]
    rfl
  | case4 c d rest hpair ih => rw [intercalate_consPiece c (splitAtPairs_ne_nil _), ih]

theorem prefix_of_splitAtPairs {cs p : List Char} {ps : List (List Char)}
    (h : splitAtPairs cs = p :: ps) : p <+: cs := by
  rw [← intercalate_splitAtPairs cs, h]
  cases ps with
  | nil => simp
  | cons q qs =>
    rw [List.intercalate_cons_cons, List.append_assoc]
    exact List.prefix_append _ _

theorem pairFree_of_mem_splitAtPairs {cs p : List Char} (h : p ∈ splitAtPairs cs) : PairFree p := by
  fun_induction splitAtPairs cs generalizing p with
  | case1 =>
    rw [List.mem_singleton.mp h]
    exact pairFree_nil
  | case2 c =>
    rw [List.mem_singleton.mp h]
    exact pairFree_singleton c
  | case3 c d rest hpair ih =>
    rcases List.mem_cons.mp h with rfl | h
    · exact pairFree_nil
    · exact ih h
  | case4 c d rest hpair ih =>
    obtain ⟨q, qs, hsplit⟩ := exists_splitAtPairs_eq_cons (d :: rest)
    rw [hsplit] at h ih
    rcases List.mem_cons.mp h with rfl | h
    · cases q with
      | nil => exact pairFree_singleton c
      | cons d' q =>
        -- the piece goes on with the next character, which makes no pair
        obtain ⟨rfl, -⟩ := List.cons_prefix_cons.mp (prefix_of_splitAtPairs hsplit)
        exact pairFree_cons_cons_iff.mpr ⟨hpair, ih List.mem_cons_self⟩
    · exact ih (List.mem_cons_of_mem _ h)

theorem map_toList_literalPieces (t : String) :
    (literalPieces t).map String.toList = splitAtPairs t.toList := by
  simp [literalPieces, Function.comp_def]

theorem intercalate_literalPieces (t : String) :
    String.intercalate "\x7b\x7d" (literalPieces t) = t := by
  rw [← String.toList_inj, String.toList_intercalate, map_toList_literalPieces]
  exact intercalate_splitAtPairs t.toList

/-- **There is no other way** to take the text of a template apart into pieces without a pair. -/
theorem literalPieces_intercalate {ps : List String} (hne : ps ≠ [])
    (h : ∀ p ∈ ps, PairFree p.toList) : literalPieces (String.intercalate "\x7b\x7d" ps) = ps := by
  have hsplit : splitAtPairs (String.intercalate "\x7b\x7d" ps).toList = ps.map String.toList := by
    rw [String.toList_intercalate]
    refine splitAtPairs_intercalate (by simpa using hne) fun p hp => ?_
    obtain ⟨q, hq, rfl⟩ := List.mem_map.mp hp
    exact h q hq
  rw [literalPieces, hsplit]
  simp [Function.comp_def]

/-! ## Filling in -/

/-- Text with its pairs replaced, the first one by `token k` and so on. -/
def replacePairs (token : Nat → String) : Nat → List Char → String
  | _, [] => ""
  | _, [c] => String.singleton c
  | k, c :: d :: rest =>
    if c = '\x7b' ∧ d = '\x7d' then token k ++ replacePairs token (k + 1) rest
    else String.singleton c ++ replacePairs token k (d :: rest)

/-- A template with its pairs replaced by tokens. Where there is no token left a pair is left out,
and tokens without a pair come at the end. -/
def fillIn (t : String) (tokens : List String) : String :=
  replacePairs (fun k => tokens.getD k "") 0 t.toList ++
    String.join (tokens.drop (pairCount t.toList))

/-- Pieces and tokens in turn; then the other tokens. -/
def interleave : List String → List String → String
  | [], tokens => String.join tokens
  | s :: ss, tokens => s ++ tokens.headD "" ++ interleave ss tokens.tail

theorem interleave_singleton (s : String) (tokens : List String) :
    interleave [s] tokens = s ++ String.join tokens := by
  cases tokens with
  | nil => simp [interleave]
  | cons t ts => simp [interleave, String.join_cons, String.append_assoc]

theorem interleave_consPiece (c : Char) {ps : List (List Char)} (h : ps ≠ [])
    (tokens : List String) :
    interleave ((consPiece c ps).map String.ofList) tokens =
      String.singleton c ++ interleave (ps.map String.ofList) tokens := by
  obtain ⟨p, ps, rfl⟩ := List.exists_cons_of_ne_nil h
  have hcons : String.ofList (c :: p) = String.singleton c ++ String.ofList p := by
    rw [← String.toList_inj]
    simp
  rw [consPiece, List.map_cons, List.map_cons, interleave, interleave, hcons]
  simp only [String.append_assoc]

/-- **The pieces and the tokens in turn** are the text with its pairs replaced. -/
theorem interleave_splitAtPairs (tokens : List String) (cs : List Char) (k : Nat) :
    interleave ((splitAtPairs cs).map String.ofList) (tokens.drop k) =
      replacePairs (fun i => tokens.getD i "") k cs ++
        String.join (tokens.drop (k + pairCount cs)) := by
  fun_induction splitAtPairs cs generalizing k with
  | case1 => exact interleave_singleton _ _
  | case2 c => exact interleave_singleton _ _
  | case3 c d rest hpair ih =>
    have hhead : (tokens.drop k).headD "" = tokens.getD k "" := by
      rw [List.headD_eq_head?_getD, List.head?_drop, List.getD_eq_getElem?_getD]
    rw [List.map_cons, interleave, List.tail_drop, ih, hhead, replacePairs, if_pos hpair, pairCount,
      if_pos hpair, Nat.add_right_comm k 1, Nat.add_assoc k]
    simp [String.append_assoc]
  | case4 c d rest hpair ih =>
    rw [interleave_consPiece c (splitAtPairs_ne_nil _), ih, replacePairs, if_neg hpair, pairCount,
      if_neg hpair, String.append_assoc]

theorem interleave_literalPieces (t : String) (tokens : List String) :
    interleave (literalPieces t) tokens = fillIn t tokens := by
  have hinterleave := interleave_splitAtPairs tokens t.toList 0
  rwa [List.drop_zero, Nat.zero_add] at hinterleave

theorem replacePairs_succ (token : Nat → String) (k : Nat) (cs : List Char) :
    replacePairs (fun i => token (i + 1)) k cs = replacePairs token (k + 1) cs := by
  fun_induction replacePairs (fun i => token (i + 1)) k cs with
  | case1 => rfl
  | case2 => rfl
  | case3 k c d rest hpair ih => rw [replacePairs, if_pos hpair, ih]
  | case4 k c d rest hpair ih => rw [replacePairs, if_neg hpair, ih]

theorem fillIn_range' (t : String) (token : Nat → String) (m : Nat) :
    fillIn t ((List.range' 1 m).map token) =
      replacePairs (fun k => if k ≤ m then token k else "") 1 t.toList ++
        String.join ((List.range' (pairCount t.toList + 1)
          (m - pairCount t.toList)).map token) := by
  have htoken : ∀ k, ((List.range' 1 m).map token).getD k "" =
      if k + 1 ≤ m then token (k + 1) else "" := by
    intro k
    rw [List.getD_eq_getElem?_getD, List.getElem?_map]
    by_cases hk : k + 1 ≤ m
    · rw [List.getElem?_range' hk, if_pos hk, Nat.one_mul, Nat.add_comm]
      rfl
    · have hlength : (List.range' 1 m).length ≤ k := by
        rw [List.length_range']
        omega
      rw [List.getElem?_eq_none hlength, if_neg hk]
      rfl
  rw [fillIn, ← replacePairs_succ, ← List.map_drop, List.drop_range', Nat.mul_one, Nat.add_comm 1]
  simp only [htoken]

/-! ## Scalars between the pieces -/

/-- The placeholders of `m` ordinals from `k` on. -/
def Dialect.placeholders (d : Dialect) (k m : Nat) : Except Failure (List String) :=
  (List.range' k m).mapM fun i : Nat => (d.placeholder (.int i)).mapError .ofPlaceholder

theorem Dialect.placeholders_eq {d : Dialect} {token : Nat → String} {k m : Nat}
    (h : ∀ i, k ≤ i → i < k + m → d.placeholder (.int i) = .ok (token i)) :
    d.placeholders k m = .ok ((List.range' k m).map token) := by
  unfold placeholders
  induction m generalizing k with
  | zero => rfl
  | succ m ih =>
    have hrest : ∀ i, k + 1 ≤ i → i < k + 1 + m → d.placeholder (.int i) = .ok (token i) :=
      fun i hi hm => h i (by omega) (by omega)
    rw [List.range'_succ, List.mapM_cons, h k (Nat.le_refl k) (by omega), ih hrest]
    rfl

section Data

variable (env : Environment σ) (d : Dialect) (owner : Fragment)

variable (I : σ → Prop)

theorem writePlaceholder_gives (k : Nat) :
    Gives I (writePlaceholder d k)
      ((·, k + 1) <$> (d.placeholder (.int (k + 1))).mapError .ofPlaceholder) := by
  intro s hs
  refine ⟨s, hs, ?_⟩
  unfold writePlaceholder
  cases d.placeholder (.int (k + 1)) <;> rfl

/-- **Scalars in slots** come to one placeholder each. -/
theorem showSlots_data (nested : Fragment → Nat → Pass σ (String × Nat)) {values : List Value}
    (h : ∀ v ∈ values, v.IsData) (k : Nat) :
    Gives I (showSlots env d owner nested values k)
      ((fun tokens => (tokens.map (Shown.mk .scalar), k + values.length)) <$>
        d.placeholders (k + 1) values.length) := by
  induction values generalizing k with
  | nil => exact .pure _
  | cons v rest ih =>
    obtain ⟨hv, hrest⟩ := List.forall_mem_cons.mp h
    have hslot : Gives I (showSlot env d owner nested v k)
        ((fun x => (Shown.mk .scalar x.1, x.2)) <$> (·, k + 1) <$>
          (d.placeholder (.int (k + 1))).mapError .ofPlaceholder) := by
      rw [showSlot, resolve_data env owner hv, pure_bind]
      exact (writePlaceholder_gives d I k).map _
    have hplaceholders : d.placeholders (k + 1) (rest.length + 1) = (do
        let token ← (d.placeholder (.int (k + 1))).mapError .ofPlaceholder
        let tokens ← d.placeholders (k + 1 + 1) rest.length
        pure (token :: tokens)) := by
      rw [Dialect.placeholders, List.range'_succ, List.mapM_cons, Int.natCast_succ]
      rfl
    rw [List.length_cons, hplaceholders]
    cases hp : (d.placeholder (.int (k + 1))).mapError Failure.ofPlaceholder with
    | error e =>
      rw [hp] at hslot
      exact hslot.bind_error
    | ok token =>
      rw [hp] at hslot
      have hmore := (ih hrest (k + 1)).map fun y => (Shown.mk .scalar token :: y.1, y.2)
      cases hps : d.placeholders (k + 1 + 1) rest.length with
      | error e =>
        rw [hps] at hmore
        exact hslot.bind_ok hmore
      | ok tokens =>
        rw [hps, Nat.add_right_comm k 1] at hmore
        exact hslot.bind_ok hmore

/-- **Scalars in slots** are bound as they are. -/
theorem collectSlots_data (nested : Fragment → Pass σ (List Bound)) {values : List Value}
    (h : ∀ v ∈ values, v.IsData) :
    collectSlots env owner nested values = pure (values.map .scalar) := by
  induction values with
  | nil => rfl
  | cons v rest ih =>
    obtain ⟨hv, hrest⟩ := List.forall_mem_cons.mp h
    rw [collectSlots, resolve_data env owner hv, ih hrest]
    rfl

theorem handOut_scalars (values : List Value) :
    (handOut (values.map .scalar) : Op ω (List Value)) = pure values := by
  induction values with
  | nil => rfl
  | cons v rest ih =>
    rw [List.map_cons, handOut, ih]
    rfl

end Data

namespace Fragment

variable {f : Fragment}

theorem lay_scalars (hf : f.joined = false) (previous : Option SlotKind) (ss tokens : List String) :
    f.lay previous ss (tokens.map (Shown.mk .scalar)) = interleave ss tokens := by
  have hbetween : ∀ previous, f.between previous .scalar = "" := by
    intro previous
    refine if_neg fun h => ?_
    cases previous <;> simp [separates, hf] at h
  induction ss generalizing previous tokens with
  | nil =>
    rw [interleave]
    induction tokens generalizing previous with
    | nil => rw [List.map_nil, lay, String.join_nil]
    | cons token tokens ih =>
      rw [List.map_cons, lay, hbetween, ih, String.join_cons, String.empty_append]
  | cons s ss ih =>
    cases tokens with
    | nil => simpa [lay, interleave] using ih (kindAfterText previous s) []
    | cons token tokens =>
      rw [List.map_cons, lay, hbetween, ih, String.append_empty]
      rfl

variable (hf : f.joined = false) (hslots : ∀ v ∈ f.slots, v.IsData) {env : Environment σ}
  (henv : 0 < env.depth)

include hslots henv

include hf in
/-- **The statement** is made of the segments and the placeholders in turn. -/
theorem statement_data (d : Dialect) (s : σ) :
    f.statement env d s =
      resultOf ((fun tokens => dropNewlines (interleave f.segments tokens)) <$>
        d.placeholders 1 f.slots.length) s := by
  obtain ⟨n, hn⟩ := Nat.exists_eq_succ_of_ne_zero (Nat.ne_of_gt henv)
  obtain ⟨_, rfl, hshown⟩ := showSlots_data env d f (· = s) (write env d n) hslots 0 s rfl
  rw [Nat.zero_add] at hshown
  rw [statement, hn, write, gaps, writeGaps_eq_lay]
  cases hp : d.placeholders 1 f.slots.length with
  | error e =>
    rw [hp] at hshown
    exact Pass.bind_error (Pass.map_error hshown _) _
  | ok tokens =>
    rw [hp] at hshown
    rw [Pass.bind_ok (Pass.map_ok hshown _), lay_scalars hf]
    rfl

/-- **The values** are those in the slots. -/
theorem bindings_data (s : σ) : f.bindings env s = .ok (f.slots.map .scalar) s := by
  obtain ⟨n, hn⟩ := Nat.exists_eq_succ_of_ne_zero (Nat.ne_of_gt henv)
  rw [bindings, hn, collect, collectSlots_data env f _ hslots]
  rfl

omit henv

variable {host : Host ω} (hhost : 0 < host.environment.depth) {s : Session ω}

include hhost

include hf in
theorem outcome_memoText_data {key : TextKey} (h : (s.cacheOf f).texts.get? key = none)
    (d : Dialect) :
    outcome (f.memoText host key d) s =
      (fun tokens => dropNewlines (interleave f.segments tokens)) <$>
        d.placeholders 1 f.slots.length := by
  rw [outcome, memoText_of_missing host h, statement_data hf hslots hhost]
  cases d.placeholders 1 f.slots.length <;> rfl

theorem values_data (h : (s.cacheOf f).values = none) :
    ∃ r s', f.values host s = .ok r s' ∧ s'.heap.elements r = f.slots := by
  obtain ⟨s₁, hmemo⟩ : ∃ s₁, f.memoValues host s = .ok (f.slots.map .scalar) s₁ := by
    rw [memoValues_of_missing host h, bindings_data hslots hhost]
    exact ⟨_, rfl⟩
  refine ⟨s₁.heap.nextRef, { s₁ with heap := s₁.heap.allocate f.slots }, ?_,
    s₁.heap.elements_allocate_self f.slots⟩
  rw [values, Pass.bind_ok hmemo, handOut_scalars, pure_bind]
  rfl

end Fragment

/-! ## Templates -/

/-- The fragment with values between literal pieces. -/
def Fragment.ofPieces (id : Nat) (pieces : List String) (values : List Value) : Fragment :=
  ⟨id, pieces, true, values, "", none, false⟩

section Build

variable {strings : Value} {items : List Value} {pieces : List String} {s : Session ω}

theorem pieceFragment_eq (pieces : List String) (values : List Value) (s : Session ω) :
    pieceFragment (pieces.map .str) values s =
      .ok (.ofPieces s.freshFragment pieces values)
        { s with freshFragment := s.freshFragment + 1 } := by
  have hparts : Fragment.parts s.heap (.segments (pieces.map .str)) (.tuple values) (.str "")
      .null = .ok ⟨pieces, true, values, "", none⟩ := by
    have hsegments : Fragment.segmentsOf s.heap (.segments (pieces.map .str)) = .ok pieces :=
      Fragment.segmentsOf_tuple s.heap pieces
    rw [Fragment.parts, hsegments]
    rfl
  rw [pieceFragment, Fragment.make, Pass.get_bind, hparts]
  rfl

theorem literalItems_of_sequence (h : strings.sequenceItems? s.heap = some items) :
    literalItems strings s = .ok items s := by
  rw [literalItems, Pass.get_bind]
  cases strings with
  | list _ | tuple _ | segments _ | deque _ | range _ =>
    cases h
    rfl
  | _ => cases h

/-- **A template object** with the same pieces makes the same fragment. -/
theorem Builder.ofTemplate_eq (h : strings.sequenceItems? s.heap = some (pieces.map .str))
    (values : List Value) :
    Builder.ofTemplate strings values s =
      .ok (.ofPieces s.freshFragment pieces values)
        { s.record (.builtFromTemplate values.length) with
          freshFragment := s.freshFragment + 1 } := by
  rw [ofTemplate, Pass.bind_ok (literalItems_of_sequence h), Pass.modify_bind]
  exact pieceFragment_eq pieces values _

end Build

/-- **A template filled in.** There is one way to take text apart at its pairs of braces. A fragment
made from the pieces and from scalars, however many, has the text with the pairs replaced by the
placeholders of the scalars, without line breaks; pairs for which there is no scalar are left out,
and placeholders for which there is no pair come at the end. Its values are the scalars. A template
object makes the same fragment. -/
theorem template_filled_in (t : String) {values : List Value} (hvalues : ∀ v ∈ values, v.IsData) :
    -- the pieces
    (String.intercalate "\x7b\x7d" (literalPieces t) = t ∧
      (∀ p ∈ literalPieces t, PairFree p.toList) ∧
      (∀ ps, ps ≠ [] → (∀ p ∈ ps, PairFree p.toList) →
        String.intercalate "\x7b\x7d" ps = t → ps = literalPieces t) ∧
      (literalPieces t).length = pairCount t.toList + 1) ∧
    ∀ {ω : Type} (s : Session ω), ∃ f s', tag t values s = .ok f s' ∧
      -- other ways to build it
      (∀ b : Builder, b.call (.segments ((literalPieces t).map .str) :: values) s = .ok f s') ∧
      (∀ strings, strings.sequenceItems? s.heap = some ((literalPieces t).map .str) →
        ∃ s'', Builder.ofTemplate strings values s = .ok f s'' ∧
          ∀ (b : Builder) (id : Nat),
            b.call [.template ⟨id, strings, some values⟩] s = .ok f s'') ∧
      -- what a pass makes of it
      (∀ {σ : Type} (env : Environment σ), 0 < env.depth → ∀ (d : Dialect) (s₁ : σ),
        f.statement env d s₁ =
          resultOf ((fun tokens => dropNewlines (fillIn t tokens)) <$>
            d.placeholders 1 values.length) s₁ ∧
        (∀ token, (∀ k, 1 ≤ k → k ≤ values.length → d.placeholder (.int k) = .ok (token k)) →
          f.statement env d s₁ =
            .ok (dropNewlines
              (replacePairs (fun k => if k ≤ values.length then token k else "") 1 t.toList ++
                String.join ((List.range' (pairCount t.toList + 1)
                  (values.length - pairCount t.toList)).map token))) s₁) ∧
        f.bindings env s₁ = .ok (values.map .scalar) s₁) ∧
      -- what its getters give
      ∀ (host : Host ω), 0 < host.depth → ∀ s₁ : Session ω,
        (∀ key d, (s₁.cacheOf f).texts.get? key = none →
          outcome (f.memoText host key d) s₁ =
            (fun tokens => dropNewlines (fillIn t tokens)) <$> d.placeholders 1 values.length) ∧
        ((s₁.cacheOf f).values = none →
          ∃ r s₂, f.values host s₁ = .ok r s₂ ∧ s₂.heap.elements r = values) := by
  refine ⟨⟨intercalate_literalPieces t, ?_, ?_, ?_⟩, fun {ω} s => ?_⟩
  · intro p hp
    obtain ⟨q, hq, rfl⟩ := List.mem_map.mp hp
    rw [String.toList_ofList]
    exact pairFree_of_mem_splitAtPairs hq
  · rintro ps hne hps rfl
    exact (literalPieces_intercalate hne hps).symm
  · exact length_literalPieces t
  · let f : Fragment := .ofPieces s.freshFragment (literalPieces t) values
    have hstatement : ∀ {σ : Type} {env : Environment σ}, 0 < env.depth → ∀ d s₁,
        f.statement env d s₁ = resultOf ((fun tokens => dropNewlines (fillIn t tokens)) <$>
          d.placeholders 1 values.length) s₁ := by
      intro σ env henv d s₁
      simp only [← interleave_literalPieces]
      exact Fragment.statement_data rfl hvalues henv d s₁
    refine ⟨f, _, pieceFragment_eq _ values s, fun b => pieceFragment_eq _ values s, ?_, ?_, ?_⟩
    · intro strings hstrings
      have htemplate := Builder.ofTemplate_eq hstrings values
      exact ⟨_, htemplate, fun b id => htemplate⟩
    · intro σ env henv d s₁
      refine ⟨hstatement henv d s₁, fun token htoken => ?_,
        Fragment.bindings_data (f := f) hvalues henv s₁⟩
      have hplaceholders : d.placeholders 1 values.length =
          .ok ((List.range' 1 values.length).map token) :=
        Dialect.placeholders_eq fun k hk hm => htoken k hk (by omega)
      rw [hstatement henv d s₁, hplaceholders, ← fillIn_range']
      rfl
    · intro host hdepth s₁
      refine ⟨fun key d hnone => ?_, fun hnone => ?_⟩
      · simp only [← interleave_literalPieces]
        exact Fragment.outcome_memoText_data rfl hvalues hdepth hnone d
      · exact Fragment.values_data (f := f) hvalues hdepth hnone

/-- Braces around a pair, with fewer and with more scalars than there are pairs. -/
theorem template_filled_in_braces :
    let t := "\x7b\x7d = \x7b\x7b\x7d\x7d\n\x7b\x7d"
    let few : List Value := [.int 7, .str "x"]
    let many : List Value := [.null, .str "\x7b\x7d", .int 7, .null, .str ""]
    let env : Environment Unit := ⟨fun _ _ => [], fun _ _ => throw .tooDeep, 1⟩
    let s : Session Unit := .initial ()
    (∀ v ∈ few ++ many, v.IsData) ∧
      (∃ f s', tag t few s = .ok f s' ∧ f.statement env .postgres () = .ok "$1 = \x7b$2\x7d" () ∧
        f.bindings env () = .ok (few.map .scalar) ()) ∧
      ∃ f s', tag t many s = .ok f s' ∧ f.statement env .mysql () = .ok "? = \x7b?\x7d???" () ∧
        f.bindings env () = .ok (many.map .scalar) () := by
  intro t few many env s
  have hdata : ∀ v ∈ few ++ many, v.IsData := by
    simp [few, many, Value.IsData, Value.classify, Value.callable?]
  refine ⟨hdata, ?_, ?_⟩
  · have hfew : ∀ v ∈ few, v.IsData := fun v hv => hdata v (List.mem_append_left many hv)
    obtain ⟨-, hbuild⟩ := template_filled_in t hfew
    obtain ⟨f, s', htag, -, -, hpass, -⟩ := hbuild s
    obtain ⟨-, htext, hbindings⟩ := hpass env Nat.one_pos .postgres ()
    refine ⟨f, s', htag, (htext _ fun k hk _ => Dialect.writes_postgres k hk).trans ?_, hbindings⟩
    refine congrArg (EStateM.Result.ok · ()) ?_
    simp only [t, few]
    decide
  · have hmany : ∀ v ∈ many, v.IsData := fun v hv => hdata v (List.mem_append_right few hv)
    obtain ⟨-, hbuild⟩ := template_filled_in t hmany
    obtain ⟨f, s', htag, -, -, hpass, -⟩ := hbuild s
    obtain ⟨-, htext, hbindings⟩ := hpass env Nat.one_pos .mysql ()
    refine ⟨f, s', htag, (htext _ fun k hk _ => Dialect.writes_mysql k hk).trans ?_, hbindings⟩
    refine congrArg (EStateM.Result.ok · ()) ?_
    simp only [t, many]
    decide

end SqlFragments
