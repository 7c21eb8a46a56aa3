import Mathlib.Data.List.SplitBy
import SqlFragments.Proofs.Reading

/-!
# The stream of a fragment

If no callable fails and fragments are nested to finite depth, a fragment stands for one stream of
pieces: literal text and bound values from left to right, whatever the dialect. The statement and
the bound values are two projections of it.

* `TotalReading`: what list objects hold and callables answer, where no callable fails.
* `TotalReading.inside`, `TotalReading.WellNested`: the fragments right inside a fragment, and
  nesting to finite depth.
* `stretchesOf`: the maximal runs of scalars in a sequence, and the fragments between.
* `TotalReading.layout`: the pieces of a fragment, given the pieces of the fragments inside.
* `TotalReading.Stream`: the stream of a fragment.
* **`groupAfter_eq_runsOf`**: grouping cuts a sequence into its maximal runs.
* **`TotalReading.Stream.pieces_eq`**: a pass meets the pieces of the stream.
* **`TotalReading.stream_projections`**: the statement and the bound values of a fragment.
-/

namespace SqlFragments

variable {σ : Type}

/-- A reading in which no callable fails. -/
structure TotalReading where
  elements : ListRef → List Value
  answer : Callable → Fragment → Value

/-! ## Maximal runs -/

/-- Neighbours in a sequence are bound together unless one of them is a fragment. -/
def boundTogether (r r' : Resolved) : Bool := r.kind != .fragment && r'.kind != .fragment

/-- The longest stretches of elements that are bound together; a fragment is one by itself. -/
def stretchesOf (rs : List Resolved) : List (List Resolved) :=
  (rs.filter fun r => r.kind ≠ .skip).splitBy boundTogether

/-- Stretches as runs that follow a fragment (`afterFragment`) or not. -/
def runsOf : Bool → List (List Resolved) → List Run
  | _, [] => []
  | b, [.fragment g] :: rest => .fragment g b :: runsOf true rest
  | _, c :: rest => .group (c.map Resolved.toValue) :: runsOf false rest

section Stretches

variable {r r' : Resolved} {rs : List Resolved}

theorem splitBy_cons_apart (h : boundTogether r r' = false) :
    (r :: r' :: rs).splitBy boundTogether = [r] :: (r' :: rs).splitBy boundTogether := by
  have hsplit : ([r] ++ r' :: rs).splitBy boundTogether =
      [r].splitBy boundTogether ++ (r' :: rs).splitBy boundTogether := by
    apply List.splitBy_append_cons
    intro x hx
    rw [← Option.some.inj hx]
    exact h
  exact hsplit

theorem splitBy_cons_fragment (g : Fragment) (rs : List Resolved) :
    (Resolved.fragment g :: rs).splitBy boundTogether =
      [.fragment g] :: rs.splitBy boundTogether := by
  cases rs with
  | nil => rfl
  | cons r' rs => exact splitBy_cons_apart rfl

theorem splitBy_cons_together (h : boundTogether r r' = true) :
    ∃ c cs, (r' :: rs).splitBy boundTogether = (r' :: c) :: cs ∧
      (r :: r' :: rs).splitBy boundTogether = (r :: r' :: c) :: cs := by
  cases hsplit : (r' :: rs).splitBy boundTogether with
  | nil => cases List.splitBy_eq_nil.mp hsplit
  | cons c cs =>
    obtain ⟨hflat, hnil, hchain, hapart⟩ := List.splitBy_eq_iff.mp hsplit
    cases c with
    | nil => exact absurd List.mem_cons_self hnil
    | cons x c =>
      obtain ⟨rfl, hrs⟩ := List.cons.inj hflat
      refine ⟨c, cs, rfl, List.splitBy_eq_iff.mpr ⟨?_, ?_, ?_, ?_⟩⟩
      · rw [hrs]
        rfl
      · intro hmem
        rcases List.mem_cons.mp hmem with hnil' | hmem
        · cases hnil'
        · exact hnil (List.mem_cons_of_mem _ hmem)
      · intro m hm
        rcases List.mem_cons.mp hm with rfl | hm
        · exact List.isChain_cons_cons.mpr ⟨h, hchain _ List.mem_cons_self⟩
        · exact hchain m (List.mem_cons_of_mem _ hm)
      · cases cs with
        | nil => exact .singleton _
        | cons c' cs =>
          obtain ⟨⟨ha, hb, hr⟩, htail⟩ := List.isChain_cons_cons.mp hapart
          refine List.isChain_cons_cons.mpr ⟨⟨List.cons_ne_nil _ _, hb, ?_⟩, htail⟩
          rw [List.getLast_cons ha]
          exact hr

end Stretches

theorem runsOf_group (b : Bool) {r : Resolved} (h : r.kind ≠ .fragment) (c : List Resolved)
    (cs : List (List Resolved)) :
    runsOf b ((r :: c) :: cs) = .group ((r :: c).map Resolved.toValue) :: runsOf false cs := by
  cases r with
  | fragment g => exact absurd rfl h
  | sequence s => rfl
  | scalar v => rfl
  | skip => rfl

theorem consScalar_runsOf {r : Resolved} (h : r.kind ≠ .fragment) (b : Bool) (rs : List Resolved) :
    consScalar r.toValue (runsOf false (rs.splitBy boundTogether)) =
      runsOf b ((r :: rs).splitBy boundTogether) := by
  cases rs with
  | nil => exact (runsOf_group b h [] []).symm
  | cons r' rs =>
    by_cases h' : r'.kind = .fragment
    · have hapart : boundTogether r r' = false := by simp [boundTogether, h']
      rw [splitBy_cons_apart hapart, runsOf_group b h]
      cases r' with
      | fragment g =>
        rw [splitBy_cons_fragment]
        rfl
      | _ => cases h'
    · have htogether : boundTogether r r' = true := by simp [boundTogether, h, h']
      obtain ⟨c, cs, htail, hall⟩ := splitBy_cons_together htogether
      rw [htail, hall, runsOf_group _ h', runsOf_group _ h]
      rfl

/-- **Grouping cuts a sequence into its maximal runs of scalars.** -/
theorem groupAfter_eq_runsOf (b : Bool) (rs : List Resolved) :
    groupAfter b rs = runsOf b (stretchesOf rs) := by
  unfold stretchesOf
  induction rs generalizing b with
  | nil => rfl
  | cons r rest ih =>
    cases r with
    | skip => exact ih b
    | fragment g =>
      rw [groupAfter, ih true, List.filter_cons_of_pos (by simp [Resolved.kind]),
        splitBy_cons_fragment]
      rfl
    | scalar v =>
      rw [groupAfter, ih false, List.filter_cons_of_pos (by simp [Resolved.kind]),
        ← consScalar_runsOf (by simp [Resolved.kind])]
      rfl
    | sequence s =>
      rw [groupAfter, ih false, List.filter_cons_of_pos (by simp [Resolved.kind]),
        ← consScalar_runsOf (by simp [Resolved.kind])]
      rfl

/-! ## The pieces of one fragment -/

namespace TotalReading

variable (A : TotalReading)

def toReading : Reading := ⟨A.elements, fun c f => .ok (A.answer c f)⟩

section Slot

variable (owner : Fragment)

/-- What a slot of `owner` stands for. -/
def resolved (v : Value) : Resolved :=
  match v.callable? with
  | some c => (A.answer c owner).classify
  | none => v.classify

/-- What the elements of a sequence stand for. -/
def members (s : Sequence) : List Resolved := (A.toReading.items s).map (A.resolved owner)

/-- The fragments right inside what a slot of `owner` stands for. -/
def fragmentsOf : Resolved → List Fragment
  | .fragment g => [g]
  | .sequence s => (A.members owner s).filterMap Resolved.fragment?
  | .scalar _ | .skip => []

end Slot

/-- The fragments right inside a fragment. -/
def inside (f : Fragment) : List Fragment :=
  f.slots.flatMap fun v => A.fragmentsOf f (A.resolved f v)

/-- Fragments are nested to finite depth, and none in itself. -/
def WellNested (f : Fragment) : Prop := Acc (fun g h => g ∈ A.inside h) f

section Layout

variable (owner : Fragment) (own : Fragment → List Piece)

/-- The pieces of stretches that follow a fragment (`afterFragment`) or not. -/
def layStretches : Bool → List (List Resolved) → List Piece
  | _, [] => []
  | b, [.fragment g] :: rest =>
    (if b then [.literal owner.delimiter] else []) ++ own g ++ layStretches true rest
  | _, c :: rest => .bound (.group (c.map Resolved.toValue)) :: layStretches false rest

/-- The pieces of a slot. An empty sequence is one empty list. -/
def laySlot : Resolved → List Piece
  | .fragment g => own g
  | .sequence s =>
    if (A.toReading.items s).isEmpty then [.bound (.group [])]
    else layStretches owner own false (stretchesOf (A.members owner s))
  | .scalar v => [.bound (.scalar v)]
  | .skip => []

/-- The pieces of gaps; `previous` is the kind of the last slot, if there is no text since. -/
def layGaps : Option SlotKind → List (String × Option Value) → List Piece
  | _, [] => []
  | previous, (literal, none) :: rest =>
    .literal literal :: layGaps (if literal.isEmpty then previous else none) rest
  | previous, (literal, some v) :: rest =>
    let previous := if literal.isEmpty then previous else none
    let r := A.resolved owner v
    if r.kind = .skip then .literal literal :: layGaps previous rest
    else
      .literal literal ::
        ((if owner.separates previous r.kind then [.literal owner.delimiter] else []) ++
          A.laySlot owner own r ++ layGaps (some r.kind) rest)

/-- The pieces of `owner`, if those of the fragments inside are given by `own`. -/
def layout : List Piece := A.layGaps owner own none owner.gaps

end Layout

/-- The stream of a fragment: its own pieces, with the streams of the fragments inside. -/
inductive Stream : Fragment → List Piece → Prop
  | intro {f : Fragment} (own : Fragment → List Piece) (h : ∀ g ∈ A.inside f, Stream g (own g)) :
    Stream f (A.layout f own)

/-! ## One stream -/

section Congr

variable {A} {owner : Fragment} {own own' : Fragment → List Piece}

theorem layStretches_congr (b : Bool) (cs : List (List Resolved))
    (h : ∀ g, [.fragment g] ∈ cs → own g = own' g) :
    layStretches owner own b cs = layStretches owner own' b cs := by
  fun_induction layStretches owner own b cs with
  | case1 b => rfl
  | case2 b g rest ih =>
    rw [layStretches, h g List.mem_cons_self,
      ih fun g' hg' => h g' (List.mem_cons_of_mem _ hg')]
  | case3 b c rest hc ih =>
    rw [layStretches.eq_3 _ _ _ _ _ hc, ih fun g' hg' => h g' (List.mem_cons_of_mem _ hg')]

theorem fragment_mem_of_mem_stretchesOf {rs : List Resolved} {g : Fragment}
    (h : [.fragment g] ∈ stretchesOf rs) : Resolved.fragment g ∈ rs := by
  have hflat : Resolved.fragment g ∈ (stretchesOf rs).flatten :=
    List.mem_flatten.mpr ⟨_, h, List.mem_cons_self⟩
  rw [stretchesOf, List.flatten_splitBy] at hflat
  exact (List.mem_filter.mp hflat).1

theorem laySlot_congr {r : Resolved} (h : ∀ g ∈ A.fragmentsOf owner r, own g = own' g) :
    A.laySlot owner own r = A.laySlot owner own' r := by
  cases r with
  | fragment g => exact h g List.mem_cons_self
  | sequence s =>
    rw [laySlot, laySlot]
    split_ifs
    · rfl
    · refine layStretches_congr false _ fun g hg => h g ?_
      exact List.mem_filterMap.mpr ⟨_, fragment_mem_of_mem_stretchesOf hg, rfl⟩
  | scalar v => rfl
  | skip => rfl

theorem layGaps_congr (previous : Option SlotKind) (gaps : List (String × Option Value))
    (h : ∀ v ∈ gaps.filterMap Prod.snd, ∀ g ∈ A.fragmentsOf owner (A.resolved owner v),
      own g = own' g) :
    A.layGaps owner own previous gaps = A.layGaps owner own' previous gaps := by
  induction gaps generalizing previous with
  | nil => rfl
  | cons gap rest ih =>
    obtain ⟨literal, _ | v⟩ := gap
    · rw [layGaps, layGaps, ih _ h]
    · have hrest : ∀ w ∈ rest.filterMap Prod.snd, ∀ g ∈ A.fragmentsOf owner (A.resolved owner w),
          own g = own' g := fun w hw => h w (List.mem_cons_of_mem v hw)
      simp only [layGaps]
      rw [laySlot_congr (h v List.mem_cons_self), ih _ hrest, ih _ hrest]

theorem layout_congr (h : ∀ g ∈ A.inside owner, own g = own' g) :
    A.layout owner own = A.layout owner own' := by
  refine layGaps_congr none owner.gaps fun v hv g hg => h g ?_
  rw [owner.gaps_slots] at hv
  exact List.mem_flatMap.mpr ⟨v, hv, hg⟩

end Congr

variable {A} {f : Fragment} {ps qs : List Piece}

/-- **A fragment has at most one stream.** -/
theorem Stream.unique (hp : A.Stream f ps) (hq : A.Stream f qs) : ps = qs := by
  induction hp generalizing qs with
  | intro own h ih =>
    cases hq with
    | intro own' h' => exact layout_congr fun g hg => ih g hg (h' g hg)

/-- **A fragment that is well nested has a stream.** -/
theorem WellNested.exists_stream (h : A.WellNested f) : ∃ ps, A.Stream f ps := by
  induction h with
  | intro f _ ih =>
    choose own hown using ih
    classical
    refine ⟨_, .intro (fun g => if hg : g ∈ A.inside f then own g hg else []) fun g hg => ?_⟩
    rw [dif_pos hg]
    exact hown g hg

/-! ## The passes meet the stream -/

section Settle

variable (A) (owner : Fragment)

/-- What a slot holds, with its sequence split into runs. -/
def content : Resolved → Content
  | .fragment g => .fragment g
  | .sequence s =>
    .runs (if (A.toReading.items s).isEmpty then [.group []] else group (A.members owner s))
  | .scalar v => .scalar v
  | .skip => .skip

theorem resolve_eq (v : Value) : A.toReading.resolve owner v = .ok (A.resolved owner v) := by
  unfold Reading.resolve resolved
  cases v.callable? <;> rfl

theorem resolveItems_eq (vs : List Value) :
    A.toReading.resolveItems owner vs = .ok (vs.map (A.resolved owner)) := by
  induction vs with
  | nil => rfl
  | cons v rest ih =>
    rw [Reading.resolveItems, resolve_eq, ih]
    rfl

theorem settle_eq (v : Value) :
    A.toReading.settle owner v = .ok (A.content owner (A.resolved owner v)) := by
  rw [Reading.settle, resolve_eq]
  change A.toReading.settleResolved owner (A.resolved owner v) = _
  cases A.resolved owner v with
  | sequence s =>
    rw [Reading.settleResolved, Reading.sequenceRuns, resolveItems_eq, content]
    split_ifs <;> rfl
  | _ => rfl

theorem kind_content (r : Resolved) : (A.content owner r).kind = r.kind := by
  cases r <;> rfl

end Settle

section Walk

variable {owner : Fragment} {own : Fragment → List Piece} {env : Environment σ}
  {nested : Fragment → List Piece → Pass σ (List Piece)}

theorem walkDelimiter_note (b : Bool) (ps : List Piece) :
    walkDelimiter (σ := σ) notePiece owner b ps =
      pure (ps ++ if b then [.literal owner.delimiter] else []) := by
  cases b with
  | false =>
    rw [if_neg Bool.false_ne_true, List.append_nil]
    rfl
  | true => rfl

theorem walkRuns_note (b : Bool) (cs : List (List Resolved))
    (hn : ∀ g, [.fragment g] ∈ cs → ∀ ps, nested g ps = pure (ps ++ own g)) (ps : List Piece) :
    walkRuns notePiece owner nested (runsOf b cs) ps =
      pure (ps ++ layStretches owner own b cs) := by
  fun_induction layStretches owner own b cs generalizing ps with
  | case1 b =>
    rw [List.append_nil]
    rfl
  | case2 b g rest ih =>
    rw [runsOf, walkRuns, walkDelimiter_note, pure_bind, hn g List.mem_cons_self, pure_bind,
      ih fun g' hg' => hn g' (List.mem_cons_of_mem _ hg')]
    simp only [List.append_assoc]
  | case3 b c rest hc ih =>
    rw [runsOf.eq_3 _ _ _ hc, walkRuns, notePiece, pure_bind,
      ih fun g' hg' => hn g' (List.mem_cons_of_mem _ hg'), ← List.append_cons]

theorem walkContent_note {r : Resolved}
    (hn : ∀ g ∈ A.fragmentsOf owner r, ∀ ps, nested g ps = pure (ps ++ own g)) (ps : List Piece) :
    walkContent notePiece owner nested (A.content owner r) ps =
      pure (ps ++ A.laySlot owner own r) := by
  cases r with
  | fragment g => exact hn g List.mem_cons_self ps
  | sequence s =>
    rw [content, laySlot]
    split_ifs
    · rfl
    · rw [group, groupAfter_eq_runsOf]
      refine walkRuns_note false _ (fun g hg => hn g ?_) ps
      exact List.mem_filterMap.mpr ⟨_, fragment_mem_of_mem_stretchesOf hg, rfl⟩
  | scalar v => rfl
  | skip =>
    rw [laySlot, List.append_nil]
    rfl

theorem layGaps_slot (literal : String) (v : Value) (rest : List (String × Option Value))
    (previous : Option SlotKind) :
    A.layGaps owner own previous ((literal, some v) :: rest) =
      let previous := if literal.isEmpty then previous else none
      let r := A.resolved owner v
      .literal literal ::
        ((if r.kind != .skip && owner.separates previous r.kind then [.literal owner.delimiter]
          else []) ++ A.laySlot owner own r ++
          A.layGaps owner own (kindAfter previous r.kind) rest) := by
  simp only [layGaps, kindAfter]
  by_cases hskip : (A.resolved owner v).kind = .skip
  · have hr : A.resolved owner v = .skip := by
      cases hv : A.resolved owner v with
      | skip => rfl
      | _ => rw [hv] at hskip; cases hskip
    rw [hr]
    rfl
  · rw [if_neg hskip, if_neg hskip, bne_iff_ne.mpr hskip, Bool.true_and]

theorem walkGaps_note (gaps : List (String × Option Value))
    (hs : ∀ v, settle env owner v = pure (A.content owner (A.resolved owner v)))
    (hn : ∀ v ∈ gaps.filterMap Prod.snd, ∀ g ∈ A.fragmentsOf owner (A.resolved owner v), ∀ ps,
      nested g ps = pure (ps ++ own g))
    (previous : Option SlotKind) (ps : List Piece) :
    walkGaps env notePiece owner nested gaps previous ps =
      pure (ps ++ A.layGaps owner own previous gaps) := by
  induction gaps generalizing previous ps with
  | nil =>
    rw [layGaps, List.append_nil]
    rfl
  | cons gap rest ih =>
    obtain ⟨literal, _ | v⟩ := gap
    · rw [walkGaps, layGaps, notePiece, pure_bind, ih hn, ← List.append_cons]
    · have hrest := ih fun w hw => hn w (List.mem_cons_of_mem v hw)
      rw [walkGaps, layGaps_slot, notePiece, pure_bind, hs, pure_bind, kind_content,
        walkDelimiter_note, pure_bind, walkContent_note (hn v List.mem_cons_self), pure_bind, hrest]
      simp only [List.append_assoc, List.cons_append, List.nil_append]

end Walk

theorem exists_common_bound {α : Type} {P : α → Nat → Prop} (l : List α)
    (h : ∀ a ∈ l, ∃ n, ∀ m, n ≤ m → P a m) : ∃ n, ∀ a ∈ l, ∀ m, n ≤ m → P a m := by
  induction l with
  | nil => exact ⟨0, fun a ha => by cases ha⟩
  | cons a l ih =>
    obtain ⟨n, hn⟩ := h a List.mem_cons_self
    obtain ⟨n', hn'⟩ := ih fun b hb => h b (List.mem_cons_of_mem a hb)
    refine ⟨max n n', fun b hb m hm => ?_⟩
    rcases List.mem_cons.mp hb with rfl | hb
    · exact hn m (by omega)
    · exact hn' b hb m (by omega)

theorem Stream.walk_note (h : A.Stream f ps) :
    ∃ n, ∀ m, n ≤ m → ∀ depth qs,
      f.walk (A.toReading.environment depth) notePiece m qs = pure (qs ++ ps) := by
  induction h with
  | @intro f own _ ih =>
    obtain ⟨n, hn⟩ := exists_common_bound _ ih
    refine ⟨n + 1, fun m hm depth qs => ?_⟩
    obtain ⟨m, rfl⟩ := Nat.exists_eq_add_of_le' (Nat.le_trans (Nat.le_add_left 1 n) hm)
    refine walkGaps_note f.gaps (fun v => ?_) (fun v hv g hg => ?_) none qs
    · rw [A.toReading.settle_environment, A.settle_eq]
      rfl
    · rw [f.gaps_slots] at hv
      exact hn g (List.mem_flatMap.mpr ⟨v, hv, hg⟩) m (by omega) depth

/-- **A pass that may go deep enough meets the pieces of the stream.** -/
theorem Stream.pieces_eq (h : A.Stream f ps) :
    ∃ n, ∀ m, n ≤ m → A.toReading.pieces m f = .ok ps := by
  obtain ⟨n, hn⟩ := h.walk_note
  refine ⟨n, fun m hm => ?_⟩
  rw [Reading.pieces, Fragment.pieces, hn m hm m []]
  rfl

/-- **One stream, two projections.** -/
theorem stream_projections (hf : A.WellNested f) :
    ∃ ps, (∀ qs, A.Stream f qs ↔ qs = ps) ∧
      ∃ n, ∀ {σ : Type} (env : Environment σ) (I : σ → Prop) (known : Value → Prop),
        env.Follows A.toReading I known → A.toReading.Closed known → known (.fragment f) →
        n ≤ env.depth → ∀ s, I s →
          (∃ s', I s' ∧ f.bindings env s = .ok (boundValues ps) s') ∧
          ∀ (d : Dialect) (token : Nat → String), d.Writes token →
            (∃ s', I s' ∧ f.statement env d s = .ok (dropNewlines (spell token 1 ps)) s') ∧
            (marks token 1 ps).filterMap Mark.token? =
              (List.range' 1 (boundValues ps).length).map token := by
  obtain ⟨ps, hps⟩ := hf.exists_stream
  obtain ⟨n, hn⟩ := hps.pieces_eq
  refine ⟨ps, fun qs => ⟨fun hqs => hqs.unique hps, fun h => h ▸ hps⟩, n, ?_⟩
  intro σ env I known hfollows hc hknown hdepth s hs
  obtain ⟨s', hs', hrun⟩ := hfollows.pieces hc hknown s hs
  rw [hn env.depth hdepth] at hrun
  refine ⟨⟨s', hs', ?_⟩, fun d token hd => ⟨⟨s', hs', ?_⟩, placeholders_marks token 1 ps⟩⟩
  · rw [f.bindings_eq_pieces]
    exact Pass.map_ok hrun _
  · rw [f.statement_eq_pieces env hd]
    exact Pass.map_ok hrun _

/-- A callable, a sequence with a fragment in it, a joined fragment, two fragments next to each
other, and text that looks like a placeholder. -/
theorem stream_projections_mixed :
    let A : TotalReading := ⟨fun _ => [], fun _ _ => .int 7⟩
    let g : Fragment := ⟨1, ["x = "], false, [.str "$9"], "", none, false⟩
    let j : Fragment :=
      ⟨2, ["", "", "", ""], false, [.str "y", .skip, .fragment g], " | ", none, true⟩
    let f : Fragment := ⟨0, ["a = ", " AND b IN\n", " AND ", "", ""], false,
      [.callable ⟨0, "seven"⟩, .tuple [.int 1, .skip, .int 2, g], .fragment j, .fragment g], ", ",
      none, false⟩
    A.WellNested f ∧ ∃ n,
      f.bindings (A.toReading.environment n) () =
        .ok [.scalar (.int 7), .group [.int 1, .int 2], .scalar (.str "$9"), .scalar (.str "y"),
          .scalar (.str "$9"), .scalar (.str "$9")] () ∧
      f.statement (A.toReading.environment n) .postgres () =
        .ok "a = $1 AND b IN$2x = $3 AND $4 | x = $5, x = $6" () := by
  intro A g j f
  have hinside : ∀ h ∈ A.inside f, h = j ∨ h = g := by
    intro h hh
    rcases List.mem_cons.mp hh with rfl | hh
    · exact .inr rfl
    rcases List.mem_cons.mp hh with rfl | hh
    · exact .inl rfl
    · exact .inr (List.mem_singleton.mp hh)
  have hg : A.Stream g [.literal "x = ", .bound (.scalar (.str "$9"))] :=
    .intro (f := g) (fun _ => []) fun h hh => by cases hh
  have hj : A.Stream j [.literal "", .bound (.scalar (.str "y")), .literal "", .literal "",
      .literal " | ", .literal "x = ", .bound (.scalar (.str "$9")), .literal ""] := by
    refine .intro (f := j) (fun _ => [.literal "x = ", .bound (.scalar (.str "$9"))]) fun h hh => ?_
    rw [List.mem_singleton.mp hh]
    exact hg
  have hf : A.Stream f [.literal "a = ", .bound (.scalar (.int 7)), .literal " AND b IN\n",
      .bound (.group [.int 1, .int 2]), .literal "x = ", .bound (.scalar (.str "$9")),
      .literal " AND ", .literal "", .bound (.scalar (.str "y")), .literal "", .literal "",
      .literal " | ", .literal "x = ", .bound (.scalar (.str "$9")), .literal "", .literal "",
      .literal ", ", .literal "x = ", .bound (.scalar (.str "$9")), .literal ""] := by
    refine .intro (f := f) (fun h => if h.joined then
        [.literal "", .bound (.scalar (.str "y")), .literal "", .literal "", .literal " | ",
          .literal "x = ", .bound (.scalar (.str "$9")), .literal ""]
      else [.literal "x = ", .bound (.scalar (.str "$9"))]) fun h hh => ?_
    rcases hinside h hh with rfl | rfl
    · exact hj
    · exact hg
  have hnested : A.WellNested f := by
    have hgnested : A.WellNested g := ⟨g, fun h hh => by cases hh⟩
    refine ⟨f, fun h hh => ?_⟩
    rcases hinside h hh with rfl | rfl
    · refine ⟨j, fun h hh => ?_⟩
      rw [List.mem_singleton.mp hh]
      exact hgnested
    · exact hgnested
  obtain ⟨ps, hps, n, hn⟩ := stream_projections hnested
  obtain ⟨⟨_, -, hb⟩, hs⟩ := hn (A.toReading.environment n) (fun _ => True) (fun _ => True)
    (A.toReading.environment_follows n _) A.toReading.closed_true trivial le_rfl () trivial
  obtain ⟨⟨_, -, ht⟩, -⟩ := hs .postgres _ Dialect.writes_postgres
  rw [← (hps _).mp hf] at hb ht
  exact ⟨hnested, n, hb, ht⟩

end TotalReading

end SqlFragments
