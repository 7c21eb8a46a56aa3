import Mathlib.Tactic.SplitIfs
import SqlFragments.Proofs.Walk

/-!
# Where literals and delimiters stand

The text of a fragment is laid out by index: in front of each slot its segment, then the delimiter
if the slot gets one, then what the slot comes to. Which slots get a delimiter depends on the
segments and on the kinds of the slots alone.

* `Shown`, `showSlots`: what slots come to by themselves, each with its kind.
* `Fragment.lay`: text from what the slots come to, with the kind of the last result carried along.
* `Fragment.Delimits`, `Fragment.laid`: the slots that get a delimiter, and the same text by index.
* `Adjoins`, `laidElements`: the same for the elements of a sequence.
* **`Fragment.lay_eq_laid`**: carrying the kind along gives the text by index.
* **`Fragment.write_eq_laid`**, **`writeResolved_sequence`**: the text of a fragment, and of a
  sequence in a slot.
* **`literals_and_delimiters_placed`**.
-/

namespace SqlFragments

variable {σ : Type}

/-- What a slot, or an element of a sequence, comes to in the text. -/
structure Shown where
  kind : SlotKind
  text : String
  deriving DecidableEq, Repr

/-- What is skipped, or is not there. -/
def Shown.skipped : Shown := ⟨.skip, ""⟩

/-! ## What slots come to -/

section Show

variable (env : Environment σ) (d : Dialect) (owner : Fragment)
  (nested : Fragment → Nat → Pass σ (String × Nat))

/-- What a slot comes to by itself. -/
def showSlot (v : Value) (k : Nat) : Pass σ (Shown × Nat) := do
  let r ← resolve env owner v
  let (own, k) ← writeResolved env d owner nested r k
  pure (⟨r.kind, own⟩, k)

def showSlots : List Value → Nat → Pass σ (List Shown × Nat)
  | [], k => pure ([], k)
  | v :: rest, k => do
    let (x, k) ← showSlot env d owner nested v k
    let (xs, k) ← showSlots rest k
    pure (x :: xs, k)

/-- What an element of a sequence comes to by itself; `shared` if it stands behind a scalar, whose
placeholder a scalar shares. -/
def showElement (shared : Bool) : Resolved → Nat → Pass σ (String × Nat)
  | .fragment g, k => nested g k
  | .skip, k => pure ("", k)
  | .scalar _, k | .sequence _, k => if shared then pure ("", k) else writePlaceholder d k

/-- Whether there is a placeholder to share behind an element. -/
def sharesAfter (shared : Bool) : SlotKind → Bool
  | .fragment => false
  | .skip => shared
  | .scalar | .sequence => true

def showElements : (shared : Bool) → List Resolved → Nat → Pass σ (List Shown × Nat)
  | _, [], k => pure ([], k)
  | shared, r :: rest, k => do
    let (own, k) ← showElement d nested shared r k
    let (xs, k) ← showElements (sharesAfter shared r.kind) rest k
    pure (⟨r.kind, own⟩ :: xs, k)

end Show

/-! ## Laying out with the kind of the last result -/

/-- The kind of the last result, unless text follows it. -/
def kindAfterText (previous : Option SlotKind) (s : String) : Option SlotKind :=
  if s.isEmpty then previous else none

@[simp] theorem kindAfterText_empty (previous : Option SlotKind) :
    kindAfterText previous "" = previous := rfl

@[simp] theorem kindAfter_skip (previous : Option SlotKind) :
    kindAfter previous .skip = previous := rfl

namespace Fragment

variable (f : Fragment)

/-- The delimiter in front of a result, if it stands there. -/
def between (previous : Option SlotKind) (kind : SlotKind) : String :=
  if kind ≠ .skip ∧ f.separates previous kind then f.delimiter else ""

@[simp] theorem between_skip (previous : Option SlotKind) : f.between previous .skip = "" :=
  if_neg fun h => h.1 rfl

/-- Segments and what slots come to, from left to right; `previous` is the kind of the last result,
if there is no text since. -/
def lay : Option SlotKind → List String → List Shown → String
  | _, [], [] => ""
  | previous, s :: ss, [] => s ++ lay (kindAfterText previous s) ss []
  | previous, [], x :: xs =>
    f.between previous x.kind ++ x.text ++ lay (kindAfter previous x.kind) [] xs
  | previous, s :: ss, x :: xs =>
    let previous := kindAfterText previous s
    s ++ f.between previous x.kind ++ x.text ++ lay (kindAfter previous x.kind) ss xs

end Fragment

section Write

variable (env : Environment σ) (d : Dialect) (owner : Fragment)
  (nested : Fragment → Nat → Pass σ (String × Nat))

theorem writeGaps_slot (s : String) (v : Value) (rest : List (String × Option Value))
    (previous : Option SlotKind) (k : Nat) :
    writeGaps env d owner nested ((s, some v) :: rest) previous k = (do
      let previous := kindAfterText previous s
      let (x, k) ← showSlot env d owner nested v k
      let (tail, k) ← writeGaps env d owner nested rest (kindAfter previous x.kind) k
      pure (s ++ owner.between previous x.kind ++ x.text ++ tail, k)) := by
  simp only [writeGaps, showSlot, bind_assoc, pure_bind]
  refine bind_congr fun r => ?_
  cases r <;>
    simp [Resolved.kind, kindAfter, kindAfterText, Fragment.between, writeResolved,
      String.append_assoc]

/-- **The text of a fragment is laid out** from what its slots come to. -/
theorem writeGaps_eq_lay (ss : List String) (vs : List Value) (previous : Option SlotKind)
    (k : Nat) :
    writeGaps env d owner nested (pairGaps ss vs) previous k =
      (fun x => (owner.lay previous ss x.1, x.2)) <$> showSlots env d owner nested vs k := by
  induction ss, vs using pairGaps.induct generalizing previous k with
  | case1 vs =>
    -- the slots behind the last segment
    induction vs generalizing previous k with
    | nil => simp [pairGaps, writeGaps, showSlots, Fragment.lay]
    | cons v vs ih =>
      rw [pairGaps_nil_cons, writeGaps_slot]
      simp [ih, showSlots, Fragment.lay]
  | case2 s ss ih => simp [pairGaps, writeGaps, ih, showSlots, Fragment.lay, kindAfterText]
  | case3 s ss v vs ih =>
    rw [pairGaps, writeGaps_slot]
    simp [ih, showSlots, Fragment.lay]

end Write

/-! ## Laying out by index -/

/-- The kind of slot `i`. A slot that is not there is as good as skipped. -/
def kindAt (kinds : List SlotKind) (i : Nat) : SlotKind := kinds.getD i .skip

/-- Slot `j` is the last one before `i` that is not skipped. -/
def Precedes (kinds : List SlotKind) (j i : Nat) : Prop :=
  j < i ∧ kindAt kinds j ≠ .skip ∧ ∀ m < i, j < m → kindAt kinds m = .skip

instance (kinds : List SlotKind) (j i : Nat) : Decidable (Precedes kinds j i) :=
  inferInstanceAs (Decidable (_ ∧ _ ∧ _))

theorem Precedes.unique {kinds : List SlotKind} {j j' i : Nat} (h : Precedes kinds j i)
    (h' : Precedes kinds j' i) : j = j' := by
  obtain ⟨hj, hkind, hskip⟩ := h
  obtain ⟨hj', hkind', hskip'⟩ := h'
  rcases Nat.lt_trichotomy j j' with hlt | rfl | hlt
  · exact absurd (hskip j' hj' hlt) hkind'
  · rfl
  · exact absurd (hskip' j hj hlt) hkind

theorem precedes_succ_self {kinds : List SlotKind} {i : Nat} (h : kindAt kinds i ≠ .skip) :
    Precedes kinds i (i + 1) :=
  ⟨Nat.lt_succ_self i, h, fun _ hm hlt => absurd hlt (by omega)⟩

theorem precedes_succ_iff {kinds : List SlotKind} {i : Nat} (h : kindAt kinds i = .skip) (j : Nat) :
    Precedes kinds j (i + 1) ↔ Precedes kinds j i := by
  constructor
  · rintro ⟨hj, hkind, hskip⟩
    have hne : j ≠ i := by
      rintro rfl
      exact hkind h
    exact ⟨by omega, hkind, fun m hm => hskip m (Nat.lt_succ_of_lt hm)⟩
  · rintro ⟨hj, hkind, hskip⟩
    refine ⟨Nat.lt_succ_of_lt hj, hkind, fun m hm hlt => ?_⟩
    rcases Nat.lt_succ_iff_lt_or_eq.mp hm with hm | rfl
    · exact hskip m hm hlt
    · exact h

namespace Fragment

variable (f : Fragment) (kinds : List SlotKind)

/-- The segments behind slot `j` and before `i` are empty, as far as there are any. -/
def NoText (j i : Nat) : Prop := ∀ m < i, j < m → f.segments.getD m "" = ""

instance (j i : Nat) : Decidable (f.NoText j i) := inferInstanceAs (Decidable (∀ m < i, _))

/-- The delimiter stands in front of slot `i`. -/
def Delimits (i : Nat) : Prop :=
  kindAt kinds i ≠ .skip ∧ ∃ j < i, Precedes kinds j i ∧ f.NoText j (i + 1) ∧
    (f.joined ∨ kindAt kinds j = .fragment ∧ kindAt kinds i = .fragment)

instance (i : Nat) : Decidable (f.Delimits kinds i) :=
  inferInstanceAs (Decidable (_ ∧ ∃ j < i, _))

/-- Segment, delimiter and result of slot `i`, as far as they are there. -/
def placed (shown : List Shown) (i : Nat) : String :=
  f.segments.getD i "" ++ (if f.Delimits (shown.map Shown.kind) i then f.delimiter else "") ++
    (shown.getD i .skipped).text

/-- The text of a fragment whose slots come to `shown`. -/
def laid (shown : List Shown) : String :=
  String.join ((List.range (max f.segments.length shown.length)).map (f.placed shown))

/-- The invariant: `previous` is the kind of the last result before slot `i`, if there is no text
since. -/
def Carries (i : Nat) (previous : Option SlotKind) : Prop :=
  ∀ p, previous = some p ↔ ∃ j, Precedes kinds j i ∧ f.NoText j i ∧ kindAt kinds j = p

theorem carries_zero : f.Carries kinds 0 none := by
  intro p
  constructor
  · intro h
    cases h
  · rintro ⟨j, ⟨hj, -⟩, -⟩
    exact absurd hj (Nat.not_lt_zero j)

variable {f kinds} {i : Nat} {previous : Option SlotKind}

theorem noText_succ_iff {j : Nat} (hj : j < i) :
    f.NoText j (i + 1) ↔ f.NoText j i ∧ f.segments.getD i "" = "" := by
  constructor
  · intro h
    exact ⟨fun m hm => h m (Nat.lt_succ_of_lt hm), h i (Nat.lt_succ_self i) hj⟩
  · rintro ⟨h, hi⟩ m hm hlt
    rcases Nat.lt_succ_iff_lt_or_eq.mp hm with hm | rfl
    · exact h m hm hlt
    · exact hi

theorem Carries.literal (h : f.Carries kinds i previous) (p : SlotKind) :
    kindAfterText previous (f.segments.getD i "") = some p ↔
      ∃ j, Precedes kinds j i ∧ f.NoText j (i + 1) ∧ kindAt kinds j = p := by
  unfold kindAfterText
  split_ifs with hempty <;> rw [String.isEmpty_iff] at hempty
  · rw [h p]
    refine exists_congr fun j => and_congr_right fun hj => ?_
    rw [noText_succ_iff hj.1, and_iff_left hempty]
  · refine iff_of_false not_false ?_
    rintro ⟨j, hj, htext, -⟩
    exact hempty ((noText_succ_iff hj.1).mp htext).2

/-- **What is carried from one slot to the next.** -/
theorem Carries.succ (h : f.Carries kinds i previous) :
    f.Carries kinds (i + 1)
      (kindAfter (kindAfterText previous (f.segments.getD i "")) (kindAt kinds i)) := by
  intro p
  unfold kindAfter
  split_ifs with hskip
  · rw [h.literal p]
    exact exists_congr fun j => by rw [precedes_succ_iff hskip]
  · have hself := precedes_succ_self hskip
    constructor
    · intro hp
      exact ⟨i, hself, fun m hm hlt => absurd hlt (by omega), Option.some.inj hp⟩
    · rintro ⟨j, hj, -, rfl⟩
      rw [hj.unique hself]

/-- **The delimiter stands where what is carried says so.** -/
theorem Carries.between_eq (h : f.Carries kinds i previous) :
    f.between (kindAfterText previous (f.segments.getD i "")) (kindAt kinds i) =
      if f.Delimits kinds i then f.delimiter else "" := by
  unfold between
  congr 1
  refine propext (and_congr_right fun _ => ?_)
  have hliteral := h.literal
  generalize (kindAfterText previous (f.segments.getD i "")) = carried at hliteral
  cases carried with
  | none =>
    simp only [separates, Bool.false_eq_true, false_iff]
    rintro ⟨j, -, hj, htext, -⟩
    exact absurd ((hliteral _).mpr ⟨j, hj, htext, rfl⟩) (Option.some_ne_none _).symm
  | some p =>
    obtain ⟨j, hj, htext, rfl⟩ := (hliteral p).mp rfl
    simp only [separates, Bool.or_eq_true, Bool.and_eq_true, beq_iff_eq]
    constructor
    · exact fun hkinds => ⟨j, hj.1, hj, htext, hkinds⟩
    · rintro ⟨j', -, hj', -, hkinds⟩
      rwa [hj.unique hj']

/-! ### The whole text -/

variable (f) in
theorem lay_drop (ss : List String) (xs : List Shown) {i : Nat}
    (hi : i < max ss.length xs.length) (previous : Option SlotKind) :
    f.lay previous (ss.drop i) (xs.drop i) =
      ss.getD i "" ++ f.between (kindAfterText previous (ss.getD i "")) (xs.getD i .skipped).kind ++
        (xs.getD i .skipped).text ++
        f.lay (kindAfter (kindAfterText previous (ss.getD i "")) (xs.getD i .skipped).kind)
          (ss.drop (i + 1)) (xs.drop (i + 1)) := by
  rcases Nat.lt_or_ge i ss.length with hs | hs
  · rcases Nat.lt_or_ge i xs.length with hx | hx
    · rw [List.drop_eq_getElem_cons hs, List.drop_eq_getElem_cons hx, lay]
      simp [hs, hx]
    · rw [List.drop_eq_getElem_cons hs, List.drop_of_length_le hx,
        List.drop_of_length_le (Nat.le_succ_of_le hx), lay]
      simp [hs, hx, Shown.skipped]
  · have hx : i < xs.length := by omega
    rw [List.drop_of_length_le hs, List.drop_of_length_le (Nat.le_succ_of_le hs),
      List.drop_eq_getElem_cons hx, lay]
    simp [hs, hx]

theorem kindAt_map (shown : List Shown) (i : Nat) :
    kindAt (shown.map Shown.kind) i = (shown.getD i .skipped).kind := by
  rw [kindAt, List.getD_eq_getElem?_getD, List.getD_eq_getElem?_getD, List.getElem?_map]
  cases shown[i]? <;> rfl

theorem lay_eq_placed (shown : List Shown) (n : Nat) {i : Nat} {previous : Option SlotKind}
    (hn : i + n = max f.segments.length shown.length)
    (h : f.Carries (shown.map Shown.kind) i previous) :
    f.lay previous (f.segments.drop i) (shown.drop i) =
      String.join ((List.range' i n).map (f.placed shown)) := by
  induction n generalizing i previous with
  | zero =>
    have hs : f.segments.length ≤ i := by omega
    have hx : shown.length ≤ i := by omega
    rw [List.drop_of_length_le hs, List.drop_of_length_le hx, lay]
    rfl
  | succ n ih =>
    have hi : i < max f.segments.length shown.length := by omega
    rw [f.lay_drop _ _ hi, List.range'_succ, List.map_cons, String.join_cons, placed,
      ← h.between_eq, kindAt_map, ← ih (by omega) (kindAt_map shown i ▸ h.succ)]

/-- **Carrying the kind along gives the text by index.** -/
theorem lay_eq_laid (shown : List Shown) : f.lay none f.segments shown = f.laid shown := by
  have hall := lay_eq_placed shown _ (Nat.zero_add _) (f.carries_zero (shown.map Shown.kind))
  rwa [List.drop_zero, List.drop_zero, ← List.range_eq_range'] at hall

end Fragment

/-! ## The elements of a sequence -/

/-- The elements of a sequence, resolved from left to right. -/
def sequenceElements (env : Environment σ) (owner : Fragment) : Sequence → Pass σ (List Resolved)
  | .list r => resolveList env owner r
  | .tuple items | .segments items => resolveItems env owner items

/-- The runs of resolved elements. -/
def elementRuns (rs : List Resolved) : List Run := if rs.isEmpty then [.group []] else group rs

section Runs

variable (env : Environment σ) (owner : Fragment)

theorem itemRuns_eq (items : List Value) :
    itemRuns env owner items = elementRuns <$> resolveItems env owner items := by
  cases items with
  | nil => simp [itemRuns, resolveItems, elementRuns]
  | cons v rest => simp [itemRuns, resolveItems, elementRuns]

theorem listRuns_eq (r : ListRef) :
    listRuns env owner r = elementRuns <$> sequenceElements env owner (.list r) := by
  funext s
  rw [listRuns, sequenceElements, Pass.get_bind]
  by_cases hempty : env.elements s r = []
  · have hnone : resolveList env owner r s = .ok [] s :=
      resolveRounds_of_none env owner (Nat.le_of_eq (congrArg List.length hempty)) _
    rw [Pass.map_ok hnone, if_pos (List.isEmpty_iff.mpr hempty)]
    rfl
  · rw [if_neg (mt List.isEmpty_iff.mp hempty)]
    cases hrs : resolveList env owner r s with
    | error e s' => rw [Pass.bind_error hrs, Pass.map_error hrs]
    | ok rs s' =>
      have hne : ¬ rs.isEmpty = true :=
        mt List.isEmpty_iff.mp (resolveList_ne_nil env owner hempty hrs)
      rw [Pass.bind_ok hrs, Pass.map_ok hrs, elementRuns, if_neg hne]
      rfl

/-- **The runs of a sequence** are those of its elements. -/
theorem sequenceRuns_eq (s : Sequence) :
    sequenceRuns env owner s = elementRuns <$> sequenceElements env owner s := by
  cases s with
  | list r => exact listRuns_eq env owner r
  | tuple items => exact itemRuns_eq env owner items
  | segments items => exact itemRuns_eq env owner items

end Runs

/-- The same delimiter, with no text and nothing joined. -/
def Fragment.plain (owner : Fragment) : Fragment := { owner with segments := [], joined := false }

namespace Fragment

variable (owner : Fragment)

theorem plain_between_fragment (previous : Option SlotKind) :
    owner.plain.between previous .fragment =
      if previous == some .fragment then owner.delimiter else "" := by
  cases previous with
  | none => rfl
  | some p => cases p <;> rfl

theorem plain_between_of_ne {kind : SlotKind} (h : kind ≠ .fragment)
    (previous : Option SlotKind) : owner.plain.between previous kind = "" := by
  cases previous with
  | none => simp [between, separates]
  | some p => simp [between, separates, plain, h]

end Fragment

section Elements

variable (d : Dialect) (owner : Fragment) (nested : Fragment → Nat → Pass σ (String × Nat))

theorem writeRuns_consScalar (v w : Value) (runs : List Run) (k : Nat) :
    writeRuns d owner nested (consScalar v (consScalar w runs)) k =
      writeRuns d owner nested (consScalar w runs) k := by
  cases runs with
  | nil => rfl
  | cons r runs => cases r <;> rfl

/-- The runs of elements are laid out by the elements. -/
structure ElementsLaid (rs : List Resolved) : Prop where
  /-- Behind an element of kind `previous` whose group, if there is one, is closed. -/
  runs : ∀ previous k,
    writeRuns d owner nested (groupAfter (previous == some .fragment) rs) k =
      (fun x => (owner.plain.lay previous [] x.1, x.2)) <$> showElements d nested false rs k
  /-- Behind a scalar whose group is open. -/
  group : ∀ v previous k, previous ≠ some .fragment →
    writeRuns d owner nested (consScalar v (groupAfter false rs)) k = (do
      let (token, k) ← writePlaceholder d k
      let (xs, k) ← showElements d nested true rs k
      pure (token ++ owner.plain.lay previous [] xs, k))

namespace ElementsLaid

variable {d owner nested} {rest : List Resolved}

theorem nil : ElementsLaid d owner nested [] where
  runs := by simp [groupAfter, writeRuns, showElements, Fragment.lay]
  group := by simp [groupAfter, consScalar, writeRuns, showElements, Fragment.lay]

variable (h : ElementsLaid d owner nested rest)

include h

theorem skip : ElementsLaid d owner nested (.skip :: rest) where
  runs previous k := by
    rw [groupAfter, h.runs]
    simp [showElements, showElement, sharesAfter, Resolved.kind, Fragment.lay]
  group v previous k hprevious := by
    rw [groupAfter, h.group v previous k hprevious]
    simp [showElements, showElement, sharesAfter, Resolved.kind, Fragment.lay]

theorem fragment (g : Fragment) : ElementsLaid d owner nested (.fragment g :: rest) := by
  have hrest : ∀ k, writeRuns d owner nested (groupAfter true rest) k =
      (fun x => (owner.plain.lay (some .fragment) [] x.1, x.2)) <$>
        showElements d nested false rest k := h.runs (some .fragment)
  have hafter : ∀ p, kindAfter p .fragment = some .fragment := fun _ => rfl
  constructor
  · intro previous k
    simp [groupAfter, writeRuns, hrest, showElements, showElement, sharesAfter, Resolved.kind,
      Fragment.lay, hafter, owner.plain_between_fragment]
  · intro v previous k hprevious
    simp [groupAfter, consScalar, writeRuns, hrest, showElements, showElement, sharesAfter,
      Resolved.kind, Fragment.lay, hafter, owner.plain_between_fragment, hprevious]

theorem scalar {r : Resolved} {w : Value} (hskip : r.kind ≠ .skip) (hfragment : r.kind ≠ .fragment)
    (hgroup : ∀ b, groupAfter b (r :: rest) = consScalar w (groupAfter false rest)) :
    ElementsLaid d owner nested (r :: rest) := by
  have hkind : some r.kind ≠ some SlotKind.fragment := fun h => hfragment (Option.some.inj h)
  have hafter : ∀ previous, kindAfter previous r.kind = some r.kind := fun _ => if_neg hskip
  have hbetween := owner.plain_between_of_ne hfragment
  have hshares : ∀ shared, sharesAfter shared r.kind = true := by
    cases r <;> first | exact fun _ => rfl | contradiction
  have hshow : ∀ shared k, showElement d nested shared r k =
      if shared then pure ("", k) else writePlaceholder d k := by
    cases r <;> first | exact fun _ _ => rfl | contradiction
  constructor
  · intro previous k
    rw [hgroup, h.group w _ k hkind]
    simp [showElements, hshow, hshares, Fragment.lay, hafter, hbetween]
  · intro v previous k _
    rw [hgroup, writeRuns_consScalar, h.group w _ k hkind]
    simp [showElements, hshow, hshares, Fragment.lay, hafter, hbetween]

end ElementsLaid

/-- **The text of runs** is laid out by the elements. -/
theorem elementsLaid (rs : List Resolved) : ElementsLaid d owner nested rs := by
  induction rs with
  | nil => exact .nil
  | cons r rest ih =>
    cases r with
    | skip => exact ih.skip
    | fragment g => exact ih.fragment g
    | scalar w => exact ih.scalar nofun nofun fun _ => rfl
    | sequence s => exact ih.scalar nofun nofun fun _ => rfl

end Elements

/-! ### Elements by index -/

/-- The delimiter stands in front of element `i`: it is a fragment, and so is the last element
before it that is not skipped. -/
def Adjoins (kinds : List SlotKind) (i : Nat) : Prop :=
  kindAt kinds i = .fragment ∧ ∃ j < i, Precedes kinds j i ∧ kindAt kinds j = .fragment

instance (kinds : List SlotKind) (i : Nat) : Decidable (Adjoins kinds i) :=
  inferInstanceAs (Decidable (_ ∧ ∃ j < i, _))

/-- The text of a sequence whose elements come to `shown`. -/
def laidElements (delimiter : String) (shown : List Shown) : String :=
  String.join ((List.range shown.length).map fun i =>
    (if Adjoins (shown.map Shown.kind) i then delimiter else "") ++ (shown.getD i .skipped).text)

theorem Fragment.plain_delimits_iff (owner : Fragment) (kinds : List SlotKind) (i : Nat) :
    owner.plain.Delimits kinds i ↔ Adjoins kinds i := by
  have htext : ∀ j, owner.plain.NoText j (i + 1) := fun _ _ _ _ => rfl
  constructor
  · rintro ⟨-, j, hj, hprecedes, -, hjoined | ⟨hkind, hkind'⟩⟩
    · cases hjoined
    · exact ⟨hkind', j, hj, hprecedes, hkind⟩
  · rintro ⟨hkind', j, hj, hprecedes, hkind⟩
    refine ⟨?_, j, hj, hprecedes, htext j, .inr ⟨hkind, hkind'⟩⟩
    rw [hkind']
    decide

theorem Fragment.plain_lay (owner : Fragment) (shown : List Shown) :
    owner.plain.lay none [] shown = laidElements owner.delimiter shown := by
  have hplaced : owner.plain.placed shown = fun i =>
      (if Adjoins (shown.map Shown.kind) i then owner.delimiter else "") ++
        (shown.getD i .skipped).text := by
    funext i
    have hsegment : owner.plain.segments.getD i "" = "" := rfl
    rw [placed, hsegment, String.empty_append]
    simp only [owner.plain_delimits_iff]
    rfl
  have hlength : max owner.plain.segments.length shown.length = shown.length := Nat.zero_max _
  have hlaid := owner.plain.lay_eq_laid shown
  rwa [laid, hplaced, hlength] at hlaid

/-- **The text of a sequence** by its elements. -/
theorem writeResolved_sequence (env : Environment σ) (d : Dialect) (owner : Fragment)
    (nested : Fragment → Nat → Pass σ (String × Nat)) (s : Sequence) (k : Nat) :
    writeResolved env d owner nested (.sequence s) k = (do
      let rs ← sequenceElements env owner s
      if rs.isEmpty then writePlaceholder d k
      else (fun x => (laidElements owner.delimiter x.1, x.2)) <$>
        showElements d nested false rs k) := by
  rw [writeResolved, sequenceRuns_eq, bind_map_left]
  refine bind_congr fun rs => ?_
  unfold elementRuns
  split_ifs
  · simp [writeRuns]
  · simp only [← owner.plain_lay]
    exact (elementsLaid d owner nested rs).runs none k

/-- **The text of a fragment** by the segments and what its slots come to. -/
theorem Fragment.write_eq_laid (env : Environment σ) (d : Dialect) (f : Fragment) (n k : Nat) :
    f.write env d (n + 1) k =
      (fun x => (f.laid x.1, x.2)) <$> showSlots env d f (Fragment.write env d n) f.slots k := by
  simp only [← f.lay_eq_laid]
  exact writeGaps_eq_lay env d f _ f.segments f.slots none k

/-! ## What is shown -/

section Kinds

variable {env : Environment σ} {d : Dialect} {owner : Fragment}
  {nested : Fragment → Nat → Pass σ (String × Nat)} {k k' : Nat} {s s' : σ}

theorem kinds_showElements {rs : List Resolved} {shared : Bool} {xs : List Shown}
    (h : showElements d nested shared rs k s = .ok (xs, k') s') :
    xs.map Shown.kind = rs.map Resolved.kind := by
  induction rs generalizing shared k s k' s' xs with
  | nil =>
    cases h
    rfl
  | cons r rest ih =>
    obtain ⟨⟨own, k₁⟩, s₁, -, h⟩ := Pass.bind_eq_ok h
    obtain ⟨⟨xs', k₂⟩, s₂, hrest, hok⟩ := Pass.bind_eq_ok h
    cases hok
    rw [List.map_cons, List.map_cons, ih hrest]

theorem showSlots_ok {vs : List Value} {xs : List Shown}
    (h : showSlots env d owner nested vs k s = .ok (xs, k') s') :
    xs.length = vs.length ∧ ∀ x ∈ xs, x.kind = .skip → x.text = "" := by
  induction vs generalizing k s k' s' xs with
  | nil =>
    cases h
    exact ⟨rfl, fun x hx => by cases hx⟩
  | cons v rest ih =>
    obtain ⟨⟨x, k₁⟩, s₁, hslot, h⟩ := Pass.bind_eq_ok h
    obtain ⟨⟨xs', k₂⟩, s₂, hrest, hok⟩ := Pass.bind_eq_ok h
    cases hok
    obtain ⟨hlength, hskip⟩ := ih hrest
    refine ⟨congrArg Nat.succ hlength, fun y hy hkind => ?_⟩
    rcases List.mem_cons.mp hy with rfl | hy
    · obtain ⟨r, s₃, -, hslot⟩ := Pass.bind_eq_ok hslot
      obtain ⟨⟨own, k₃⟩, s₄, hown, hok⟩ := Pass.bind_eq_ok hslot
      cases hok
      cases r with
      | skip =>
        cases hown
        rfl
      | _ => cases hkind
    · exact hskip y hy hkind

end Kinds

/-- **Where literals and delimiters stand.** Whatever surrounds the pass and whether it succeeds, a
fragment is written by writing its slots one by one; text is then laid out by index. A slot gets a
delimiter if there is an earlier result with no text in between, and both are fragments or the
fragment is joined. A sequence is written by its elements, with a delimiter between fragments that
follow one another. -/
theorem literals_and_delimiters_placed (env : Environment σ) (d : Dialect) (f : Fragment)
    (n k : Nat) :
    let nested := Fragment.write env d n
    -- a fragment, by the segments and what its slots come to
    f.write env d (n + 1) k =
      (fun x => (f.laid x.1, x.2)) <$> showSlots env d f nested f.slots k ∧
    (∀ s s' shown k', showSlots env d f nested f.slots k s = .ok (shown, k') s' →
      shown.length = f.slots.length ∧ ∀ x ∈ shown, x.kind = .skip → x.text = "") ∧
    (∀ shown : List Shown, f.laid shown =
      String.join ((List.range (max f.segments.length shown.length)).map fun i =>
        f.segments.getD i "" ++
          (if f.Delimits (shown.map Shown.kind) i then f.delimiter else "") ++
          (shown.getD i .skipped).text)) ∧
    -- a sequence, by what its elements come to
    (∀ s k, writeResolved env d f nested (.sequence s) k = (do
      let rs ← sequenceElements env f s
      if rs.isEmpty then writePlaceholder d k
      else (fun x => (laidElements f.delimiter x.1, x.2)) <$> showElements d nested false rs k)) ∧
    (∀ rs s s' shown k k', showElements d nested false rs k s = .ok (shown, k') s' →
      shown.map Shown.kind = rs.map Resolved.kind) ∧
    ∀ shown : List Shown, laidElements f.delimiter shown =
      String.join ((List.range shown.length).map fun i =>
        (if Adjoins (shown.map Shown.kind) i then f.delimiter else "") ++
          (shown.getD i .skipped).text) := by
  intro nested
  exact ⟨f.write_eq_laid env d n k, fun s s' shown k' => showSlots_ok, fun shown => rfl,
    writeResolved_sequence env d f nested, fun rs s s' shown k k' => kinds_showElements,
    fun shown => rfl⟩

/-- Text, a skipped slot, slots behind the last segment, and a sequence with a group in it. -/
theorem literals_and_delimiters_placed_mixed :
    let g : Fragment := ⟨1, ["x"], false, [], "", none, false⟩
    let h : Fragment := ⟨2, ["y"], false, [], "", none, false⟩
    let f : Fragment := ⟨0, ["a ", "", "", "b "], false,
      [.fragment g, .skip, .fragment h, .fragment g, .fragment h,
        .tuple [.fragment g, .skip, .fragment h, .int 1, .int 2, .fragment g]], ", ", none, false⟩
    let env : Environment Unit := ⟨fun _ _ => [], fun _ _ => throw .tooDeep, 2⟩
    let shown : List Shown := [⟨.fragment, "x"⟩, .skipped, ⟨.fragment, "y"⟩, ⟨.fragment, "x"⟩,
      ⟨.fragment, "y"⟩, ⟨.sequence, "x, y$1x"⟩]
    showSlots env .postgres f (Fragment.write env .postgres 1) f.slots 0 () = .ok (shown, 1) () ∧
      shown.length = 6 ∧ f.write env .postgres 2 0 () = .ok ("a x, yb x, yx, y$1x", 1) () := by
  intro g h f env shown
  obtain ⟨hwrite, hshown, -⟩ := literals_and_delimiters_placed env .postgres f 1 0
  have hinner : Fragment.write env .postgres 1 = _ := funext fun f => funext fun k =>
    (literals_and_delimiters_placed env .postgres f 0 k).1
  have hslots : showSlots env .postgres f (Fragment.write env .postgres 1) f.slots 0 () =
      .ok (shown, 1) () := by
    rw [hinner]
    rfl
  refine ⟨hslots, (hshown _ _ _ _ hslots).1, ?_⟩
  rw [hwrite]
  exact Pass.map_ok hslots _

end SqlFragments
