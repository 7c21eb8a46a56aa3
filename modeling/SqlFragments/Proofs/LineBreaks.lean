import SqlFragments.Proofs.Composition
import SqlFragments.Proofs.Placement

/-!
# Line breaks as layout

Line breaks are left out of a statement at the end. A tree from which they are left out before, from
every segment and every delimiter, binds the same values. It has the same statements, unless a line
break by itself stands between two results: then it keeps the delimiter away.

* `LineBreaksRemoved`: two trees, the second without line breaks.
* `Fragment.Breaks`: the slots whose delimiter is kept away. **`Fragment.delimits_stripped_iff`**:
  they are those that get a delimiter once line breaks are left out, and no others.
* `Fragment.writeBy`, `Reading.flattenBy`: text with delimiters where a given rule says so.
  `Reading.flatten_eq_flattenBy`: the rule of statements is `Fragment.Delimits`.
* `Compares`: comparisons of texts that can be made part by part and see no line breaks. `SameText`,
  `SubText`: the same text, and text with something in addition.
* **`LineBreaksRemoved.write`**: text from any ordinal on, compared wherever delimiters are.
  **`LineBreaksRemoved.flatten_stripped`**, **`LineBreaksRemoved.flatten_subText`**,
  **`LineBreaksRemoved.flatten_eq`**: the statements.
* **`LineBreaksRemoved.collect_eq`**: the values.
* **`line_breaks_between_results`**, **`line_breaks_are_layout`**.
-/

namespace SqlFragments

variable {σ τ α β : Type}

/-! ## Trees without line breaks -/

/-- Related fragments, by a reading of each, are the same but for line breaks: in the second there
are none in the segments and in the delimiter, and what the slots hold is related or the same. -/
structure LineBreaksRemoved (A B : Reading) (K : Fragment → Fragment → Prop) : Prop where
  segments : ∀ f g, K f g → g.segments = f.segments.map dropNewlines
  delimiter : ∀ f g, K f g → g.delimiter = dropNewlines f.delimiter
  joined : ∀ f g, K f g → g.joined = f.joined
  name : ∀ f g, K f g → g.name = f.name
  slots : ∀ f g, K f g → List.Forall₂ (fun v w =>
    Corresponds (Content.Alike K Eq) (A.settle f v) (B.settle g w)) f.slots g.slots

/-! ## Where line breaks matter -/

namespace Fragment

variable (f : Fragment) (kinds : List SlotKind)

/-- The segments behind slot `j` and before `i` hold line breaks at most. -/
def Blank (j i : Nat) : Prop := ∀ m < i, j < m → dropNewlines (f.segments.getD m "") = ""

instance (j i : Nat) : Decidable (f.Blank j i) := inferInstanceAs (Decidable (∀ m < i, _))

/-- A line break, and no other text, keeps the delimiter away from slot `i`. -/
def Breaks (i : Nat) : Prop :=
  kindAt kinds i ≠ .skip ∧ ∃ j < i, Precedes kinds j i ∧ f.Blank j (i + 1) ∧
    ¬ f.NoText j (i + 1) ∧ (f.joined ∨ kindAt kinds j = .fragment ∧ kindAt kinds i = .fragment)

instance (i : Nat) : Decidable (f.Breaks kinds i) := inferInstanceAs (Decidable (_ ∧ ∃ j < i, _))

variable {f kinds} {g : Fragment}

theorem getD_stripped (hs : g.segments = f.segments.map dropNewlines) (m : Nat) :
    g.segments.getD m "" = dropNewlines (f.segments.getD m "") := by
  rw [hs, List.getD_eq_getElem?_getD, List.getD_eq_getElem?_getD, List.getElem?_map]
  cases f.segments[m]? <;> rfl

/-- **Without line breaks** a slot gets a delimiter if it gets one anyway, or if a line break keeps
it away. -/
theorem delimits_stripped_iff (hs : g.segments = f.segments.map dropNewlines)
    (hj : g.joined = f.joined) (i : Nat) :
    g.Delimits kinds i ↔ f.Delimits kinds i ∨ f.Breaks kinds i := by
  have hblank : ∀ j i, g.NoText j i ↔ f.Blank j i := fun j i => by
    simp only [NoText, Blank, getD_stripped hs]
  have hempty : ∀ j i, f.NoText j i → f.Blank j i := fun j i h m hm hlt => by
    rw [h m hm hlt]
    rfl
  constructor
  · rintro ⟨hkind, j, hji, hprecedes, htext, hkinds⟩
    rw [hblank] at htext
    rw [hj] at hkinds
    by_cases hnone : f.NoText j (i + 1)
    · exact .inl ⟨hkind, j, hji, hprecedes, hnone, hkinds⟩
    · exact .inr ⟨hkind, j, hji, hprecedes, htext, hnone, hkinds⟩
  · rintro (⟨hkind, j, hji, hprecedes, htext, hkinds⟩ |
      ⟨hkind, j, hji, hprecedes, htext, -, hkinds⟩)
    · exact ⟨hkind, j, hji, hprecedes, (hblank j _).mpr (hempty j _ htext), hj ▸ hkinds⟩
    · exact ⟨hkind, j, hji, hprecedes, (hblank j _).mpr htext, hj ▸ hkinds⟩

end Fragment

/-- The kinds of the slots of a fragment. -/
def Reading.kinds (A : Reading) (f : Fragment) : Except Failure (List SlotKind) :=
  f.slots.mapM fun v => Content.kind <$> A.settle f v

/-- In a fragment no line break keeps a delimiter away, except for one that is made of line breaks
itself. -/
def Reading.Unbroken (A : Reading) (f : Fragment) : Prop :=
  ∀ kinds, A.kinds f = .ok kinds → ∀ i, f.Breaks kinds i → dropNewlines f.delimiter = ""

theorem Reading.unbroken_of_text (A : Reading) {f : Fragment}
    (h : ∀ s ∈ f.segments, dropNewlines s = "" → s = "") : A.Unbroken f := by
  rintro kinds - i ⟨-, j, -, -, hblank, htext, -⟩
  refine absurd (fun m hm hlt => ?_) htext
  by_cases hm' : m < f.segments.length
  · have hsegment : f.segments.getD m "" = f.segments[m] := by
      rw [List.getD_eq_getElem?_getD, List.getElem?_eq_getElem hm', Option.getD_some]
    have hnone := hblank m hm hlt
    rw [hsegment] at hnone ⊢
    exact h _ (List.getElem_mem hm') hnone
  · rw [List.getD_eq_getElem?_getD, List.getElem?_eq_none (Nat.le_of_not_lt hm'), Option.getD_none]

/-! ## Delimiters by a given rule -/

section Rule

variable (stands : Fragment → List SlotKind → Nat → Prop)
  [∀ f kinds i, Decidable (stands f kinds i)]

namespace Fragment

/-- The text of a fragment whose slots come to `shown`, with delimiters where `stands` says so. -/
def laidBy (f : Fragment) (shown : List Shown) : String :=
  String.join ((List.range (max f.segments.length shown.length)).map fun i =>
    f.segments.getD i "" ++ (if stands f (shown.map Shown.kind) i then f.delimiter else "") ++
      (shown.getD i .skipped).text)

/-- The text of a fragment after ordinal `k`, with delimiters where `stands` says so. -/
def writeBy (env : Environment σ) (d : Dialect) : (depth : Nat) → Fragment → Nat →
    Pass σ (String × Nat)
  | 0, _, _ => throw .tooDeep
  | n + 1, f, k =>
    (fun x => (f.laidBy stands x.1, x.2)) <$> showSlots env d f (writeBy env d n) f.slots k

theorem write_eq_writeBy (env : Environment σ) (d : Dialect) (n : Nat) :
    Fragment.write env d n = Fragment.writeBy Delimits env d n := by
  induction n with
  | zero => rfl
  | succ n ih =>
    funext f k
    rw [f.write_eq_laid, ih]
    rfl

end Fragment

/-- The statement by the reading alone, with delimiters where `stands` says so. -/
def Reading.flattenBy (A : Reading) (depth : Nat) (d : Dialect) (f : Fragment) :
    Except Failure String :=
  outcome ((fun x => dropNewlines x.1) <$> f.writeBy stands (A.environment depth) d depth 0) ()

theorem Reading.flatten_eq_flattenBy (A : Reading) (depth : Nat) (d : Dialect) (f : Fragment) :
    A.flatten depth d f = A.flattenBy Fragment.Delimits depth d f := by
  rw [A.flatten_eq_write, Reading.write, ← outcome_map, Fragment.write_eq_writeBy]
  rfl

end Rule

/-! ## Texts with and without line breaks -/

/-- A way to compare texts part by part, to which line breaks make no difference. -/
structure Compares (T : String → String → Prop) : Prop where
  same : ∀ s, T s s
  stripped : ∀ s, T s (dropNewlines s)
  append : ∀ s t s' t', T s t → T s' t' → T (s ++ s') (t ++ t')

/-- The texts differ in line breaks only. -/
def SameText (s t : String) : Prop := dropNewlines s = dropNewlines t

/-- But for line breaks, the first text is the second with something left out. -/
def SubText (s t : String) : Prop := (dropNewlines s).toList.Sublist (dropNewlines t).toList

theorem compares_sameText : Compares SameText where
  same _ := rfl
  stripped s := (dropNewlines_dropNewlines s).symm
  append s t s' t' h h' := by rw [SameText, dropNewlines_append, dropNewlines_append, h, h']

theorem compares_subText : Compares SubText where
  same _ := .refl _
  stripped s := by
    rw [SubText, dropNewlines_dropNewlines]
  append s t s' t' h h' := by
    rw [SubText, dropNewlines_append, dropNewlines_append, String.toList_append,
      String.toList_append]
    exact List.Sublist.append h h'

section Laid

variable {T : String → String → Prop} (hT : Compares T)

include hT

theorem Compares.join {γ : Type} {xs : List γ} {p q : γ → String} (h : ∀ x ∈ xs, T (p x) (q x)) :
    T (String.join (xs.map p)) (String.join (xs.map q)) := by
  induction xs with
  | nil => exact hT.same _
  | cons x xs ih =>
    rw [List.map_cons, List.map_cons, String.join_cons, String.join_cons]
    exact hT.append _ _ _ _ (h x List.mem_cons_self)
      (ih fun y hy => h y (List.mem_cons_of_mem x hy))

/-- The same kind, and texts that compare. -/
def Shown.Compared (T : String → String → Prop) (x y : Shown) : Prop :=
  x.kind = y.kind ∧ T x.text y.text

variable (stands : Fragment → List SlotKind → Nat → Prop)
  [∀ f kinds i, Decidable (stands f kinds i)]

/-- The delimiters that `stands` puts in front of the slots of a fragment compare to those of
another fragment. -/
def DelimitersCompared (T : String → String → Prop) (f g : Fragment) (kinds : List SlotKind) :
    Prop :=
  ∀ i, T (if stands f kinds i then f.delimiter else "")
    (if g.Delimits kinds i then g.delimiter else "")

variable {xs ys : List Shown} (hxs : List.Forall₂ (Shown.Compared T) xs ys)

include hxs

omit hT [∀ f kinds i, Decidable (stands f kinds i)] in
theorem kinds_compared : ys.map Shown.kind = xs.map Shown.kind := by
  induction hxs with
  | nil => rfl
  | cons h _ ih => rw [List.map_cons, List.map_cons, ih, h.1]

theorem getD_compared (i : Nat) :
    T (xs.getD i .skipped).text (ys.getD i .skipped).text := by
  induction hxs generalizing i with
  | nil => exact hT.same _
  | cons h _ ih =>
    cases i with
    | zero => exact h.2
    | succ i => exact ih i

/-- **Layouts compare** if the delimiters in them do. -/
theorem laid_compared {f g : Fragment} (hs : g.segments = f.segments.map dropNewlines)
    (hdelimiters : DelimitersCompared stands T f g (xs.map Shown.kind)) :
    T (f.laidBy stands xs) (g.laid ys) := by
  have hlength : max g.segments.length ys.length = max f.segments.length xs.length := by
    rw [hs, List.length_map, hxs.length_eq]
  rw [Fragment.laidBy, Fragment.laid, hlength]
  refine hT.join fun i _ => ?_
  rw [Fragment.placed, kinds_compared hxs, Fragment.getD_stripped hs]
  exact hT.append _ _ _ _ (hT.append _ _ _ _ (hT.stripped _) (hdelimiters i))
    (getD_compared hT hxs i)

end Laid

/-! ## Side by side -/

/-- What is written comes to texts that compare, and to the same ordinal. -/
def Written (T : String → String → Prop) (x y : String × Nat) : Prop := T x.1 y.1 ∧ x.2 = y.2

theorem Lockstep.and_left {R : σ → τ → Prop} {Q : α → β → Prop} {P : α → Prop} {p : Pass σ α}
    {q : Pass τ β} (h : Lockstep R Q p q) (hP : ∀ s a s', p s = .ok a s' → P a) :
    Lockstep R (fun a b => P a ∧ Q a b) p q := by
  intro s t hst
  have hpq := h s t hst
  cases hp : p s with
  | ok a s' =>
    rw [hp] at hpq
    obtain ⟨b, t', hq, hab, hst'⟩ := hpq.ok_left
    rw [hq]
    exact ⟨⟨hP s a s' hp, hab⟩, hst'⟩
  | error e s' =>
    rw [hp] at hpq
    obtain ⟨t', hq, hst'⟩ := hpq.error_left
    rw [hq]
    exact ⟨rfl, hst'⟩

section Contents

variable (env : Environment σ) (d : Dialect) (owner : Fragment)

def writeContent (nested : Fragment → Nat → Pass σ (String × Nat)) :
    Content → Nat → Pass σ (String × Nat)
  | .fragment g, k => nested g k
  | .runs rs, k => writeRuns d owner nested rs k
  | .scalar _, k => writePlaceholder d k
  | .skip, k => pure ("", k)

theorem showSlot_eq_settle (nested : Fragment → Nat → Pass σ (String × Nat)) (v : Value) (k : Nat) :
    showSlot env d owner nested v k = (do
      let c ← settle env owner v
      let (own, k) ← writeContent d owner nested c k
      pure (⟨c.kind, own⟩, k)) := by
  rw [showSlot, settle, bind_assoc]
  refine bind_congr fun r => ?_
  cases r <;>
    simp [settleResolved, writeResolved, writeContent, Content.kind, Resolved.kind]

end Contents

theorem Content.Alike.cases_of_eq {K : Fragment → Fragment → Prop} {c c' : Content}
    (h : Content.Alike K Eq c c') :
    (∃ g g', K g g' ∧ c = .fragment g ∧ c' = .fragment g') ∨
    (∃ rs rs', List.Forall₂ (Run.Alike K Eq) rs rs' ∧ c = .runs rs ∧ c' = .runs rs') ∨
    (∃ v, c = .scalar v ∧ c' = .scalar v) ∨ (c = .skip ∧ c' = .skip) := by
  have hbound : ∀ {c : Content} {b : Bound}, c.bound? = some b →
      (∃ v, c = .scalar v ∧ b = .scalar v) ∨ ∃ vs, c = .runs [.group vs] ∧ b = .group vs := by
    intro c b h
    unfold bound? at h
    split at h
    · exact .inl ⟨_, rfl, (Option.some.inj h).symm⟩
    · exact .inr ⟨_, rfl, (Option.some.inj h).symm⟩
    · cases h
  cases h with
  | fragment hK => exact .inl ⟨_, _, hK, rfl, rfl⟩
  | runs hrs => exact .inr (.inl ⟨_, _, hrs, rfl, rfl⟩)
  | single hb hb' hC =>
    subst hC
    rcases hbound hb with ⟨v, rfl, rfl⟩ | ⟨vs, rfl, rfl⟩
    · rcases hbound hb' with ⟨v', rfl, hv⟩ | ⟨vs', -, hv⟩
      · cases hv
        exact .inr (.inr (.inl ⟨v, rfl, rfl⟩))
      · cases hv
    · rcases hbound hb' with ⟨v', -, hv⟩ | ⟨vs', rfl, hv⟩
      · cases hv
      · cases hv
        exact .inr (.inl ⟨_, _, .cons (.group rfl) .nil, rfl, rfl⟩)
  | skip => exact .inr (.inr (.inr ⟨rfl, rfl⟩))

section Pairs

variable {A B : Reading} {K : Fragment → Fragment → Prop} {f g : Fragment} {d : Dialect}
  {nested nested' : Fragment → Nat → Pass Unit (String × Nat)}
  {gather gather' : Fragment → Pass Unit (List Bound)}

section Text

variable {T : String → String → Prop} (hT : Compares T)
  (hd : g.delimiter = dropNewlines f.delimiter)
  (hn : ∀ f g k, K f g → Lockstep Eq (Written T) (nested f k) (nested' g k))

include hT hd hn

theorem writeRuns_compared {rs rs' : List Run} (h : List.Forall₂ (Run.Alike K Eq) rs rs')
    (k : Nat) :
    Lockstep Eq (Written T) (writeRuns d f nested rs k) (writeRuns d g nested' rs' k) := by
  induction h generalizing k with
  | nil => exact .pure ⟨hT.same _, rfl⟩
  | cons hr _ ih =>
    cases hr with
    | group hC =>
      refine .bind (.refl _) ?_
      rintro ⟨token, k⟩ _ rfl
      refine .bind (ih k) ?_
      rintro ⟨tail, k⟩ ⟨tail', _⟩ ⟨htail, rfl⟩
      exact .pure ⟨hT.append _ _ _ _ (hT.same token) htail, rfl⟩
    | fragment hK adjacent =>
      refine .bind (hn _ _ k hK) ?_
      rintro ⟨own, k⟩ ⟨own', _⟩ ⟨hown, rfl⟩
      refine .bind (ih k) ?_
      rintro ⟨tail, k⟩ ⟨tail', _⟩ ⟨htail, rfl⟩
      have hdelimiter : T (if adjacent then f.delimiter else "")
          (if adjacent then g.delimiter else "") := by
        rw [hd]
        cases adjacent with
        | false => exact hT.same _
        | true => exact hT.stripped f.delimiter
      exact .pure ⟨hT.append _ _ _ _ (hT.append _ _ _ _ hdelimiter hown) htail, rfl⟩

theorem writeContent_compared {c c' : Content} (h : Content.Alike K Eq c c') (k : Nat) :
    Lockstep Eq (fun x y => Shown.Compared T ⟨c.kind, x.1⟩ ⟨c'.kind, y.1⟩ ∧ x.2 = y.2)
      (writeContent d f nested c k) (writeContent d g nested' c' k) := by
  rcases h.cases_of_eq with ⟨g, g', hK, rfl, rfl⟩ | ⟨rs, rs', hrs, rfl, rfl⟩ | ⟨v, rfl, rfl⟩ |
    ⟨rfl, rfl⟩
  · exact (hn g g' k hK).mono fun x y h => ⟨⟨rfl, h.1⟩, h.2⟩
  · exact (writeRuns_compared hT hd hn hrs k).mono fun x y h => ⟨⟨rfl, h.1⟩, h.2⟩
  · refine (Lockstep.refl _).mono ?_
    rintro x _ rfl
    exact ⟨⟨rfl, hT.same x.1⟩, rfl⟩
  · exact .pure ⟨⟨rfl, hT.same ""⟩, rfl⟩

theorem showSlots_compared (m : Nat) {vs ws : List Value}
    (h : List.Forall₂ (fun v w => Corresponds (Content.Alike K Eq) (A.settle f v) (B.settle g w))
      vs ws) (k : Nat) :
    Lockstep Eq (fun x y => List.Forall₂ (Shown.Compared T) x.1 y.1 ∧ x.2 = y.2)
      (showSlots (A.environment m) d f nested vs k)
      (showSlots (B.environment m) d g nested' ws k) := by
  induction h generalizing k with
  | nil => exact .pure ⟨.nil, rfl⟩
  | cons hv _ ih =>
    rw [showSlots, showSlots, showSlot_eq_settle, showSlot_eq_settle, A.settle_environment,
      B.settle_environment]
    refine .bind (Q := fun x y => Shown.Compared T x.1 y.1 ∧ x.2 = y.2) ?_ ?_
    · refine .bind hv.lockstep fun c c' hc => .bind (writeContent_compared hT hd hn hc k) ?_
      rintro ⟨own, k⟩ ⟨own', _⟩ ⟨hown, rfl⟩
      exact .pure ⟨hown, rfl⟩
    · rintro ⟨x, k⟩ ⟨y, _⟩ ⟨hxy, rfl⟩
      refine .bind (ih k) ?_
      rintro ⟨xs, k⟩ ⟨ys, _⟩ ⟨hxs, rfl⟩
      exact .pure ⟨.cons hxy hxs, rfl⟩

end Text

theorem kinds_showSlots (m : Nat) {vs : List Value} {k k' : Nat} {xs : List Shown} {s s' : Unit}
    (h : showSlots (A.environment m) d f nested vs k s = .ok (xs, k') s') :
    vs.mapM (fun v => Content.kind <$> A.settle f v) = .ok (xs.map Shown.kind) := by
  induction vs generalizing k k' xs s s' with
  | nil =>
    cases h
    rfl
  | cons v rest ih =>
    obtain ⟨⟨x, k₁⟩, s₁, hslot, h⟩ := Pass.bind_eq_ok h
    obtain ⟨⟨xs', k₂⟩, s₂, hrest, hok⟩ := Pass.bind_eq_ok h
    cases hok
    rw [showSlot_eq_settle, A.settle_environment] at hslot
    obtain ⟨c, s₃, hsettle, hslot⟩ := Pass.bind_eq_ok hslot
    obtain ⟨⟨own, k₃⟩, s₄, -, hok⟩ := Pass.bind_eq_ok hslot
    cases hok
    have hc : A.settle f v = .ok c := by
      cases hv : A.settle f v with
      | ok c' =>
        rw [hv] at hsettle
        cases hsettle
        rfl
      | error e =>
        rw [hv] at hsettle
        cases hsettle
    rw [List.mapM_cons, hc, ih hrest]
    rfl

end Pairs

namespace LineBreaksRemoved

variable {A B : Reading} {K : Fragment → Fragment → Prop} (h : LineBreaksRemoved A B K)

include h

/-- **The values do not depend on line breaks.** -/
theorem collect_eq {f g : Fragment} (hK : K f g) (n : Nat) : A.collect n f = B.collect n g := by
  have hsettles : SettlesAlike (A.environment n) (B.environment n) Eq K Eq := by
    refine ⟨fun f g hK => (h.slots f g hK).imp fun v w hvw => ?_⟩
    rw [A.settle_environment, B.settle_environment]
    exact hvw.lockstep
  have hcollect := (f.collect_lockstep hsettles n hK).mono fun bs bs' hbs => by
    rwa [List.forall₂_eq_eq_eq] at hbs
  exact (hcollect.corresponds (s := ()) rfl).eq

section Rule

variable {stands : Fragment → List SlotKind → Nat → Prop}
  [∀ f kinds i, Decidable (stands f kinds i)] {T : String → String → Prop} (hT : Compares T)
  (hdelimiters : ∀ f g, K f g → ∀ kinds, A.kinds f = .ok kinds →
    DelimitersCompared stands T f g kinds)

include hT hdelimiters

/-- **Text from any ordinal on** compares if delimiters do. -/
theorem write (d : Dialect) (m n : Nat) {f g : Fragment} (hK : K f g) (k : Nat) :
    Lockstep Eq (Written T) (f.writeBy stands (A.environment m) d n k)
      (g.write (B.environment m) d n k) := by
  induction n generalizing f g k with
  | zero => exact .throw _
  | succ n ih =>
    have hslots := showSlots_compared (d := d) hT (h.delimiter f g hK)
      (fun f g k (hK : K f g) => ih hK k) m (h.slots f g hK) k
    rw [Fragment.writeBy, g.write_eq_laid]
    refine (hslots.and_left fun s x s' => kinds_showSlots m).map ?_
    rintro ⟨xs, k⟩ ⟨ys, _⟩ ⟨hkinds, hxs, rfl⟩
    exact ⟨laid_compared hT stands hxs (h.segments f g hK) (hdelimiters f g hK _ hkinds), rfl⟩

/-- **Statements compare** if delimiters do. -/
theorem flatten {f g : Fragment} (hK : K f g) (n : Nat) (d : Dialect) :
    ∃ x y, A.flattenBy stands n d f = dropNewlines <$> x ∧ B.flatten n d g = dropNewlines <$> y ∧
      Corresponds T x y := by
  have hwrite := (h.write hT hdelimiters d n n hK 0).map (f := Prod.fst) (g := Prod.fst)
    fun x y hxy => hxy.1
  refine ⟨_, _, ?_, ?_, hwrite.corresponds (s := ()) rfl⟩
  · rw [Reading.flattenBy, outcome_map, outcome_map, Functor.map_map]
  · rw [B.flatten_eq_write, outcome_map, Functor.map_map]
    rfl

end Rule

/-- **The statement of the stripped tree** is that of the tree, with the delimiter also in front of
the slots that a line break kept it away from. -/
theorem flatten_stripped {f g : Fragment} (hK : K f g) (n : Nat) (d : Dialect) :
    B.flatten n d g =
      A.flattenBy (fun f kinds i => f.Delimits kinds i ∨ f.Breaks kinds i) n d f := by
  have hdelimiters : ∀ f g, K f g → ∀ kinds, A.kinds f = .ok kinds →
      DelimitersCompared (fun f kinds i => f.Delimits kinds i ∨ f.Breaks kinds i) SameText f g
        kinds := by
    intro f g hK kinds _ i
    have hiff : g.Delimits kinds i ↔ f.Delimits kinds i ∨ f.Breaks kinds i :=
      Fragment.delimits_stripped_iff (h.segments f g hK) (h.joined f g hK) i
    rw [if_congr hiff rfl rfl, h.delimiter f g hK]
    split_ifs
    · exact compares_sameText.stripped _
    · exact compares_sameText.same _
  obtain ⟨x, y, hx, hy, hxy⟩ := h.flatten compares_sameText hdelimiters hK n d
  rw [hx, hy]
  exact (Corresponds.map_eq hxy).symm

/-- **Nothing but delimiters** is added to a statement when line breaks are left out before. -/
theorem flatten_subText {f g : Fragment} (hK : K f g) (n : Nat) (d : Dialect) :
    Corresponds (fun t t' => t.toList.Sublist t'.toList) (A.flatten n d f) (B.flatten n d g) := by
  have hdelimiters : ∀ f g, K f g → ∀ kinds, A.kinds f = .ok kinds →
      DelimitersCompared Fragment.Delimits SubText f g kinds := by
    intro f g hK kinds _ i
    have hiff : g.Delimits kinds i ↔ f.Delimits kinds i ∨ f.Breaks kinds i :=
      Fragment.delimits_stripped_iff (h.segments f g hK) (h.joined f g hK) i
    split_ifs with hf hg hg
    · rw [h.delimiter f g hK]
      exact compares_subText.stripped _
    · exact absurd (hiff.mpr (.inl hf)) hg
    · exact List.nil_sublist _
    · exact compares_subText.same _
  obtain ⟨x, y, hx, hy, hxy⟩ := h.flatten compares_subText hdelimiters hK n d
  rw [A.flatten_eq_flattenBy, hx, hy]
  cases hxy with
  | ok hst => exact .ok hst
  | error e => exact .error e

/-- **The statement does not depend on line breaks** if none of them keeps a delimiter away. -/
theorem flatten_eq (hunbroken : ∀ f g, K f g → A.Unbroken f) {f g : Fragment} (hK : K f g) (n : Nat)
    (d : Dialect) : A.flatten n d f = B.flatten n d g := by
  have hdelimiters : ∀ f g, K f g → ∀ kinds, A.kinds f = .ok kinds →
      DelimitersCompared Fragment.Delimits SameText f g kinds := by
    intro f g hK kinds hkinds i
    have hiff : g.Delimits kinds i ↔ f.Delimits kinds i ∨ f.Breaks kinds i :=
      Fragment.delimits_stripped_iff (h.segments f g hK) (h.joined f g hK) i
    split_ifs with hf hg hg
    · rw [h.delimiter f g hK]
      exact compares_sameText.stripped _
    · exact absurd (hiff.mpr (.inl hf)) hg
    · have hbreak := (hiff.mp hg).resolve_left hf
      rw [h.delimiter f g hK, hunbroken f g hK kinds hkinds i hbreak]
      rfl
    · exact compares_sameText.same _
  obtain ⟨x, y, hx, hy, hxy⟩ := h.flatten compares_sameText hdelimiters hK n d
  rw [A.flatten_eq_flattenBy, hx, hy]
  exact Corresponds.map_eq hxy

end LineBreaksRemoved

/-! ## Reads -/

theorem Reading.flatten_of_shown {A : Reading} {f : Fragment} {d : Dialect} {n k : Nat}
    {shown : List Shown}
    (h : showSlots (A.environment (n + 1)) d f (Fragment.write (A.environment (n + 1)) d n)
        f.slots 0
      () = .ok (shown, k) ()) : A.flatten (n + 1) d f = .ok (dropNewlines (f.laid shown)) := by
  have hwrite : f.write (A.environment (n + 1)) d (n + 1) 0 () = .ok (f.laid shown, k) () := by
    rw [f.write_eq_laid]
    exact Pass.map_ok h _
  rw [A.flatten_eq_write, Reading.write, outcome, hwrite]
  rfl

section Reads

variable {U U' : Rendering} {K : Fragment → Fragment → Prop}
  (h : LineBreaksRemoved U.reading U'.reading K) (hdepth : U.depth = U'.depth)
  {f g : Fragment} (hK : K f g)

include h hdepth hK

theorem LineBreaksRemoved.values_eq : U.answer f .values = U'.answer g .values := by
  have hcollect : U.collect f = U'.collect g := by
    rw [Rendering.collect, Rendering.collect, ← hdepth]
    exact h.collect_eq hK U.depth
  rw [Rendering.answer, Rendering.answer, hcollect]

/-- **A read does not depend on line breaks** if none of them keeps a delimiter away. -/
theorem LineBreaksRemoved.answer_eq (hclasses : U.registry.classes = U'.registry.classes)
    (hunbroken : ∀ f g, K f g → U.reading.Unbroken f) (r : Read) :
    U.answer f r = U'.answer g r := by
  have hflatten : ∀ d, U.flatten d f = U'.flatten d g := by
    intro d
    rw [Rendering.flatten, Rendering.flatten, ← hdepth]
    exact h.flatten_eq hunbroken hK U.depth d
  have hcollect : U.collect f = U'.collect g := by
    rw [Rendering.collect, Rendering.collect, ← hdepth]
    exact h.collect_eq hK U.depth
  have hfor : U.dialectFor = U'.dialectFor := Rendering.dialectFor_congr hclasses
  cases r with
  | compile target =>
    rw [Rendering.answer_compile, Rendering.answer_compile, hfor, hcollect, h.name f g hK]
    simp only [hflatten]
  | values => exact h.values_eq hdepth hK
  | _ => simp only [Rendering.answer, hflatten]

end Reads

/-- **A line break by itself keeps the delimiter away.** Between two fragments there is one segment
with nothing in it but a line break: no delimiter stands there. It does once the line break is left
out of the segment. -/
theorem line_breaks_between_results :
    let a : Fragment := ⟨1, ["a"], false, [], "", none, false⟩
    let b : Fragment := ⟨2, ["b"], false, [], "", none, false⟩
    let f : Fragment := ⟨0, ["", "\n", ""], false, [.fragment a, .fragment b], "+", none, false⟩
    let g : Fragment := ⟨0, ["", "", ""], false, [.fragment a, .fragment b], "+", none, false⟩
    let A : Reading := ⟨fun _ => [], fun _ _ => .ok .null⟩
    let K : Fragment → Fragment → Prop := fun x y => (x = f ∧ y = g) ∨ (x = y ∧ (x = a ∨ x = b))
    LineBreaksRemoved A A K ∧ K f g ∧ A.flatten 2 .postgres f = .ok "ab" ∧
      A.flatten 2 .postgres g = .ok "a+b" ∧
      ¬ ∀ (A B : Reading) (K : Fragment → Fragment → Prop), LineBreaksRemoved A B K →
        ∀ f g, K f g → ∀ n d, A.flatten n d f = B.flatten n d g := by
  intro a b f g A K
  have hinner : Fragment.write (A.environment 2) .postgres 1 = _ :=
    funext fun f => funext fun k => f.write_eq_laid _ _ 0 k
  have hshown : ∀ x : Fragment, x.slots = [.fragment a, .fragment b] →
      showSlots (A.environment 2) .postgres x (Fragment.write (A.environment 2) .postgres 1) x.slots
        0 () = .ok ([⟨.fragment, "a"⟩, ⟨.fragment, "b"⟩], 0) () := by
    intro x hx
    rw [hx, hinner]
    rfl
  have hf : A.flatten 2 .postgres f = .ok "ab" := by
    rw [Reading.flatten_of_shown (hshown f rfl)]
    exact congrArg Except.ok (by decide)
  have hg : A.flatten 2 .postgres g = .ok "a+b" := by
    rw [Reading.flatten_of_shown (hshown g rfl)]
    exact congrArg Except.ok (by decide)
  have ha : K a a := .inr ⟨rfl, .inl rfl⟩
  have hb : K b b := .inr ⟨rfl, .inr rfl⟩
  have hremoved : LineBreaksRemoved A A K := by
    constructor
    case slots =>
      rintro x y (⟨rfl, rfl⟩ | ⟨rfl, rfl | rfl⟩)
      · exact .cons (.ok (.fragment ha)) (.cons (.ok (.fragment hb)) .nil)
      · exact .nil
      · exact .nil
    all_goals rintro x y (⟨rfl, rfl⟩ | ⟨rfl, rfl | rfl⟩) <;> decide
  refine ⟨hremoved, .inl ⟨rfl, rfl⟩, hf, hg, fun hall => ?_⟩
  have heq := hall A A K hremoved f g (.inl ⟨rfl, rfl⟩) 2 .postgres
  rw [hf, hg] at heq
  exact absurd (Except.ok.inj heq) (by decide)

/-- **Line breaks are layout**, except where one stands by itself between two results. A tree
without them has the same values. Its statement is that of the tree with delimiters in addition, in
front of the slots that a line break kept them away from, and with nothing else; if there are none
such, whatever is read of the two trees is the same. -/
theorem line_breaks_are_layout {U U' : Rendering} {K : Fragment → Fragment → Prop}
    (h : LineBreaksRemoved U.reading U'.reading K) (hdepth : U.depth = U'.depth)
    (hclasses : U.registry.classes = U'.registry.classes) {f g : Fragment} (hK : K f g) :
    let A := U.reading
    let B := U'.reading
    -- whatever the line breaks are
    (∀ n, A.collect n f = B.collect n g) ∧
    (∀ n d, Corresponds (fun t t' => t.toList.Sublist t'.toList) (A.flatten n d f)
      (B.flatten n d g)) ∧
    (∀ n d, A.flatten n d f = A.flattenBy Fragment.Delimits n d f ∧
      B.flatten n d g =
        A.flattenBy (fun f kinds i => f.Delimits kinds i ∨ f.Breaks kinds i) n d f) ∧
    (∀ f g, K f g → ∀ kinds i, g.Delimits kinds i ↔ f.Delimits kinds i ∨ f.Breaks kinds i) ∧
    -- where they keep no delimiter away
    ((∀ f g, K f g → A.Unbroken f) → ∀ n d, A.flatten n d f = B.flatten n d g) ∧
    ∀ r : Read, (r = .values ∨ ∀ f g, K f g → A.Unbroken f) →
      U.answer f r = U'.answer g r ∧
      ∀ {ω ω' : Type} {host : Host ω} {host' : Host ω'} {known known' pool pool' next next' s s'},
        host.depth = U.depth → host'.depth = U'.depth →
        host.environment.Follows A (Session.Sound U known pool next) known →
        host'.environment.Follows B (Session.Sound U' known' pool' next') known' →
        A.Closed known → B.Closed known' → f ∈ pool → g ∈ pool' →
        known (.fragment f) → known' (.fragment g) →
        s.Sound U known pool next → s'.Sound U' known' pool' next' →
          outcome (r.perform host f) s = outcome (r.perform host' g) s' := by
  intro A B
  refine ⟨h.collect_eq hK, h.flatten_subText hK,
    fun n d => ⟨A.flatten_eq_flattenBy n d f, h.flatten_stripped hK n d⟩, fun f g hK kinds i =>
    Fragment.delimits_stripped_iff (h.segments f g hK) (h.joined f g hK) i,
    fun hunbroken => h.flatten_eq hunbroken hK, fun r hr => ?_⟩
  have hanswer : U.answer f r = U'.answer g r := by
    rcases hr with rfl | hunbroken
    · exact h.values_eq hdepth hK
    · exact h.answer_eq hdepth hK hclasses hunbroken r
  refine ⟨hanswer, ?_⟩
  intro ω ω' host host' known known' pool pool' next next' s s' hd hd' hfollows hfollows' hc hc' hfp
    hgp hkf hkg hs hs'
  rw [(r.perform_gives hd hfollows hc hfp hkf).outcome_eq hs,
    (r.perform_gives hd' hfollows' hc' hgp hkg).outcome_eq hs', hanswer]

/-- A template over several lines, with a callable that answers a fragment with a line break in it.
-/
theorem line_breaks_are_layout_template :
    let a : Fragment := ⟨1, ["x,\ny"], false, [], "", none, false⟩
    let a' : Fragment := ⟨1, ["x,y"], false, [], "", none, false⟩
    let b : Fragment := ⟨2, ["t\n"], false, [], "\n", none, false⟩
    let b' : Fragment := ⟨2, ["t"], false, [], "", none, false⟩
    let c : Value := .callable ⟨0, "c"⟩
    let f : Fragment := ⟨0, ["SELECT ", "\n  FROM ", "", "\n  LIMIT ", ""], false,
      [.fragment a, c, c, .int 5], ",\n", none, false⟩
    let g : Fragment := ⟨0, ["SELECT ", "  FROM ", "", "  LIMIT ", ""], false,
      [.fragment a', c, c, .int 5], ",", none, false⟩
    let U : Rendering := ⟨⟨fun _ => [], fun _ _ => .ok (.fragment b)⟩, 2, .initial⟩
    let U' : Rendering := ⟨⟨fun _ => [], fun _ _ => .ok (.fragment b')⟩, 2, .initial⟩
    U.answer f .sql = U'.answer g .sql ∧
      U'.answer g .sql = .ok (.text "SELECT x,y  FROM t,t  LIMIT ?") ∧
      U.answer f .values = U'.answer g .values ∧
      U'.answer g .values = .ok (.values [.scalar (.int 5)]) := by
  intro a a' b b' c f g U U'
  let K : Fragment → Fragment → Prop := fun x y =>
    (x = f ∧ y = g) ∨ (x = a ∧ y = a') ∨ (x = b ∧ y = b')
  have hb : K b b' := .inr (.inr ⟨rfl, rfl⟩)
  have hremoved : LineBreaksRemoved U.reading U'.reading K := by
    constructor
    case slots =>
      rintro x y (⟨rfl, rfl⟩ | ⟨rfl, rfl⟩ | ⟨rfl, rfl⟩)
      · exact .cons (.ok (.fragment (.inr (.inl ⟨rfl, rfl⟩))))
          (.cons (.ok (.fragment hb)) (.cons (.ok (.fragment hb))
            (.cons (.ok (.single rfl rfl rfl)) .nil)))
      · exact .nil
      · exact .nil
    all_goals rintro x y (⟨rfl, rfl⟩ | ⟨rfl, rfl⟩ | ⟨rfl, rfl⟩) <;> decide
  have hunbroken : ∀ x y, K x y → U.reading.Unbroken x := by
    rintro x y (⟨rfl, rfl⟩ | ⟨rfl, rfl⟩ | ⟨rfl, rfl⟩) <;>
      exact U.reading.unbroken_of_text (by decide)
  obtain ⟨-, -, -, -, -, hread⟩ := line_breaks_are_layout hremoved rfl rfl (.inl ⟨rfl, rfl⟩)
  have htext : U'.answer g .sql = .ok (.text "SELECT x,y  FROM t,t  LIMIT ?") := by
    have hpieces : U'.reading.pieces 2 g = .ok [.literal "SELECT ", .literal "x,y",
        .literal "  FROM ", .literal "t", .literal "", .literal ",", .literal "t",
        .literal "  LIMIT ", .bound (.scalar (.int 5)), .literal ""] := rfl
    have hflatten : U'.flatten .mysql g = .ok "SELECT x,y  FROM t,t  LIMIT ?" := by
      rw [Rendering.flatten, Reading.flatten_eq_pieces _ _ Dialect.writes_mysql, hpieces]
      rfl
    exact congrArg (Answer.text <$> ·) hflatten
  exact ⟨(hread .sql (.inr hunbroken)).1, htext, (hread .values (.inl rfl)).1, rfl⟩

end SqlFragments
