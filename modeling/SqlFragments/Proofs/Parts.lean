import SqlFragments.Proofs.Reading

/-!
# The parts of a fragment

By a reading, a fragment has parts from left to right: pieces of its own, and the fragments right
inside it. A walk over a fragment goes through its parts and walks each of those fragments in turn.

* `Part`, `layParts`, `Reading.parts`: the parts of a fragment, whatever is done with them.
* `Spliced`: parts with pieces in the place of fragments.
* **`Reading.walk_succ`**: a walk goes through the parts.
* **`Reading.pieces_of_walk`**: a walk succeeds only if there are pieces to visit.
* **`Reading.pieces_succ_iff`**: the pieces of a fragment are its parts, with the pieces of the
  fragments inside spliced in.
* **`Reading.pieces_mono`**: deeper nesting than needed makes no difference.
* **`Reading.walk_of_pieces`**: a walk visits the pieces, also for a visitor that may fail.
-/

namespace SqlFragments

variable {σ β : Type}

/-- A piece of a fragment itself, or a fragment right inside it. -/
inductive Part where
  | piece (p : Piece)
  | nested (g : Fragment)

/-! ## Parts and walks -/

section Parts

variable (owner : Fragment)

def delimiterParts (stands : Bool) : List Part :=
  if stands then [.piece (.literal owner.delimiter)] else []

def runParts : List Run → List Part
  | [] => []
  | .group vs :: rest => .piece (.bound (.group vs)) :: runParts rest
  | .fragment g adjacent :: rest => delimiterParts owner adjacent ++ .nested g :: runParts rest

def contentParts : Content → List Part
  | .fragment g => [.nested g]
  | .runs rs => runParts owner rs
  | .scalar v => [.piece (.bound (.scalar v))]
  | .skip => []

/-- The parts of gaps whose slots are settled; `previous` is the kind of the last result, if there
is no text since. -/
def layParts : Option SlotKind → List (String × Option Content) → List Part
  | _, [] => []
  | previous, (literal, none) :: rest =>
    .piece (.literal literal) :: layParts (if literal.isEmpty then previous else none) rest
  | previous, (literal, some c) :: rest =>
    let previous := if literal.isEmpty then previous else none
    .piece (.literal literal) ::
      (delimiterParts owner (c.kind != .skip && owner.separates previous c.kind) ++
        (contentParts owner c ++ layParts (kindAfter previous c.kind) rest))

end Parts

section Visit

variable (visit : Piece → β → Pass σ β) (owner : Fragment) (nested : Fragment → β → Pass σ β)

def visitPart (b : β) : Part → Pass σ β
  | .piece p => visit p b
  | .nested g => nested g b

theorem walkDelimiter_eq_parts (stands : Bool) (b : β) :
    walkDelimiter visit owner stands b =
      (delimiterParts owner stands).foldlM (visitPart visit nested) b := by
  cases stands with
  | false => rfl
  | true => simp [walkDelimiter, delimiterParts, visitPart]

theorem walkRuns_eq_parts (rs : List Run) (b : β) :
    walkRuns visit owner nested rs b =
      (runParts owner rs).foldlM (visitPart visit nested) b := by
  induction rs generalizing b with
  | nil => rfl
  | cons r rest ih =>
    cases r with
    | group vs => simp [walkRuns, runParts, visitPart, ih]
    | fragment g adjacent =>
      simp [walkRuns, runParts, visitPart, ih, walkDelimiter_eq_parts visit owner nested]

theorem walkContent_eq_parts (c : Content) (b : β) :
    walkContent visit owner nested c b =
      (contentParts owner c).foldlM (visitPart visit nested) b := by
  cases c with
  | fragment g => simp [walkContent, contentParts, visitPart]
  | runs rs => exact walkRuns_eq_parts visit owner nested rs b
  | scalar v => simp [walkContent, contentParts, visitPart]
  | skip => rfl

end Visit

/-! ## The parts by a reading -/

namespace Reading

variable (A : Reading) (owner : Fragment)

/-- What the slots of gaps hold. -/
def settleGaps : List (String × Option Value) → Except Failure (List (String × Option Content))
  | [] => pure []
  | (literal, none) :: rest => do
    let cs ← settleGaps rest
    pure ((literal, none) :: cs)
  | (literal, some v) :: rest => do
    let c ← A.settle owner v
    let cs ← settleGaps rest
    pure ((literal, some c) :: cs)

/-- The parts of a fragment. -/
def parts (f : Fragment) : Except Failure (List Part) :=
  layParts f none <$> A.settleGaps f f.gaps

section Walk

variable {A owner} (depth : Nat) (visit : Piece → β → Pass Unit β)
  (nested : Fragment → β → Pass Unit β)

theorem walkGaps_eq_parts {gaps : List (String × Option Value)}
    {cs : List (String × Option Content)} (h : A.settleGaps owner gaps = .ok cs)
    (previous : Option SlotKind) (b : β) :
    walkGaps (A.environment depth) visit owner nested gaps previous b =
      (layParts owner previous cs).foldlM (visitPart visit nested) b := by
  induction gaps generalizing cs previous b with
  | nil =>
    cases h
    rfl
  | cons gap rest ih =>
    obtain ⟨literal, _ | v⟩ := gap
    · obtain ⟨cs, hcs, hok⟩ := bind_eq_ok_iff.mp h
      cases hok
      simp [walkGaps, layParts, visitPart, ih hcs]
    · obtain ⟨c, hc, h⟩ := bind_eq_ok_iff.mp h
      obtain ⟨cs, hcs, hok⟩ := bind_eq_ok_iff.mp h
      cases hok
      have hsettle : SqlFragments.settle (A.environment depth) owner v = pure c := by
        rw [settle_environment, hc]
        rfl
      simp [walkGaps, layParts, visitPart, hsettle, ih hcs, walkContent_eq_parts,
        walkDelimiter_eq_parts visit owner nested]

theorem settleGaps_of_walkGaps {gaps : List (String × Option Value)} {previous : Option SlotKind}
    {b b' : β} {s s' : Unit}
    (h : walkGaps (A.environment depth) visit owner nested gaps previous b s = .ok b' s') :
    ∃ cs, A.settleGaps owner gaps = .ok cs := by
  induction gaps generalizing previous b s with
  | nil => exact ⟨[], rfl⟩
  | cons gap rest ih =>
    obtain ⟨literal, _ | v⟩ := gap
    · obtain ⟨b₁, s₁, -, hrest⟩ := Pass.bind_eq_ok h
      obtain ⟨cs, hcs⟩ := ih hrest
      exact ⟨(literal, none) :: cs, by rw [settleGaps, hcs]; rfl⟩
    · obtain ⟨b₁, s₁, -, h⟩ := Pass.bind_eq_ok h
      obtain ⟨c, s₂, hsettle, h⟩ := Pass.bind_eq_ok h
      obtain ⟨b₂, s₃, -, h⟩ := Pass.bind_eq_ok h
      obtain ⟨b₃, s₄, -, hrest⟩ := Pass.bind_eq_ok h
      obtain ⟨cs, hcs⟩ := ih hrest
      have hc : A.settle owner v = .ok c := by
        rw [settle_environment] at hsettle
        cases hv : A.settle owner v with
        | ok c' =>
          rw [hv] at hsettle
          cases hsettle
          rfl
        | error e =>
          rw [hv] at hsettle
          cases hsettle
      exact ⟨(literal, some c) :: cs, by rw [settleGaps, hc, hcs]; rfl⟩

end Walk

/-- **A walk goes through the parts** of a fragment. -/
theorem walk_succ {f : Fragment} {parts : List Part} (h : A.parts f = .ok parts) (depth n : Nat)
    (visit : Piece → β → Pass Unit β) (b : β) :
    f.walk (A.environment depth) visit (n + 1) b =
      parts.foldlM (visitPart visit (Fragment.walk (A.environment depth) visit n)) b := by
  obtain ⟨cs, hcs, hok⟩ := map_eq_ok_iff.mp h
  rw [← hok]
  exact walkGaps_eq_parts depth visit _ hcs none b

theorem walk_environment (depth depth' : Nat) (visit : Piece → β → Pass Unit β) (n : Nat)
    (f : Fragment) (b : β) :
    f.walk (A.environment depth) visit n b = f.walk (A.environment depth') visit n b := by
  have hgaps : ∀ (owner : Fragment) (nested : Fragment → β → Pass Unit β) gaps previous b,
      walkGaps (A.environment depth) visit owner nested gaps previous b =
        walkGaps (A.environment depth') visit owner nested gaps previous b := by
    intro owner nested gaps
    induction gaps with
    | nil => exact fun _ _ => rfl
    | cons gap rest ih =>
      obtain ⟨literal, _ | v⟩ := gap
      · intro previous b
        simp only [walkGaps, ih]
      · intro previous b
        simp only [walkGaps, settle_environment, ih]
  induction n generalizing f b with
  | zero => rfl
  | succ n ih =>
    have hnested : Fragment.walk (A.environment depth) visit n =
        Fragment.walk (A.environment depth') visit n := funext fun g => funext fun b => ih g b
    rw [Fragment.walk, Fragment.walk, hnested]
    exact hgaps f _ f.gaps none b

end Reading

/-! ## Splicing -/

/-- Parts with pieces in the place of fragments. -/
inductive Spliced (P : Fragment → List Piece → Prop) : List Part → List Piece → Prop
  | nil : Spliced P [] []
  | piece (p : Piece) {parts : List Part} {ps : List Piece} (hrest : Spliced P parts ps) :
    Spliced P (.piece p :: parts) (p :: ps)
  | nested {g : Fragment} {qs : List Piece} {parts : List Part} {ps : List Piece} (hg : P g qs)
    (hrest : Spliced P parts ps) : Spliced P (.nested g :: parts) (qs ++ ps)

namespace Spliced

variable {P Q : Fragment → List Piece → Prop} {parts parts' : List Part} {ps ps' : List Piece}

theorem mono (h : Spliced P parts ps) (hPQ : ∀ g qs, P g qs → Q g qs) : Spliced Q parts ps := by
  induction h with
  | nil => exact .nil
  | piece p _ ih => exact .piece p ih
  | nested hg _ ih => exact .nested (hPQ _ _ hg) ih

theorem append (h : Spliced P parts ps) (h' : Spliced P parts' ps') :
    Spliced P (parts ++ parts') (ps ++ ps') := by
  induction h with
  | nil => exact h'
  | piece p _ ih => exact .piece p ih
  | nested hg _ ih =>
    rw [List.append_assoc]
    exact .nested hg ih

theorem of_append (h : Spliced P (parts ++ parts') ps) :
    ∃ qs qs', Spliced P parts qs ∧ Spliced P parts' qs' ∧ ps = qs ++ qs' := by
  induction parts generalizing ps with
  | nil => exact ⟨[], ps, .nil, h, rfl⟩
  | cons part parts ih =>
    cases h with
    | piece p hrest =>
      obtain ⟨qs, qs', hqs, hqs', rfl⟩ := ih hrest
      exact ⟨p :: qs, qs', .piece p hqs, hqs', rfl⟩
    | @nested g rs _ _ hg hrest =>
      obtain ⟨qs, qs', hqs, hqs', rfl⟩ := ih hrest
      exact ⟨rs ++ qs, qs', .nested hg hqs, hqs', (List.append_assoc _ _ _).symm⟩

theorem unique (hPQ : ∀ g qs qs', P g qs → Q g qs' → qs = qs') (h : Spliced P parts ps)
    (h' : Spliced Q parts ps') : ps = ps' := by
  induction h generalizing ps' with
  | nil =>
    cases h'
    rfl
  | piece p _ ih =>
    cases h' with
    | piece _ hrest => rw [ih hrest]
  | nested hg _ ih =>
    cases h' with
    | nested hg' hrest => rw [hPQ _ _ _ hg hg', ih hrest]

theorem foldlM_eq {visit : Piece → β → Pass σ β} {nested : Fragment → β → Pass σ β}
    (hP : ∀ g qs, P g qs → ∀ b, nested g b = qs.foldlM (fun b p => visit p b) b)
    (h : Spliced P parts ps) (b : β) :
    parts.foldlM (visitPart visit nested) b = ps.foldlM (fun b p => visit p b) b := by
  induction h generalizing b with
  | nil => rfl
  | piece p _ ih => simp [visitPart, ih]
  | nested hg _ ih => simp [visitPart, ih, hP _ _ hg]

/-- If parts can be gone through, there are pieces to splice in, as far as the fragments among them
have pieces. -/
theorem of_foldlM {visit : Piece → β → Pass σ β} {nested : Fragment → β → Pass σ β}
    (hP : ∀ g b s b' s', nested g b s = .ok b' s' → ∃ qs, P g qs) {b b' : β} {s s' : σ}
    (h : parts.foldlM (visitPart visit nested) b s = .ok b' s') : ∃ ps, Spliced P parts ps := by
  induction parts generalizing b s with
  | nil => exact ⟨[], .nil⟩
  | cons part parts ih =>
    rw [List.foldlM_cons] at h
    obtain ⟨b₁, s₁, hpart, hrest⟩ := Pass.bind_eq_ok h
    obtain ⟨ps, hps⟩ := ih hrest
    cases part with
    | piece p => exact ⟨p :: ps, .piece p hps⟩
    | nested g =>
      obtain ⟨qs, hqs⟩ := hP g b s b₁ s₁ hpart
      exact ⟨qs ++ ps, .nested hqs hps⟩

end Spliced

theorem notePiece_eq (p : Piece) (qs : List Piece) :
    notePiece (σ := σ) p qs = pure (qs ++ [p]) := rfl

theorem foldlM_notePiece (ps qs : List Piece) :
    ps.foldlM (fun b p => notePiece (σ := σ) p b) qs = pure (qs ++ ps) := by
  induction ps generalizing qs with
  | nil => simp
  | cons p ps ih =>
    rw [List.foldlM_cons, notePiece_eq, pure_bind, ih, ← List.append_cons]

/-! ## Pieces -/

namespace Reading

variable {A : Reading} {f : Fragment} {n m : Nat} {ps qs : List Piece}

theorem pieces_eq_ok_iff (depth : Nat) : A.pieces n f = .ok ps ↔
    f.walk (A.environment depth) notePiece n [] = pure ps := by
  rw [A.walk_environment depth n, pieces, outcome_eq_ok_iff]
  constructor
  · rintro ⟨s', h⟩
    exact funext fun _ => h
  · intro h
    exact ⟨(), congrFun h ()⟩

theorem walk_notePiece (depth : Nat) (h : A.pieces n f = .ok ps) (qs : List Piece) :
    f.walk (A.environment depth) notePiece n qs = pure (qs ++ ps) := by
  have hpieces : f.pieces (A.environment depth) n = pure ps := (pieces_eq_ok_iff depth).mp h
  rw [f.walk_eq_pieces _ notePiece_eq, hpieces, map_pure, foldl_noted]

theorem pieces_of_spliced {parts : List Part} (hparts : A.parts f = .ok parts)
    (hps : Spliced (fun g qs => A.pieces n g = .ok qs) parts ps) : A.pieces (n + 1) f = .ok ps := by
  have hnested : ∀ g qs, A.pieces n g = .ok qs → ∀ b,
      g.walk (A.environment n) notePiece n b = qs.foldlM (fun b p => notePiece p b) b := by
    intro g qs hqs b
    rw [walk_notePiece n hqs, foldlM_notePiece]
  rw [pieces_eq_ok_iff n, A.walk_succ hparts n n, hps.foldlM_eq hnested, foldlM_notePiece,
    List.nil_append]

section Success

variable {depth : Nat} {visit : Piece → β → Pass Unit β} {b b' : β} {s s' : Unit}

theorem spliced_of_walk {P : Fragment → List Piece → Prop}
    (hP : ∀ g b s b' s', g.walk (A.environment depth) visit n b s = .ok b' s' → ∃ qs, P g qs)
    (h : f.walk (A.environment depth) visit (n + 1) b s = .ok b' s') :
    ∃ parts ps, A.parts f = .ok parts ∧ Spliced P parts ps := by
  obtain ⟨cs, hcs⟩ := settleGaps_of_walkGaps depth visit _ h
  have hparts : A.parts f = .ok (layParts f none cs) := map_eq_ok_iff.mpr ⟨cs, hcs, rfl⟩
  rw [A.walk_succ hparts depth n] at h
  obtain ⟨ps, hps⟩ := Spliced.of_foldlM hP h
  exact ⟨_, ps, hparts, hps⟩

/-- **A walk succeeds only if there are pieces** to visit. -/
theorem pieces_of_walk (h : f.walk (A.environment depth) visit n b s = .ok b' s') :
    ∃ ps, A.pieces n f = .ok ps := by
  induction n generalizing f b s b' s' with
  | zero => cases h
  | succ n ih =>
    obtain ⟨parts, ps, hparts, hps⟩ := spliced_of_walk (fun g b s b' s' hg => ih hg) h
    exact ⟨ps, pieces_of_spliced hparts hps⟩

end Success

/-- **The pieces of a fragment** are its parts with the pieces of the fragments inside. -/
theorem pieces_succ_iff : A.pieces (n + 1) f = .ok ps ↔
    ∃ parts, A.parts f = .ok parts ∧ Spliced (fun g qs => A.pieces n g = .ok qs) parts ps := by
  constructor
  · intro h
    have hwalk := congrFun ((pieces_eq_ok_iff n).mp h) ()
    obtain ⟨parts, qs, hparts, hqs⟩ := spliced_of_walk (fun g b s b' s' => pieces_of_walk) hwalk
    have hok := pieces_of_spliced hparts hqs
    rw [h] at hok
    cases hok
    exact ⟨parts, hparts, hqs⟩
  · rintro ⟨parts, hparts, hps⟩
    exact pieces_of_spliced hparts hps

/-- **Deeper nesting than needed** makes no difference. -/
theorem pieces_mono (h : A.pieces n f = .ok ps) (hnm : n ≤ m) : A.pieces m f = .ok ps := by
  have hsucc : ∀ {n f ps}, A.pieces n f = .ok ps → A.pieces (n + 1) f = .ok ps := by
    intro n
    induction n with
    | zero =>
      intro f ps h
      cases h
    | succ n ih =>
      intro f ps h
      obtain ⟨parts, hparts, hps⟩ := pieces_succ_iff.mp h
      exact pieces_succ_iff.mpr ⟨parts, hparts, hps.mono fun g qs => ih⟩
  induction hnm with
  | refl => exact h
  | step _ ih => exact hsucc ih

theorem pieces_unique (h : A.pieces n f = .ok ps) (h' : A.pieces m f = .ok qs) : ps = qs := by
  have hmax := pieces_mono h (Nat.le_max_left n m)
  rw [pieces_mono h' (Nat.le_max_right n m)] at hmax
  cases hmax
  rfl

/-- **A walk visits the pieces** of a fragment, up to the first visit that fails. -/
theorem walk_of_pieces (h : A.pieces n f = .ok ps) (depth : Nat)
    (visit : Piece → β → Pass Unit β) (b : β) :
    f.walk (A.environment depth) visit n b = ps.foldlM (fun b p => visit p b) b := by
  induction n generalizing f ps b with
  | zero => cases h
  | succ n ih =>
    obtain ⟨parts, hparts, hps⟩ := pieces_succ_iff.mp h
    have hnested : ∀ g qs, A.pieces n g = .ok qs → ∀ b,
        g.walk (A.environment depth) visit n b = qs.foldlM (fun b p => visit p b) b :=
      fun g qs hqs b => ih hqs b
    rw [A.walk_succ hparts depth n]
    exact hps.foldlM_eq hnested b

theorem settle_list {r : ListRef} {v : Value} {vs : List Value} {rs : List Resolved}
    {runs : List Run} (hitems : A.elements r = v :: vs)
    (hrs : A.resolveItems f (v :: vs) = .ok rs) (hruns : group rs = runs) :
    A.settle f (.list r) = .ok (.runs runs) := by
  have hsequence : A.sequenceRuns f (.list r) = .ok runs := by
    have hlist : A.items (.list r) = v :: vs := hitems
    simp only [sequenceRuns, hlist, hrs, List.isEmpty_cons, Bool.false_eq_true, if_false]
    exact congrArg Except.ok hruns
  change (A.sequenceRuns f (.list r) >>= fun rs => Except.ok (Content.runs rs)) = _
  rw [hsequence]
  rfl

theorem parts_one_slot {l r : String} {v : Value} {c : Content} (hsegments : f.segments = [l, r])
    (hslots : f.slots = [v]) (hc : A.settle f v = .ok c) :
    A.parts f = .ok (.piece (.literal l) :: (contentParts f c ++ [.piece (.literal r)])) := by
  have hgaps : f.gaps = [(l, some v), (r, none)] := by
    rw [Fragment.gaps, hsegments, hslots]
    simp [pairGaps]
  have hsettled : A.settleGaps f f.gaps = .ok [(l, some c), (r, none)] := by
    rw [hgaps]
    simp only [settleGaps, hc]
    rfl
  rw [parts, hsettled]
  change Except.ok (layParts f none [(l, some c), (r, none)]) = _
  simp [layParts, Fragment.separates, delimiterParts]

end Reading

end SqlFragments
