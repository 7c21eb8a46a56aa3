import Mathlib.Logic.Relation
import SqlFragments.Builder.Basic
import SqlFragments.Proofs.Parts
import SqlFragments.Proofs.Reads

/-!
# Rendering part by part

Wherever a fragment stands, it renders to the same text and the same values, except that its
ordinals are raised by the number of values to its left.

* `Dialect.raised`, `Dialect.emit`: a dialect with raised ordinals; what is written for pieces.
* **`Fragment.write_raised`**: from a later ordinal on, the text of a fragment has raised ordinals,
  whatever surrounds the pass.
* `Reading.write`: the text from an ordinal on by a reading. **`Reading.write_of_pieces`**: it is
  emitted from the pieces.
* `Reading.inside`, `Reading.Unfolds`: the fragments right inside a fragment, and a fragment with
  its parts in its place, or the parts of its parts. **`Reading.unfolds_of_inside`**: whatever
  stands in a fragment comes up when it is unfolded.
* **`Reading.Unfolds.spliced`**: unfolding changes no piece.
* `Fragment.Wraps`: a fragment that holds another and nothing else. **`Rendering.answer_wraps`**: it
  reads like the other.
* **`rendering_compositional`**.
-/

namespace SqlFragments

variable {σ ω : Type}

/-! ## Raised ordinals -/

namespace Dialect

variable (d : Dialect) (c : Nat)

/-- The dialect with all ordinals raised by `c`. -/
def raised : Dialect where
  name := d.name
  render
    | .int k => d.render (.int (k + c))
    | index => d.render index

theorem placeholder_raised {k : Int} (hk : 1 ≤ k) :
    (d.raised c).placeholder (.int k) = d.placeholder (.int (k + c)) := by
  have hkc : 1 ≤ k + c := by omega
  rw [placeholder_int _ hk, placeholder_int _ hkc]
  rfl

/-- What is written for pieces behind ordinal `k`, as far as there are placeholders. -/
def emit : Nat → List Piece → Except Failure (List Mark)
  | _, [] => .ok []
  | k, .literal s :: ps => (.literal s :: ·) <$> emit k ps
  | k, .bound _ :: ps => do
    let token ← (d.placeholder (.int (k + 1))).mapError .ofPlaceholder
    (.placeholder token :: ·) <$> emit (k + 1) ps

/-- **With raised ordinals** a dialect writes what it writes behind a later ordinal. -/
theorem emit_raised (k : Nat) (ps : List Piece) :
    (d.raised c).emit k ps = d.emit (k + c) ps := by
  induction ps generalizing k with
  | nil => rfl
  | cons p ps ih =>
    cases p with
    | literal s => rw [emit, emit, ih]
    | bound b =>
      have hk : ((k : Int) + 1) + c = ((k + c : Nat) : Int) + 1 := by omega
      have hplaceholder := d.placeholder_raised c (k := k + 1) (by omega)
      rw [hk] at hplaceholder
      have hnext : k + 1 + c = k + c + 1 := by omega
      rw [emit, emit, hplaceholder, ih, hnext]

theorem emit_append (k : Nat) (ps qs : List Piece) :
    d.emit k (ps ++ qs) = (do
      let own ← d.emit k ps
      let rest ← d.emit (k + (boundValues ps).length) qs
      pure (own ++ rest)) := by
  induction ps generalizing k with
  | nil =>
    rw [emit, boundValues_nil]
    exact (bind_pure (d.emit k qs)).symm
  | cons p ps ih =>
    cases p with
    | literal s => simp [emit, ih]
    | bound b =>
      have hk : k + 1 + (boundValues ps).length = k + ((boundValues ps).length + 1) := by omega
      simp [emit, ih, hk]

end Dialect

/-- Raises the last ordinal used by `c`. -/
def raisedBy (c : Nat) (x : String × Nat) : String × Nat := (x.1, x.2 + c)

theorem writePlaceholder_raised (d : Dialect) (c k : Nat) :
    writePlaceholder (σ := σ) d (k + c) = raisedBy c <$> writePlaceholder (d.raised c) k := by
  have hk : ((k : Int) + 1) + c = ((k + c : Nat) : Int) + 1 := by omega
  have hplaceholder := d.placeholder_raised c (k := k + 1) (by omega)
  rw [hk] at hplaceholder
  have hnext : k + c + 1 = k + 1 + c := by omega
  rw [writePlaceholder, writePlaceholder, hplaceholder, hnext]
  cases d.placeholder (.int (((k + c : Nat) : Int) + 1)) <;> rfl

/-- **From a later ordinal on**, a fragment is written with raised ordinals. -/
theorem Fragment.write_raised (env : Environment σ) (d : Dialect) (c n : Nat) (g : Fragment)
    (k : Nat) : g.write env d n (k + c) = raisedBy c <$> g.write env (d.raised c) n k := by
  have hplaceholder : ∀ k, Lockstep (Eq (α := σ)) (fun x y => x = raisedBy c y)
      (writePlaceholder d (k + c)) (writePlaceholder (d.raised c) k) := by
    intro k
    rw [writePlaceholder_raised, ← id_map (writePlaceholder (d.raised c) k), ← comp_map]
    refine .map (.refl _) ?_
    rintro x _ rfl
    rfl
  rw [write_eq_walk, write_eq_walk]
  refine Lockstep.eq_map (g.walk_lockstep (walksAlike_refl env) ⟨?_, ?_⟩ n rfl rfl)
  · rintro s _ ⟨text, k⟩ rfl
    exact .pure rfl
  · rintro x _ _ ⟨text, k⟩ rfl rfl
    refine .bind (hplaceholder k) ?_
    rintro _ ⟨token, k'⟩ rfl
    exact .pure rfl

/-! ## Writing by a reading -/

/-- The text of what is written. -/
def markText (ms : List Mark) : String := String.join (ms.map Mark.text)

theorem markText_cons (m : Mark) (ms : List Mark) : markText (m :: ms) = m.text ++ markText ms := by
  simp [markText, String.join_cons]

theorem markText_append (ms ms' : List Mark) :
    markText (ms ++ ms') = markText ms ++ markText ms' := by
  induction ms with
  | nil => simp [markText]
  | cons m ms ih => rw [List.cons_append, markText_cons, markText_cons, ih, String.append_assoc]

theorem foldlM_writePiece (d : Dialect) (ps : List Piece) (text : String) (k : Nat) (s : σ) :
    ps.foldlM (fun x p => writePiece (σ := σ) d p x) (text, k) s =
      resultOf ((fun ms => (text ++ markText ms, k + (boundValues ps).length)) <$> d.emit k ps)
        s := by
  induction ps generalizing text k with
  | nil =>
    have hempty : text ++ markText [] = text := by simp [markText]
    rw [Dialect.emit]
    change EStateM.Result.ok (text, k) s = .ok (text ++ markText [], k + 0) s
    rw [hempty, Nat.add_zero]
  | cons p ps ih =>
    cases p with
    | literal t =>
      have htext : ∀ ms, text ++ t ++ markText ms = text ++ markText (.literal t :: ms) := by
        intro ms
        rw [markText_cons, Mark.text, String.append_assoc]
      rw [List.foldlM_cons, writePiece, pure_bind, ih, Dialect.emit]
      simp only [htext, boundValues_literal, Functor.map_map]
    | bound b =>
      have hk : k + 1 + (boundValues ps).length = k + (boundValues (.bound b :: ps)).length := by
        rw [boundValues_bound, List.length_cons]
        omega
      rw [List.foldlM_cons, writePiece, writePlaceholder, Dialect.emit]
      cases d.placeholder (.int (k + 1)) with
      | error e => rfl
      | ok token =>
        have htext : ∀ ms,
            text ++ token ++ markText ms = text ++ markText (.placeholder token :: ms) := by
          intro ms
          rw [markText_cons, Mark.text, String.append_assoc]
        rw [pure_bind, pure_bind, ih, hk]
        simp only [htext]
        change _ = resultOf (_ <$> _ <$> d.emit (k + 1) ps) s
        rw [Functor.map_map]

namespace Reading

variable (A : Reading)

/-- The text of a fragment behind ordinal `k` by the reading alone, and the last ordinal used. -/
def write (depth : Nat) (d : Dialect) (k : Nat) (f : Fragment) : Except Failure (String × Nat) :=
  outcome (f.write (A.environment depth) d depth k) ()

variable {A} {f : Fragment} {n : Nat} {ps : List Piece}

theorem flatten_eq_write (d : Dialect) :
    A.flatten n d f = (fun x => dropNewlines x.1) <$> A.write n d 0 f := by
  have hstatement : f.statement (A.environment n) d =
      (fun x => dropNewlines x.1) <$> f.write (A.environment n) d n 0 := by
    rw [← bind_pure_comp]
    rfl
  rw [flatten, hstatement, outcome_map]
  rfl

/-- **The text is emitted from the pieces**, and each bound value takes one ordinal. -/
theorem write_of_pieces (h : A.pieces n f = .ok ps) (d : Dialect) (k : Nat) :
    A.write n d k f = (fun ms => (markText ms, k + (boundValues ps).length)) <$> d.emit k ps := by
  have hrun := foldlM_writePiece d ps "" k ()
  rw [write, f.write_eq_walk, walk_of_pieces h, outcome, hrun]
  cases d.emit k ps with
  | error e => rfl
  | ok ms =>
    change Except.ok ("" ++ markText ms, _) = Except.ok (markText ms, _)
    rw [String.empty_append]

theorem flatten_of_pieces (h : A.pieces n f = .ok ps) (d : Dialect) :
    A.flatten n d f = (fun ms => dropNewlines (markText ms)) <$> d.emit 0 ps := by
  rw [flatten_eq_write, write_of_pieces h, ← comp_map]
  rfl

theorem collect_of_pieces (h : A.pieces n f = .ok ps) : A.collect n f = .ok (boundValues ps) := by
  rw [collect_eq_pieces, h]
  rfl

theorem pieces_scalar_slot {l r : String} {v : Value} (hsegments : f.segments = [l, r])
    (hslots : f.slots = [v]) (hv : A.settle f v = .ok (.scalar v)) (n : Nat) :
    A.pieces (n + 1) f = .ok [.literal l, .bound (.scalar v), .literal r] :=
  pieces_of_spliced (parts_one_slot hsegments hslots hv) (.piece _ (.piece _ (.piece _ .nil)))

theorem pieces_of_write {d : Dialect} {k : Nat} {x : String × Nat} (h : A.write n d k f = .ok x) :
    ∃ ps, A.pieces n f = .ok ps := by
  obtain ⟨s', hwrite⟩ := outcome_eq_ok_iff.mp h
  rw [f.write_eq_walk] at hwrite
  exact pieces_of_walk hwrite

end Reading

/-! ## Fragments inside a fragment -/

def Part.fragment? : Part → Option Fragment
  | piece _ => none
  | nested g => some g

section PartFragments

variable (owner : Fragment)

theorem fragments_delimiterParts (stands : Bool) :
    (delimiterParts owner stands).filterMap Part.fragment? = [] := by
  cases stands <;> rfl

theorem fragments_runParts (rs : List Run) :
    (runParts owner rs).filterMap Part.fragment? = runFragments rs := by
  induction rs with
  | nil => rfl
  | cons r rest ih =>
    cases r with
    | group vs => exact ih
    | fragment g adjacent =>
      rw [runParts, List.filterMap_append, fragments_delimiterParts, List.nil_append]
      exact congrArg (g :: ·) ih

theorem fragments_contentParts (c : Content) :
    (contentParts owner c).filterMap Part.fragment? = c.fragments := by
  cases c with
  | runs rs => exact fragments_runParts owner rs
  | _ => rfl

theorem fragments_layParts (previous : Option SlotKind) (cs : List (String × Option Content)) :
    (layParts owner previous cs).filterMap Part.fragment? =
      (cs.filterMap Prod.snd).flatMap Content.fragments := by
  induction cs generalizing previous with
  | nil => rfl
  | cons c rest ih =>
    obtain ⟨literal, _ | c⟩ := c
    · exact ih _
    · have hliteral : Part.fragment? (.piece (.literal literal)) = none := rfl
      rw [layParts, List.filterMap_cons_none hliteral, List.filterMap_append,
        List.filterMap_append, fragments_delimiterParts, fragments_contentParts, ih,
        List.nil_append]
      rfl

end PartFragments

namespace Reading

variable (A : Reading) (owner : Fragment)

/-- The fragments that a slot stands for: itself, or those among the elements of a sequence. -/
def standing : Resolved → Except Failure (List Fragment)
  | .fragment g => pure [g]
  | .sequence s => do
    let rs ← A.resolveItems owner (A.items s)
    pure (rs.filterMap Resolved.fragment?)
  | .scalar _ | .skip => pure []

def insideSlots : List Value → Except Failure (List Fragment)
  | [] => pure []
  | v :: rest => do
    let r ← A.resolve owner v
    let own ← A.standing owner r
    let more ← insideSlots rest
    pure (own ++ more)

/-- The fragments right inside a fragment, from left to right: in slots or sequences, or as the
answers of callables. -/
def inside (f : Fragment) : Except Failure (List Fragment) := A.insideSlots f f.slots

theorem fragments_settleResolved (r : Resolved) :
    Content.fragments <$> A.settleResolved owner r = A.standing owner r := by
  cases r with
  | sequence s =>
    rw [settleResolved, sequenceRuns, standing]
    split_ifs with hempty
    · rw [List.isEmpty_iff.mp hempty]
      rfl
    · cases A.resolveItems owner (A.items s) with
      | error e => rfl
      | ok rs => exact congrArg Except.ok (runFragments_groupAfter false rs)
  | _ => rfl

theorem fragments_settleGaps (gaps : List (String × Option Value)) :
    (fun cs => (cs.filterMap Prod.snd).flatMap Content.fragments) <$> A.settleGaps owner gaps =
      A.insideSlots owner (gaps.filterMap Prod.snd) := by
  induction gaps with
  | nil => rfl
  | cons gap rest ih =>
    obtain ⟨literal, _ | v⟩ := gap
    · rw [settleGaps, map_bind]
      simpa using ih
    · have hslots : ((literal, some v) :: rest).filterMap Prod.snd =
          v :: rest.filterMap Prod.snd := rfl
      rw [settleGaps, settle, hslots, insideSlots, ← ih]
      simp only [← fragments_settleResolved]
      simp

/-- **The fragments among the parts** are those right inside. -/
theorem fragments_parts (f : Fragment) :
    (fun parts => parts.filterMap Part.fragment?) <$> A.parts f = A.inside f := by
  have hparts : ∀ cs, (layParts f none cs).filterMap Part.fragment? =
      (cs.filterMap Prod.snd).flatMap Content.fragments := fragments_layParts f none
  have hslots := A.fragments_settleGaps f f.gaps
  rw [f.gaps_slots] at hslots
  rw [parts, inside, ← hslots, Functor.map_map]
  simp only [hparts]

/-- A fragment unfolds to itself, and to parts of it with any fragment among them in turn replaced
by its parts. -/
inductive Unfolds (A : Reading) (f : Fragment) : List Part → Prop
  | self : A.Unfolds f [.nested f]
  | inner {g : Fragment} {before parts after : List Part}
    (hf : A.Unfolds f (before ++ .nested g :: after)) (hg : A.parts g = .ok parts) :
    A.Unfolds f (before ++ parts ++ after)

/-- A fragment stands right inside another. -/
def Within (g f : Fragment) : Prop := ∃ gs, A.inside f = .ok gs ∧ g ∈ gs

variable {A} {f g : Fragment} {n : Nat} {parts : List Part} {ps : List Piece}

/-- **Whatever stands in a fragment**, however deep, comes up when it is unfolded. -/
theorem unfolds_of_within (h : Relation.ReflTransGen A.Within g f) :
    ∃ before after, A.Unfolds f (before ++ .nested g :: after) := by
  induction h using Relation.ReflTransGen.head_induction_on with
  | refl => exact ⟨[], [], .self⟩
  | head hwithin _ ih =>
    obtain ⟨before, after, hunfolds⟩ := ih
    obtain ⟨gs, hgs, hg⟩ := hwithin
    rw [← fragments_parts] at hgs
    obtain ⟨parts, hparts, rfl⟩ := map_eq_ok_iff.mp hgs
    obtain ⟨part, hpart, hsome⟩ := List.mem_filterMap.mp hg
    cases part with
    | piece p => cases hsome
    | nested g' =>
      cases hsome
      obtain ⟨left, right, rfl⟩ := List.mem_iff_append.mp hpart
      refine ⟨before ++ left, right ++ after, ?_⟩
      have hinner := hunfolds.inner hparts
      simpa using hinner

/-- **Unfolding changes no piece.** -/
theorem Unfolds.spliced (h : A.Unfolds f parts) (hf : A.pieces n f = .ok ps) :
    Spliced (fun g qs => A.pieces n g = .ok qs) parts ps := by
  induction h with
  | self =>
    have hself : Spliced (fun g qs => A.pieces n g = .ok qs) [.nested f] (ps ++ []) :=
      .nested hf .nil
    rwa [List.append_nil] at hself
  | inner _ hg ih =>
    obtain ⟨left, rest, hleft, hrest, rfl⟩ := ih.of_append
    cases hrest with
    | nested hqs hright =>
      refine (hleft.append ?_).append hright |> (List.append_assoc left _ _ ▸ ·)
      cases n with
      | zero => cases hqs
      | succ n =>
        obtain ⟨parts, hparts, hspliced⟩ := pieces_succ_iff.mp hqs
        rw [hg] at hparts
        cases hparts
        exact hspliced.mono fun h rs hrs => pieces_mono hrs (Nat.le_succ n)

end Reading

/-! ## Fragments around one fragment -/

/-- A fragment that holds `g` and nothing else. -/
structure Fragment.Wraps (w g : Fragment) : Prop where
  segments : w.segments = ["", ""]
  slots : w.slots = [.fragment g]

namespace Fragment.Wraps

variable {w g : Fragment}

theorem walk_eq {β : Type} (hw : w.Wraps g) (env : Environment σ) {visit : Piece → β → Pass σ β}
    (hvisit : ∀ b, visit (.literal "") b = pure b) (n : Nat) (b : β) :
    w.walk env visit (n + 1) b = g.walk env visit n b := by
  have hgaps : w.gaps = [("", some (.fragment g)), ("", none)] := by
    rw [gaps, hw.segments, hw.slots]
    simp [pairGaps]
  rw [walk, hgaps]
  simp [walkGaps, hvisit, settle, resolve, Value.classify, settleResolved, walkDelimiter,
    separates, walkContent]

theorem write_eq (hw : w.Wraps g) (env : Environment σ) (d : Dialect) (n k : Nat) :
    w.write env d (n + 1) k = g.write env d n k := by
  have hempty : ∀ x : String × Nat, writePiece (σ := σ) d (.literal "") x = pure x := by
    rintro ⟨text, k⟩
    rw [writePiece, String.append_empty]
  rw [write_eq_walk, write_eq_walk]
  exact hw.walk_eq env hempty n ("", k)

theorem collect_eq (hw : w.Wraps g) (env : Environment σ) (n : Nat) :
    w.collect env (n + 1) = g.collect env n := by
  rw [collect_eq_walk, collect_eq_walk]
  exact hw.walk_eq env (fun _ => rfl) n []

end Fragment.Wraps

section Build

variable (g : Fragment) {s : Session ω}

theorem Fragment.join_wraps {items : Value} (h : items.sequenceItems? s.heap = some [.fragment g])
    (d : String) : ∃ w s', Fragment.join items (.str d) s = .ok w s' ∧ w.Wraps g := by
  have hparts : joinParts s.heap items (.str d) =
      .ok ⟨["", ""], false, [.fragment g], d, none⟩ := by
    rw [joinParts, h]
    exact parts_tuples s.heap ["", ""] [.fragment g] d
  refine ⟨⟨s.freshFragment, ["", ""], false, [.fragment g], d, none, true⟩,
    { s with freshFragment := s.freshFragment + 1 }, ?_, ⟨rfl, rfl⟩⟩
  rw [Fragment.join, Pass.get_bind, hparts]
  rfl

theorem tag_wraps (s : Session ω) :
    ∃ w s', tag "\x7b\x7d" [.fragment g] s = .ok w s' ∧ w.Wraps g := by
  have hpieces : literalPieces "\x7b\x7d" = ["", ""] := by decide
  refine ⟨⟨s.freshFragment, ["", ""], true, [.fragment g], "", none, false⟩,
    { s with freshFragment := s.freshFragment + 1 }, ?_, ⟨rfl, rfl⟩⟩
  rw [tag, hpieces]
  rfl

theorem Builder.call_wraps {b : Builder} {d : String} (hb : b.profile.joinDelimiter = .str d)
    (s : Session ω) : ∃ w s', b.call [.fragment g] s = .ok w s' ∧ w.Wraps g := by
  have hcall : (b.call [.fragment g] : Op ω Fragment) =
      Fragment.join (.tuple [.fragment g]) (.str d) := by
    rw [← hb]
    rfl
  rw [hcall]
  exact g.join_wraps rfl d

end Build

/-! ## Reading what is wrapped -/

section Wrapped

variable {A : Reading} {w g : Fragment} {n : Nat} {ps : List Piece}

theorem Reading.flatten_wraps (hw : w.Wraps g) (n : Nat) (d : Dialect) :
    A.flatten (n + 1) d w = A.flatten n d g := by
  rw [A.flatten_eq_write, A.flatten_eq_write, write, write, hw.write_eq, g.write_eq_walk,
    g.write_eq_walk, A.walk_environment (n + 1) n]

theorem Reading.collect_wraps (hw : w.Wraps g) (n : Nat) :
    A.collect (n + 1) w = A.collect n g := by
  rw [collect, collect, Fragment.bindings, Fragment.bindings]
  change outcome (w.collect (A.environment (n + 1)) (n + 1)) () =
    outcome (g.collect (A.environment n) n) ()
  rw [hw.collect_eq, g.collect_eq_walk, g.collect_eq_walk, A.walk_environment (n + 1) n]

/-- An answer for a fragment of another name. -/
def Answer.renamed (name : Value) : Answer → Answer
  | query sql params target _ => query sql params target name
  | a => a

/-- The same, but for how deep fragments may be nested. -/
def Rendering.upTo (U : Rendering) (depth : Nat) : Rendering := { U with depth := depth }

/-- **A fragment around `g`**, one level deeper, reads like `g`. -/
theorem Rendering.answer_wraps (U : Rendering) (hw : w.Wraps g) (n : Nat) (r : Read) :
    (U.upTo (n + 1)).answer w r = Answer.renamed (.ofName w.name) <$> (U.upTo n).answer g r := by
  have hflatten : ∀ d, (U.upTo (n + 1)).flatten d w = (U.upTo n).flatten d g :=
    Reading.flatten_wraps hw n
  have hcollect : (U.upTo (n + 1)).collect w = (U.upTo n).collect g := Reading.collect_wraps hw n
  have hdialect : ∀ target, (U.upTo (n + 1)).dialectFor target = (U.upTo n).dialectFor target :=
    fun _ => rfl
  cases r with
  | compile target =>
    rw [answer_compile, answer_compile]
    simp only [hflatten, hcollect, hdialect, map_bind]
    rfl
  | values =>
    simp only [answer, hcollect, map_bind]
    rfl
  | _ =>
    simp only [answer, hflatten, map_bind]
    rfl

theorem Rendering.answer_upTo (U : Rendering) (h : U.reading.pieces n g = .ok ps) {m : Nat}
    (hnm : n ≤ m) (r : Read) : (U.upTo m).answer g r = (U.upTo n).answer g r := by
  have hm := Reading.pieces_mono h hnm
  have hflatten : ∀ d, (U.upTo m).flatten d g = (U.upTo n).flatten d g := fun d =>
    (Reading.flatten_of_pieces hm d).trans (Reading.flatten_of_pieces h d).symm
  have hcollect : (U.upTo m).collect g = (U.upTo n).collect g :=
    (Reading.collect_of_pieces hm).trans (Reading.collect_of_pieces h).symm
  have hdialect : ∀ target, (U.upTo m).dialectFor target = (U.upTo n).dialectFor target :=
    fun _ => rfl
  cases r with
  | compile target => rw [answer_compile, answer_compile, hdialect, hcollect]; simp only [hflatten]
  | _ => simp only [answer, hflatten, hcollect]

end Wrapped

theorem Rendering.answer_wraps_of_lt (U : Rendering) {w g : Fragment} (hw : w.Wraps g) {n : Nat}
    {ps : List Piece} (h : U.reading.pieces n g = .ok ps) (hn : n < U.depth) (r : Read) :
    U.answer w r = Answer.renamed (.ofName w.name) <$> U.answer g r := by
  obtain ⟨m, hm⟩ := Nat.exists_eq_add_of_lt hn
  have hroom : U = U.upTo (n + m + 1) := by
    rw [upTo, ← hm]
  have hdeep : n ≤ n + m := Nat.le_add_right n m
  have hg : U.answer g r = (U.upTo (n + m)).answer g r := by
    rw [hroom]
    have hmore := U.answer_upTo h (Nat.le_succ_of_le hdeep) r
    exact hmore.trans (U.answer_upTo h hdeep r).symm
  rw [hg, ← U.answer_wraps hw (n + m) r, ← hroom]

/-! ## Composition -/

/-- Text around a fragment, and the fragment with ordinals raised by the values to its left. -/
theorem Reading.flatten_around {A : Reading} {f g : Fragment} {n : Nat}
    {left own right : List Piece} (hf : A.pieces n f = .ok (left ++ own ++ right))
    (hg : A.pieces n g = .ok own) (d : Dialect) :
    A.flatten n d f = (do
      let before ← d.emit 0 left
      let text ← A.flatten n (d.raised (boundValues left).length) g
      let after ← d.emit (boundValues (left ++ own)).length right
      pure (dropNewlines (markText before) ++ text ++ dropNewlines (markText after))) := by
  rw [flatten_of_pieces hf, flatten_of_pieces hg, d.emit_raised, d.emit_append, d.emit_append]
  simp [markText_append, dropNewlines_append, String.append_assoc]

/-- **Rendering is compositional.** At any counter a fragment is written as by itself, with raised
ordinals; so it is wherever it stands in a larger one, and its values are a block of the larger
one's. A fragment around it, and nothing else, reads like it. -/
theorem rendering_compositional (U : Rendering) :
    let A := U.reading
    -- at another counter
    (∀ (g : Fragment) (d : Dialect) (c n : Nat),
      (∀ {σ : Type} (env : Environment σ),
        g.write env d n c = raisedBy c <$> g.write env (d.raised c) n 0) ∧
      ∀ text k, A.write n d c g = .ok (text, k) →
        ∃ ps ms, A.pieces n g = .ok ps ∧
          (∀ d, A.flatten n d g = (fun ms => dropNewlines (markText ms)) <$> d.emit 0 ps) ∧
          (d.raised c).emit 0 ps = .ok ms ∧ text = markText ms ∧
          A.collect n g = .ok (boundValues ps) ∧ k = c + (boundValues ps).length) ∧
    -- inside a larger fragment
    (∀ f g, Relation.ReflTransGen A.Within g f →
      ∃ before after, A.Unfolds f (before ++ .nested g :: after)) ∧
    (∀ f g n ps before after, A.pieces n f = .ok ps →
      A.Unfolds f (before ++ .nested g :: after) →
        ∃ left own right, ps = left ++ own ++ right ∧
          Spliced (fun h qs => A.pieces n h = .ok qs) before left ∧ A.pieces n g = .ok own ∧
          Spliced (fun h qs => A.pieces n h = .ok qs) after right ∧
          A.collect n f = .ok (boundValues left ++ boundValues own ++ boundValues right) ∧
          A.collect n g = .ok (boundValues own) ∧
          ∀ d, A.flatten n d f = (do
            let before ← d.emit 0 left
            let text ← A.flatten n (d.raised (boundValues left).length) g
            let after ← d.emit (boundValues (left ++ own)).length right
            pure (dropNewlines (markText before) ++ text ++ dropNewlines (markText after)))) ∧
    -- wrapped by itself
    (∀ {ω : Type} (s : Session ω) (g : Fragment),
      (∀ items d, items.sequenceItems? s.heap = some [.fragment g] →
        ∃ w s', Fragment.join items (.str d) s = .ok w s' ∧ w.Wraps g) ∧
      (∃ w s', tag "\x7b\x7d" [.fragment g] s = .ok w s' ∧ w.Wraps g) ∧
      ∃ w s', Builder.standard.call [.fragment g] s = .ok w s' ∧ w.Wraps g) ∧
    (∀ w g n, w.Wraps g →
      (∀ d, A.flatten (n + 1) d w = A.flatten n d g) ∧ A.collect (n + 1) w = A.collect n g) ∧
    ∀ {ω : Type} {host : Host ω} {known pool next}, host.depth = U.depth →
      host.environment.Follows A (Session.Sound U known pool next) known → A.Closed known →
      ∀ w ∈ pool, ∀ g ∈ pool, known (.fragment w) → known (.fragment g) → w.Wraps g →
      ∀ n ps, A.pieces n g = .ok ps → n < U.depth → ∀ r : Read,
        Gives (Session.Sound U known pool next) (r.perform host g) (U.answer g r) ∧
        Gives (Session.Sound U known pool next) (r.perform host w)
          (Answer.renamed (.ofName w.name) <$> U.answer g r) := by
  intro A
  refine ⟨fun g d c n => ⟨fun env => ?_, fun text k h => ?_⟩, fun f g => Reading.unfolds_of_within,
    fun f g n ps before after hf hunfolds => ?_, fun s g => ⟨fun items d h => g.join_wraps h d,
      tag_wraps g s, Builder.call_wraps g rfl s⟩,
    fun w g n hw => ⟨Reading.flatten_wraps hw n, Reading.collect_wraps hw n⟩, ?_⟩
  · have hraised := g.write_raised env d c n 0
    rwa [Nat.zero_add] at hraised
  · obtain ⟨ps, hps⟩ := Reading.pieces_of_write h
    rw [Reading.write_of_pieces hps] at h
    obtain ⟨ms, hms, hok⟩ := map_eq_ok_iff.mp h
    cases hok
    refine ⟨ps, ms, hps, Reading.flatten_of_pieces hps, ?_, rfl, Reading.collect_of_pieces hps, rfl⟩
    rw [d.emit_raised, Nat.zero_add]
    exact hms
  · obtain ⟨left, rest, hleft, hrest, rfl⟩ := (hunfolds.spliced hf).of_append
    cases hrest with
    | @nested _ own _ right hown hright =>
      rw [← List.append_assoc] at hf
      refine ⟨left, own, right, (List.append_assoc _ _ _).symm, hleft, hown, hright, ?_,
        Reading.collect_of_pieces hown, Reading.flatten_around hf hown⟩
      rw [Reading.collect_of_pieces hf]
      simp [boundValues]
  · intro ω host known pool next hdepth hfollows hc w hwp g hgp hkw hkg hw n ps hps hn r
    refine ⟨r.perform_gives hdepth hfollows hc hgp hkg, ?_⟩
    rw [← U.answer_wraps_of_lt hw hps hn r]
    exact r.perform_gives hdepth hfollows hc hwp hkw

/-- A fragment that stands in a sequence and once more as the answer of a callable, and a fragment
around it. -/
theorem rendering_compositional_shared :
    let g : Fragment := ⟨1, ["y = ", ""], false, [.int 7], "", none, false⟩
    let w : Fragment := ⟨2, ["", ""], false, [.fragment g], ",", none, true⟩
    let f : Fragment := ⟨0, ["a IN ", " AND ", ""], false,
      [.tuple [.int 1, .fragment g], .callable ⟨0, "y"⟩], "", none, false⟩
    let A : Reading := ⟨fun _ => [], fun _ _ => .ok (.fragment g)⟩
    let host : Host Unit := ⟨fun _ _ => pure (.fragment g), 2⟩
    let s : Session Unit := { Session.initial () with freshFragment := 3 }
    (∃ bs, A.write 1 .postgres 5 g = .ok ("y = $6", 5 + bs.length) ∧ A.collect 1 g = .ok bs) ∧
    A.flatten 2 .postgres f = .ok "a IN $1y = $2 AND y = $3" ∧
    outcome (Read.text.perform host w) s = .ok (.text "y = $1") := by
  intro g w f A host s
  let U : Rendering := ⟨A, 2, .initial⟩
  obtain ⟨hcounter, -, hinside, -, -, hsession⟩ := rendering_compositional U
  have hg : ∀ n, A.pieces (n + 1) g =
      .ok [.literal "y = ", .bound (.scalar (.int 7)), .literal ""] :=
    A.pieces_scalar_slot rfl rfl rfl
  have hfparts : A.parts f = .ok ([.piece (.literal "a IN "), .piece (.bound (.group [.int 1])),
      .nested g, .piece (.literal " AND ")] ++ .nested g :: [.piece (.literal "")]) := by
    simp only [Reading.parts, Fragment.gaps, f, pairGaps]
    rfl
  refine ⟨?_, ?_, ?_⟩
  · have hwrite : A.write 1 .postgres 5 g = .ok ("y = $6", 6) := by
      rw [Reading.write_of_pieces (hg 0)]
      rfl
    obtain ⟨ps, ms, -, -, -, -, hcollect, hk⟩ := (hcounter g .postgres 5 1).2 _ _ hwrite
    exact ⟨_, by rw [hwrite, hk], hcollect⟩
  · have hleft : Spliced (fun h qs => A.pieces 2 h = .ok qs) [.piece (.literal "a IN "),
        .piece (.bound (.group [.int 1])), .nested g, .piece (.literal " AND ")] _ :=
      .piece _ (.piece _ (.nested (hg 1) (.piece _ .nil)))
    have hright : Spliced (fun h qs => A.pieces 2 h = .ok qs) [.piece (.literal "")] _ :=
      .piece _ .nil
    have hf : A.pieces 2 f = .ok _ := Reading.pieces_of_spliced hfparts
      (.piece _ (.piece _ (.nested (hg 0) (.piece _ (.nested (hg 0) (.piece _ .nil))))))
    have hself : A.Unfolds f ([] ++ .nested f :: []) := .self
    have hunfolds := hself.inner hfparts
    rw [List.nil_append, List.append_nil] at hunfolds
    obtain ⟨left, own, right, -, hl, ho, hr, -, -, hflatten⟩ := hinside f g 2 _ _ _ hf hunfolds
    have hunique : ∀ h qs qs', A.pieces 2 h = .ok qs → A.pieces 2 h = .ok qs' → qs = qs' :=
      fun _ _ _ => Reading.pieces_unique
    obtain rfl := hl.unique hunique hleft
    obtain rfl := hr.unique hunique hright
    obtain rfl := Reading.pieces_unique ho (hg 1)
    rw [hflatten, Reading.flatten_of_pieces (hg 1)]
    rfl
  · let known : Value → Prop := fun v => v = .fragment g ∨ v = .fragment w ∨ v = .int 7
    have hlist : ∀ r, ¬ known (.list r) := by
      rintro r (h | h | h) <;> cases h
    have hcallable : ∀ c, ¬ Asked known c := by
      rintro c ⟨_, rfl | rfl | rfl, hc⟩ <;> cases hc
    have hfollows : host.environment.Follows A (Session.Sound U known [g, w] (· = 3)) known :=
      ⟨fun _ r _ hr => absurd hr (hlist r), fun _ c _ _ hc => absurd hc (hcallable c)⟩
    have hclosed : A.Closed known := by
      constructor
      case slot =>
        rintro h v (hh | hh | hh) hv
        · cases hh
          exact .inr (.inr (List.mem_singleton.mp hv))
        · cases hh
          exact .inl (List.mem_singleton.mp hv)
        · cases hh
      case element => exact fun r _ hr => absurd hr (hlist r)
      case answer => exact fun c _ _ hc => absurd hc (hcallable c)
      all_goals rintro vs v (h | h | h) <;> cases h
    have hsound : s.Sound U known [g, w] (· = 3) :=
      .of_empty rfl (fun r hr => absurd hr (hlist r)) rfl rfl (by simp [g, w])
        (by simp [g, w, s]) rfl
    obtain ⟨-, hread⟩ := hsession rfl hfollows hclosed w (by simp) g (by simp) (.inr (.inl rfl))
      (.inl rfl) ⟨rfl, rfl⟩ 1 _ (hg 0) Nat.one_lt_two .text
    rw [hread.outcome_eq hsound]
    have htext : U.flatten .postgres g = .ok "y = $1" := by
      rw [Rendering.flatten, Reading.flatten_of_pieces (hg 1)]
      rfl
    rw [Rendering.answer, htext]
    rfl

end SqlFragments
