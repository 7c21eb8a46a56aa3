import SqlFragments.Proofs.Composition
import SqlFragments.Proofs.Shape

/-!
# Lists with the delimiter written out

A fragment that lists items is read like one that has the delimiter as text between its slots and
holds the items that are not skipped.

* `Fragment.Lists`, `Fragment.SpellsOut`: a fragment that lists items, and one with the delimiter
  between its slots.
* `Reading.Impartial`: a value that stands for the same whichever fragment holds it.
* `Reading.kept`: the items that are not skipped.
* `walkListed`: a walk over the results of items, with the delimiter between them.
  **`Fragment.Lists.walk_eq`**: walks over both fragments are one such walk.
* **`Fragment.Lists.pieces_eq`**: the pieces of a fragment that lists fragments.
* **`listing_spelled_out`**.
-/

namespace SqlFragments

variable {σ β ω : Type}

/-! ## The two fragments -/

/-- A fragment that lists items. -/
structure Fragment.Lists (f : Fragment) (items : List Value) (d : String) : Prop where
  segments : f.segments = List.replicate (items.length + 1) ""
  slots : f.slots = items
  delimiter : f.delimiter = d
  name : f.name = none
  joined : f.joined = true

/-- Segments around slots, with the delimiter between two of them. -/
def spelledOut (d : String) : (first : Bool) → Nat → List String
  | _, 0 => [""]
  | first, n + 1 => (if first then "" else d) :: spelledOut d false n

theorem spelledOut_zero (d : String) : spelledOut d true 0 = [""] := rfl

theorem spelledOut_succ (d : String) (n : Nat) :
    spelledOut d true (n + 1) = "" :: (List.replicate n d ++ [""]) := by
  have hlater : ∀ n, spelledOut d false n = List.replicate n d ++ [""] := by
    intro n
    induction n with
    | zero => rfl
    | succ n ih => rw [spelledOut, ih, List.replicate_succ, List.cons_append]; rfl
  rw [spelledOut, hlater]
  rfl

/-- A fragment with the delimiter as text between its slots. -/
structure Fragment.SpellsOut (f : Fragment) (items : List Value) (d : String) : Prop where
  segments : f.segments = spelledOut d true items.length
  slots : f.slots = items
  delimiter : f.delimiter = d
  name : f.name = none
  joined : f.joined = false

section Build

variable {s : Session ω} {v : Value} {items : List Value}

theorem Fragment.join_lists (h : v.sequenceItems? s.heap = some items) (d : String) :
    ∃ f s', Fragment.join v (.str d) s = .ok f s' ∧ s'.heap = s.heap ∧ f.Lists items d := by
  have hsegments : List.replicate (items.length + 1) (Value.str "") =
      (List.replicate (items.length + 1) "").map .str := by simp
  have hparts : joinParts s.heap v (.str d) =
      .ok ⟨List.replicate (items.length + 1) "", false, items, d, none⟩ := by
    rw [joinParts, h]
    change parts s.heap (.tuple (List.replicate _ _)) _ _ _ = _
    rw [hsegments, parts_tuples]
  refine ⟨⟨s.freshFragment, List.replicate (items.length + 1) "", false, items, d, none, true⟩,
    { s with freshFragment := s.freshFragment + 1 }, ?_, rfl, rfl, rfl, rfl, rfl, rfl⟩
  rw [Fragment.join, Pass.get_bind, hparts]
  rfl

theorem Fragment.Lists.joinBy {f : Fragment} {e : String} (hf : f.Lists items e) (d : String)
    (s : Session ω) : ∃ g s', f.joinBy (.str d) s = .ok g s' ∧ g.Lists items d := by
  rw [joinBy_str]
  split_ifs with hsame
  · refine ⟨f, s, rfl, ?_⟩
    rw [hsame, hf.delimiter]
    exact hf
  · exact ⟨_, _, rfl, hf.segments, hf.slots, rfl, hf.name, hf.joined⟩

theorem Builder.call_of_items {b : Builder} {args : List Value}
    (hsegments : ∀ pieces, args.head? ≠ some (.segments pieces))
    (htemplate : ∀ t, args.head? ≠ some (.template t)) :
    (b.call args : Op ω Fragment) = Fragment.join (.tuple args) b.profile.joinDelimiter := by
  unfold call
  split
  · next pieces slots => exact absurd rfl (hsegments pieces)
  · next id strings values rest => exact absurd rfl (htemplate ⟨id, strings, some values⟩)
  · rfl

theorem Fragment.make_spellsOut (items : List Value) (d : String) (s : Session ω) :
    ∃ f s', Fragment.make (.tuple ((spelledOut d true items.length).map .str)) (.tuple items)
      (.str d)
      .null s = .ok f s' ∧ f.SpellsOut items d := by
  refine ⟨⟨s.freshFragment, spelledOut d true items.length, false, items, d, none, false⟩,
    { s with freshFragment := s.freshFragment + 1 }, ?_, rfl, rfl, rfl, rfl, rfl⟩
  rw [Fragment.make, Pass.get_bind, parts_tuples]
  rfl

end Build

/-! ## What items stand for -/

namespace Reading

variable (A : Reading)

/-- A value that stands for the same whichever fragment holds it. -/
def Impartial (v : Value) : Prop := ∀ f g, A.settle f v = A.settle g v

variable (owner : Fragment)

def skips (v : Value) : Bool :=
  match A.settle owner v with
  | .ok .skip => true
  | _ => false

/-- The items that are not skipped. -/
def kept (items : List Value) : List Value := items.filter fun v => !A.skips owner v

variable {A owner}

theorem resolve_impartial {v : Value}
    (h : ∀ c, v.callable? = some c → ∀ f g, A.answer c f = A.answer c g)
    (f g : Fragment) : A.resolve f v = A.resolve g v := by
  unfold resolve
  cases hcall : v.callable? with
  | some c => exact congrArg (Value.classify <$> ·) (h c hcall f g)
  | none => rfl

/-- A value is impartial if the callables that are asked for it, itself or among the elements of a
sequence that it stands for, do not look at their owner. -/
theorem impartial_of_answer {v : Value}
    (hv : ∀ c, v.callable? = some c → ∀ f g, A.answer c f = A.answer c g)
    (helements : ∀ f s, A.resolve f v = .ok (.sequence s) → ∀ c, Asked (· ∈ A.items s) c →
      ∀ f g, A.answer c f = A.answer c g) : A.Impartial v := by
  intro f g
  have hitems : ∀ vs : List Value, (∀ c, Asked (· ∈ vs) c → ∀ f g, A.answer c f = A.answer c g) →
      A.resolveItems f vs = A.resolveItems g vs := by
    intro vs hvs
    induction vs with
    | nil => rfl
    | cons w rest ih =>
      have hw : A.resolve f w = A.resolve g w :=
        resolve_impartial (fun c hc => hvs c ⟨w, List.mem_cons_self, hc⟩) f g
      have hrest : A.resolveItems f rest = A.resolveItems g rest := by
        refine ih ?_
        rintro c ⟨u, hu, hc⟩
        exact hvs c ⟨u, List.mem_cons_of_mem w hu, hc⟩
      rw [resolveItems, resolveItems, hw, hrest]
  rw [settle, settle, ← resolve_impartial hv f g]
  cases hr : A.resolve f v with
  | error e => rfl
  | ok r =>
    change A.settleResolved f r = A.settleResolved g r
    cases r with
    | sequence s =>
      rw [settleResolved, settleResolved, sequenceRuns, sequenceRuns, hitems _ (helements f s hr)]
    | _ => rfl

theorem skips_eq_true_iff {v : Value} : A.skips owner v = true ↔ A.settle owner v = .ok .skip := by
  unfold skips
  split
  · next h => simp [h]
  · next h => simpa using h

end Reading

/-! ## One walk for both -/

section Walk

variable (env : Environment σ) (visit : Piece → β → Pass σ β) (owner : Fragment)
  (nested : Fragment → β → Pass σ β)

/-- Visits the results of items, with the delimiter of the owner between them. -/
def walkListed : (first : Bool) → List Value → β → Pass σ β
  | _, [], b => pure b
  | first, v :: rest, b => do
    let c ← settle env owner v
    let b ← walkDelimiter visit owner (c.kind != .skip && !first) b
    let b ← walkContent visit owner nested c b
    walkListed (first && c.kind == .skip) rest b

end Walk

section Literals

variable {env : Environment σ} {visit : Piece → β → Pass σ β} {nested : Fragment → β → Pass σ β}
  {add : String → β → β} (hvisit : ∀ s b, visit (.literal s) b = pure (add s b))
  (hempty : ∀ b, add "" b = b) {f : Fragment}

include hvisit hempty

theorem walkGaps_listed (hf : f.joined = true) (items : List Value) (previous : Option SlotKind)
    (b : β) :
    walkGaps env visit f nested (pairGaps (List.replicate (items.length + 1) "") items) previous b =
      walkListed env visit f nested previous.isNone items b := by
  induction items generalizing previous b with
  | nil => simp [pairGaps, walkGaps, walkListed, hvisit, hempty]
  | cons v rest ih =>
    have hgaps : pairGaps (List.replicate ((v :: rest).length + 1) "") (v :: rest) =
        ("", some v) :: pairGaps (List.replicate (rest.length + 1) "") rest := by
      rw [List.length_cons, List.replicate_succ, pairGaps]
    have hseparates : ∀ kind, f.separates previous kind = !previous.isNone := by
      intro kind
      cases previous with
      | none => rfl
      | some p => simp [Fragment.separates, hf]
    have hafter : ∀ kind,
        (kindAfter previous kind).isNone = (previous.isNone && kind == .skip) := by
      intro kind
      unfold kindAfter
      split_ifs with hskip <;> simp [hskip]
    rw [hgaps, walkGaps, hvisit, hempty, pure_bind, walkListed]
    simp [hseparates, ih, hafter]

theorem walkGaps_spelledOut {d : String} (hd : f.delimiter = d) {items : List Value}
    (hitems : ∀ v ∈ items, ∀ s s', settle env f v s ≠ .ok .skip s') {first : Bool}
    {previous : Option SlotKind} (hfirst : first = true → previous = none) (b : β) :
    walkGaps env visit f nested (pairGaps (spelledOut d first items.length) items) previous b =
      walkListed env visit f nested first items b := by
  induction items generalizing first previous b with
  | nil => simp [spelledOut, pairGaps, walkGaps, walkListed, hvisit, hempty]
  | cons v rest ih =>
    obtain ⟨x, hx⟩ : ∃ x, x = if first then "" else d := ⟨_, rfl⟩
    have hgaps : pairGaps (spelledOut d first (v :: rest).length) (v :: rest) =
        (x, some v) :: pairGaps (spelledOut d false rest.length) rest := by
      rw [List.length_cons, spelledOut, pairGaps, hx]
    -- where there is no text, the delimiter is that text, or there is no result before
    have hnone : ∀ kind, walkDelimiter visit f
        (kind != .skip && f.separates (if x.isEmpty then previous else none) kind) (add x b) =
          pure (add x b) := by
      intro kind
      cases first with
      | true => simp [hfirst rfl, Fragment.separates, walkDelimiter]
      | false =>
        cases hstands :
            kind != .skip && f.separates (if x.isEmpty then previous else none) kind with
        | false => rfl
        | true =>
          cases hx' : x.isEmpty with
          | false => simp [hx', Fragment.separates] at hstands
          | true =>
            have hd' : f.delimiter = "" := by rw [hd, ← String.isEmpty_iff.mp hx', hx]; rfl
            rw [walkDelimiter, if_pos rfl, hvisit, hd', hempty]
    have hrest : ∀ v ∈ rest, ∀ s s', settle env f v s ≠ .ok .skip s' := fun w hw =>
      hitems w (List.mem_cons_of_mem v hw)
    rw [hgaps, walkGaps, hvisit, pure_bind, walkListed]
    funext s
    cases hv : settle env f v s with
    | error e s' => rw [Pass.bind_error hv, Pass.bind_error hv]
    | ok c s' =>
      have hkind : (c.kind == .skip) = false := by
        cases c with
        | skip => exact absurd hv (hitems v List.mem_cons_self s s')
        | _ => rfl
      have hdelimiter : walkDelimiter visit f (c.kind != .skip && !first) b = pure (add x b) := by
        rw [bne, hkind, hx]
        cases first with
        | true => exact congrArg pure (hempty b).symm
        | false =>
          rw [walkDelimiter, ← hd]
          exact hvisit f.delimiter b
      have htail : ∀ previous b, walkGaps env visit f nested
          (pairGaps (spelledOut d false rest.length) rest) previous b =
            walkListed env visit f nested false rest b := fun previous b =>
        ih hrest (fun h => absurd h Bool.false_ne_true) b
      rw [Pass.bind_ok hv, Pass.bind_ok hv, hnone, hdelimiter, hkind, Bool.and_false]
      simp only [htail]

end Literals

theorem walkContent_congr {visit : Piece → β → Pass σ β} {f g : Fragment}
    (hfg : f.delimiter = g.delimiter) (nested : Fragment → β → Pass σ β) (c : Content) :
    walkContent visit f nested c = walkContent visit g nested c := by
  have hruns : ∀ rs, walkRuns visit f nested rs = walkRuns visit g nested rs := by
    intro rs
    induction rs with
    | nil => rfl
    | cons r rest ih =>
      funext b
      cases r with
      | group vs => simp only [walkRuns, ih]
      | fragment h adjacent => simp only [walkRuns, walkDelimiter, hfg, ih]
  funext b
  cases c with
  | runs rs => exact congrFun (hruns rs) b
  | _ => rfl

section Kept

variable {A : Reading} {f g : Fragment} (depth : Nat) {visit : Piece → β → Pass Unit β}
  {nested : Fragment → β → Pass Unit β} {items : List Value}

theorem walkListed_kept (hfg : f.delimiter = g.delimiter) (hitems : ∀ v ∈ items, A.Impartial v)
    (first : Bool) (b : β) :
    walkListed (A.environment depth) visit f nested first items b =
      walkListed (A.environment depth) visit g nested first (A.kept f items) b := by
  induction items generalizing first b with
  | nil => rfl
  | cons v rest ih =>
    have hrest := ih fun w hw => hitems w (List.mem_cons_of_mem v hw)
    have hv : A.settle f v = A.settle g v := hitems v List.mem_cons_self f g
    cases hskip : A.skips f v with
    | true =>
      have hkept : A.kept f (v :: rest) = A.kept f rest := by
        rw [Reading.kept, List.filter_cons_of_neg (by simp [hskip])]
        rfl
      have hsettle : SqlFragments.settle (A.environment depth) f v = pure .skip := by
        rw [A.settle_environment, Reading.skips_eq_true_iff.mp hskip]
        rfl
      rw [hkept, ← hrest, walkListed, hsettle]
      simp [Content.kind, walkDelimiter, walkContent]
    | false =>
      have hkept : A.kept f (v :: rest) = v :: A.kept f rest :=
        List.filter_cons_of_pos (by simp [hskip])
      rw [hkept, walkListed, walkListed, A.settle_environment, A.settle_environment, hv]
      refine bind_congr fun c => ?_
      simp only [walkDelimiter, hfg, walkContent_congr hfg, hrest]

end Kept

namespace Fragment.Lists

variable {A : Reading} {f t : Fragment} {items : List Value} {d : String}
  (hf : f.Lists items d) (ht : t.SpellsOut (A.kept f items) d)
  (hitems : ∀ v ∈ items, A.Impartial v)

include hf ht hitems

/-- **A walk over a fragment that lists items** is a walk over the one with the delimiter written
out, for a visitor to whom empty text is nothing. -/
theorem walk_eq (depth n : Nat) {visit : Piece → β → Pass Unit β} (add : String → β → β)
    (hvisit : ∀ s b, visit (.literal s) b = pure (add s b)) (hempty : ∀ b, add "" b = b) (b : β) :
    f.walk (A.environment depth) visit n b = t.walk (A.environment depth) visit n b := by
  cases n with
  | zero => rfl
  | succ n =>
    have hdelimiter : f.delimiter = t.delimiter := hf.delimiter.trans ht.delimiter.symm
    have hlisted : walkGaps (A.environment depth) visit f
        (Fragment.walk (A.environment depth) visit n)
        (pairGaps (List.replicate (items.length + 1) "") items) none b = _ :=
      walkGaps_listed hvisit hempty hf.joined items none b
    have hnever : ∀ v ∈ A.kept f items, ∀ s s',
        SqlFragments.settle (A.environment depth) t v s ≠ .ok .skip s' := by
      intro v hv s s' hskip
      obtain ⟨hmem, hkept⟩ := List.mem_filter.mp hv
      rw [A.settle_environment, ← hitems v hmem f t] at hskip
      have hsettle : A.settle f v = .ok .skip := by
        cases hv : A.settle f v with
        | ok c =>
          rw [hv] at hskip
          cases hskip
          rfl
        | error e =>
          rw [hv] at hskip
          cases hskip
      rw [Reading.skips_eq_true_iff.mpr hsettle] at hkept
      cases hkept
    rw [walk, walk, gaps, gaps, hf.segments, hf.slots, ht.segments, ht.slots, hlisted,
      walkListed_kept depth hdelimiter hitems,
      walkGaps_spelledOut hvisit hempty ht.delimiter hnever (fun _ => rfl)]
    rfl

theorem write_eq (d' : Dialect) (n k : Nat) : A.write n d' k f = A.write n d' k t := by
  have hempty : ∀ x : String × Nat, (x.1 ++ "", x.2) = x := by simp
  rw [Reading.write, Reading.write, f.write_eq_walk, t.write_eq_walk,
    hf.walk_eq ht hitems n n (fun s x => (x.1 ++ s, x.2)) (fun _ _ => rfl) hempty]

theorem flatten_eq (d' : Dialect) (n : Nat) : A.flatten n d' f = A.flatten n d' t := by
  rw [A.flatten_eq_write, A.flatten_eq_write, hf.write_eq ht hitems]

theorem collect_eq (n : Nat) : A.collect n f = A.collect n t := by
  rw [Reading.collect, Reading.collect, Fragment.bindings, Fragment.bindings,
    f.collect_eq_walk, t.collect_eq_walk,
    hf.walk_eq ht hitems n _ (fun _ bs => bs) (fun _ _ => rfl) fun _ => rfl]

end Fragment.Lists

theorem Rendering.answer_lists {U : Rendering} {f t : Fragment} {items : List Value} {d : String}
    (hf : f.Lists items d) (ht : t.SpellsOut (U.reading.kept f items) d)
    (hitems : ∀ v ∈ items, U.reading.Impartial v) (r : Read) : U.answer f r = U.answer t r := by
  have hflatten : ∀ d', U.flatten d' f = U.flatten d' t := fun d' =>
    hf.flatten_eq ht hitems d' U.depth
  have hcollect : U.collect f = U.collect t := hf.collect_eq ht hitems U.depth
  cases r with
  | compile target =>
    rw [answer_compile, answer_compile, hcollect, hf.name, ht.name]
    simp only [hflatten]
  | _ => simp only [answer, hflatten, hcollect]

/-! ## Lists of fragments -/

/-- The pieces of fragments, with the delimiter between them. -/
def listedPieces (d : String) : (first : Bool) → List (List Piece) → List Piece
  | _, [] => [.literal ""]
  | first, ps :: rest =>
    .literal "" :: ((if first then [] else [.literal d]) ++ (ps ++ listedPieces d false rest))

section Members

variable {A : Reading} {f : Fragment} {gs : List Fragment} {d : String}

theorem outcome_bind_unit {α : Type} (p : Pass Unit α) (q : α → Pass Unit β) :
    outcome (p >>= q) () = outcome p () >>= fun a => outcome (q a) () := by
  rw [outcome_bind, outcome]
  cases p () <;> rfl

theorem outcome_mapM {α : Type} (xs : List α) (p : α → Pass Unit β) :
    outcome (xs.mapM p) () = xs.mapM fun x => outcome (p x) () := by
  induction xs with
  | nil => rfl
  | cons x xs ih =>
    rw [List.mapM_cons, List.mapM_cons, outcome_bind_unit]
    refine bind_congr fun y => ?_
    rw [outcome_bind_unit, ih]
    rfl

theorem mapM_map {m : Type → Type} [Monad m] [LawfulMonad m] {α γ δ : Type} (g : γ → δ)
    (x : α → m γ) (xs : List α) : (xs.mapM fun a => g <$> x a) = List.map g <$> xs.mapM x := by
  induction xs with
  | nil => simp
  | cons a xs ih => simp [ih]

theorem mapM_ok_mono {α γ : Type} {x y : α → Except Failure γ}
    (h : ∀ a c, x a = .ok c → y a = .ok c) {xs : List α} {cs : List γ} (hx : xs.mapM x = .ok cs) :
    xs.mapM y = .ok cs := by
  induction xs generalizing cs with
  | nil => exact hx
  | cons a xs ih =>
    rw [List.mapM_cons] at hx ⊢
    obtain ⟨c, hc, hx⟩ := bind_eq_ok_iff.mp hx
    obtain ⟨cs', hcs', hok⟩ := bind_eq_ok_iff.mp hx
    rw [h a c hc, ih hcs']
    exact hok

theorem Reading.flatten_succ {n : Nat} {d' : Dialect} {g : Fragment} {t : String}
    (h : A.flatten n d' g = .ok t) : A.flatten (n + 1) d' g = .ok t := by
  have hwrite := h
  rw [flatten_eq_write] at hwrite
  obtain ⟨x, hx, -⟩ := map_eq_ok_iff.mp hwrite
  obtain ⟨ps, hps⟩ := pieces_of_write hx
  rw [flatten_of_pieces hps] at h
  rw [flatten_of_pieces (pieces_mono hps (Nat.le_succ n)), h]

theorem Reading.collect_succ {n : Nat} {g : Fragment} {bs : List Bound}
    (h : A.collect n g = .ok bs) : A.collect (n + 1) g = .ok bs := by
  rw [collect_eq_pieces] at h ⊢
  obtain ⟨ps, hps, hbs⟩ := map_eq_ok_iff.mp h
  rw [pieces_mono hps (Nat.le_succ n)]
  exact congrArg Except.ok hbs

theorem walkGaps_members (env : Environment σ) (n : Nat) (hf : f.joined = true)
    (hd : f.delimiter = d) (previous : Option SlotKind) (qs : List Piece) :
    walkGaps env notePiece f (Fragment.walk env notePiece n)
        (pairGaps (List.replicate (gs.length + 1) "") (gs.map .fragment)) previous qs =
      (fun pss => qs ++ listedPieces d previous.isNone pss) <$> gs.mapM (·.pieces env n) := by
  induction gs generalizing previous qs with
  | nil => simp [pairGaps, walkGaps, listedPieces, notePiece]
  | cons g rest ih =>
    have hnested : ∀ qs, g.walk env notePiece n qs = (qs ++ ·) <$> g.pieces env n := by
      intro qs
      rw [g.walk_eq_pieces env notePiece_eq]
      simp only [foldl_noted]
    have hdelimiter : walkDelimiter notePiece f
        (SlotKind.fragment != .skip && f.separates previous .fragment) (qs ++ [.literal ""]) =
        (pure (qs ++ (.literal "" :: if previous.isNone then [] else [.literal d])) :
          Pass σ (List Piece)) := by
      cases previous <;> simp [Fragment.separates, walkDelimiter, hf, hd, notePiece]
    rw [List.length_cons, List.replicate_succ, List.map_cons, pairGaps, walkGaps]
    simp [notePiece_eq, settle, resolve, Value.classify, settleResolved, Content.kind, hdelimiter,
      walkContent, hnested, kindAfter, ih, listedPieces]

theorem boundValues_append (ps qs : List Piece) :
    boundValues (ps ++ qs) = boundValues ps ++ boundValues qs := List.filterMap_append

theorem boundValues_listedPieces (d : String) (first : Bool) (pss : List (List Piece)) :
    boundValues (listedPieces d first pss) = (pss.map boundValues).flatten := by
  induction pss generalizing first with
  | nil => rfl
  | cons ps rest ih =>
    cases first <;> simp [listedPieces, boundValues_append, ih]

theorem spell_constant {token : Nat → String} {t : String} (ht : ∀ k, token k = t) (k l : Nat)
    (ps : List Piece) : spell token k ps = spell token l ps := by
  induction ps generalizing k l with
  | nil => rfl
  | cons p ps ih =>
    cases p with
    | literal s => rw [spell_literal, spell_literal, ih k l]
    | bound b => rw [spell_bound, spell_bound, ht, ht, ih (k + 1) (l + 1)]

theorem dropNewlines_intercalate (d t : String) (ts : List String) :
    dropNewlines (d.intercalate (t :: ts)) =
      dropNewlines t ++ String.join (ts.map fun t => dropNewlines d ++ dropNewlines t) := by
  induction ts generalizing t with
  | nil => simp [String.join]
  | cons u ts ih =>
    rw [String.intercalate_cons_cons, dropNewlines_append, dropNewlines_append, ih, List.map_cons,
      String.join_cons]
    simp only [String.append_assoc]

theorem spell_listedPieces {token : Nat → String} {t : String} (ht : ∀ k, token k = t) (d : String)
    (pss : List (List Piece)) :
    dropNewlines (spell token 1 (listedPieces d true pss)) =
      dropNewlines (d.intercalate (pss.map fun ps => dropNewlines (spell token 1 ps))) := by
  have happend : ∀ ps qs, spell token 1 (ps ++ qs) = spell token 1 ps ++ spell token 1 qs := by
    intro ps qs
    rw [spell_append, spell_constant ht (1 + _) 1]
  have hlater : ∀ pss, dropNewlines (spell token 1 (listedPieces d false pss)) =
      String.join ((pss.map fun ps => dropNewlines (spell token 1 ps)).map fun t =>
        dropNewlines d ++ dropNewlines t) := by
    intro pss
    induction pss with
    | nil => rfl
    | cons ps rest ih =>
      simp [listedPieces, spell_literal, happend, dropNewlines_append, dropNewlines_dropNewlines,
        ih,
        String.join_cons, String.append_assoc]
  cases pss with
  | nil => rfl
  | cons ps rest =>
    rw [List.map_cons, dropNewlines_intercalate, ← hlater, dropNewlines_dropNewlines]
    simp [listedPieces, spell_literal, happend, dropNewlines_append]

namespace Fragment.Lists

variable (hf : f.Lists (gs.map .fragment) d)

include hf

/-- **The pieces of a fragment that lists fragments** are theirs, with the delimiter in between. -/
theorem pieces_eq (n : Nat) :
    A.pieces (n + 1) f = listedPieces d true <$> gs.mapM (A.pieces n) := by
  have hwalk : walkGaps (A.environment (n + 1)) notePiece f _
      (pairGaps (List.replicate (gs.length + 1) "") (gs.map .fragment)) none [] = _ :=
    walkGaps_members (A.environment (n + 1)) n hf.joined hf.delimiter none []
  have hmembers : ∀ g : Fragment,
      outcome (g.pieces (A.environment (n + 1)) n) () = A.pieces n g := by
    intro g
    rw [Fragment.pieces, A.walk_environment (n + 1) n]
    rfl
  rw [Reading.pieces, Fragment.pieces, walk, gaps, hf.segments, hf.slots, List.length_map, hwalk,
    outcome_map, outcome_mapM]
  simp only [hmembers]
  rfl

/-- **A list of fragments** has their statements, with the delimiter in between. -/
theorem flatten_members {d' : Dialect} {token : Nat → String} {t : String} (hd' : d'.Writes token)
    (ht : ∀ k, token k = t) (n : Nat) :
    A.flatten (n + 1) d' f =
      (fun ts => dropNewlines (d.intercalate ts)) <$> gs.mapM (A.flatten n d') := by
  have hmembers : A.flatten n d' = fun g =>
      (fun ps => dropNewlines (spell token 1 ps)) <$> A.pieces n g := funext fun g =>
    A.flatten_eq_pieces n hd'
  rw [A.flatten_eq_pieces _ hd', hf.pieces_eq, hmembers, mapM_map, Functor.map_map, Functor.map_map]
  simp only [spell_listedPieces ht]

/-- **A list of fragments** has their values, one after the other. -/
theorem collect_members (n : Nat) :
    A.collect (n + 1) f = List.flatten <$> gs.mapM (A.collect n) := by
  have hmembers : A.collect n = fun g => boundValues <$> A.pieces n g := funext fun g =>
    A.collect_eq_pieces n
  rw [A.collect_eq_pieces, hf.pieces_eq, hmembers, mapM_map, Functor.map_map, Functor.map_map]
  simp only [boundValues_listedPieces]

end Fragment.Lists

end Members

/-- **A list is its items with the delimiter written out.** However a fragment comes to list items,
it has the text and the values of the fragment that holds the items that are not skipped, with the
delimiter as text between them. If all items are fragments, these are their statements with the
delimiter in between, and their values one after the other. -/
theorem listing_spelled_out (U : Rendering) (items : List Value) (d : String) :
    let A := U.reading
    -- fragments that list the items
    (∀ {ω : Type} (s : Session ω) (v : Value), v.sequenceItems? s.heap = some items →
      (∃ f s', Fragment.join v (.str d) s = .ok f s' ∧ f.Lists items d) ∧
      ∀ e, ∃ f s' g s'', Fragment.join v (.str e) s = .ok f s' ∧
        f.joinBy (.str d) s' = .ok g s'' ∧ g.Lists items d) ∧
    (∀ {ω : Type} (s : Session ω) (b : Builder), b.profile.joinDelimiter = .str d →
      (∀ pieces, items.head? ≠ some (.segments pieces)) →
      (∀ t, items.head? ≠ some (.template t)) →
        ∃ f s', b.call items s = .ok f s' ∧ f.Lists items d) ∧
    -- fragments with the delimiter written out
    (∀ {ω : Type} (s : Session ω) (kept : List Value), ∃ t s',
      Fragment.make (.tuple ((spelledOut d true kept.length).map .str)) (.tuple kept) (.str d) .null
        s = .ok t s' ∧ t.SpellsOut kept d) ∧
    spelledOut d true 0 = [""] ∧
    (∀ n, spelledOut d true (n + 1) = "" :: (List.replicate n d ++ [""])) ∧
    -- the same text and the same values
    ((∀ v ∈ items, A.Impartial v) → ∀ f t, f.Lists items d → t.SpellsOut (A.kept f items) d →
      (∀ d' n k, A.write n d' k f = A.write n d' k t) ∧ (∀ n, A.collect n f = A.collect n t) ∧
      (∀ r, U.answer f r = U.answer t r) ∧
      ∀ {ω : Type} {host : Host ω} {known pool next}, host.depth = U.depth →
        host.environment.Follows A (Session.Sound U known pool next) known → A.Closed known →
        f ∈ pool → t ∈ pool → known (.fragment f) → known (.fragment t) → ∀ r : Read,
          Gives (Session.Sound U known pool next) (r.perform host f) (U.answer t r) ∧
          Gives (Session.Sound U known pool next) (r.perform host t) (U.answer t r)) ∧
    -- items that are all fragments
    ∀ (gs : List Fragment) f, items = gs.map .fragment → f.Lists items d → ∀ n,
      A.flatten (n + 1) .mysql f =
        (fun ts => dropNewlines (d.intercalate ts)) <$> gs.mapM (A.flatten n .mysql) ∧
      A.collect (n + 1) f = List.flatten <$> gs.mapM (A.collect n) ∧
      (∀ sql, A.flatten n .mysql f = .ok sql → ∃ ts, gs.mapM (A.flatten n .mysql) = .ok ts ∧
        sql = dropNewlines (d.intercalate ts)) ∧
      ∀ bs, A.collect n f = .ok bs → ∃ bss, gs.mapM (A.collect n) = .ok bss ∧
        bs = bss.flatten := by
  intro A
  refine ⟨fun s v hv => ⟨?_, fun e => ?_⟩, fun s b hb hsegments htemplate => ?_,
    fun s kept => Fragment.make_spellsOut kept d s, spelledOut_zero d, spelledOut_succ d,
    fun hitems f t hf ht => ?_, fun gs f hgs hf n => ?_⟩
  · obtain ⟨f, s', hjoin, -, hf⟩ := Fragment.join_lists hv d
    exact ⟨f, s', hjoin, hf⟩
  · obtain ⟨f, s', hjoin, -, hf⟩ := Fragment.join_lists hv e
    obtain ⟨g, s'', hg, hlists⟩ := hf.joinBy d s'
    exact ⟨f, s', g, s'', hjoin, hg, hlists⟩
  · obtain ⟨f, s', hjoin, -, hf⟩ := Fragment.join_lists (s := s) (v := .tuple items) rfl d
    refine ⟨f, s', ?_, hf⟩
    rw [Builder.call_of_items hsegments htemplate, hb]
    exact hjoin
  · have hanswer := fun r => Rendering.answer_lists hf ht hitems r
    refine ⟨fun d' n k => hf.write_eq ht hitems d' n k, fun n => hf.collect_eq ht hitems n, hanswer,
      fun hdepth hfollows hc hfp htp hkf hkt r => ⟨?_, r.perform_gives hdepth hfollows hc htp hkt⟩⟩
    rw [← hanswer r]
    exact r.perform_gives hdepth hfollows hc hfp hkf
  · subst hgs
    have hflatten : ∀ n, A.flatten (n + 1) .mysql f = _ := fun n =>
      hf.flatten_members Dialect.writes_mysql (t := "?") (fun _ => rfl) n
    refine ⟨hflatten n, hf.collect_members n, fun sql h => ?_, fun bs h => ?_⟩
    · cases n with
      | zero => cases h
      | succ n =>
        obtain ⟨ts, hts, rfl⟩ := map_eq_ok_iff.mp ((hflatten n).symm.trans h)
        exact ⟨ts, mapM_ok_mono (fun g t => Reading.flatten_succ) hts, rfl⟩
    · cases n with
      | zero => cases h
      | succ n =>
        obtain ⟨bss, hbss, rfl⟩ := map_eq_ok_iff.mp ((hf.collect_members n).symm.trans h)
        exact ⟨bss, mapM_ok_mono (fun g bs => Reading.collect_succ) hbss, rfl⟩

/-- A fragment, a skipped item, a callable that answers a tuple, and a scalar, listed by a delimiter
with a line break in it. -/
theorem listing_spelled_out_mixed :
    let g : Fragment := ⟨1, ["x"], false, [], "", none, false⟩
    let c : Value := .callable ⟨0, "c"⟩
    let f : Fragment := ⟨2, List.replicate 5 "", false, [.fragment g, .skip, c, .int 5], ",\n",
      none, true⟩
    let t : Fragment := ⟨3, ["", ",\n", ",\n", ""], false, [.fragment g, c, .int 5], ",\n", none,
      false⟩
    let U : Rendering :=
      ⟨⟨fun _ => [], fun _ _ => .ok (.tuple [.fragment g, .fragment g])⟩, 2, .initial⟩
    U.answer f .sql = .ok (.text "x,x,x,?") ∧ U.answer t .sql = .ok (.text "x,x,x,?") ∧
      U.answer f .values = .ok (.values [.scalar (.int 5)]) ∧
      U.answer t .values = .ok (.values [.scalar (.int 5)]) := by
  intro g c f t U
  obtain ⟨-, -, -, -, -, hsame, -⟩ :=
    listing_spelled_out U [.fragment g, .skip, c, .int 5] ",\n"
  have hitems : ∀ v ∈ [.fragment g, .skip, c, .int 5], U.reading.Impartial v := fun v _ =>
    Reading.impartial_of_answer (fun _ _ _ _ => rfl) fun _ _ _ _ _ _ _ => rfl
  obtain ⟨-, -, hanswer, -⟩ := hsame hitems f t ⟨rfl, rfl, rfl, rfl, rfl⟩ ⟨rfl, rfl, rfl, rfl, rfl⟩
  have htext : U.answer t .sql = .ok (.text "x,x,x,?") := by
    have hpieces : U.reading.pieces 2 t = .ok [.literal "", .literal "x", .literal ",\n",
        .literal "x", .literal ",\n", .literal "x", .literal ",\n", .bound (.scalar (.int 5)),
        .literal ""] := rfl
    have hflatten : U.flatten .mysql t = .ok "x,x,x,?" := by
      rw [Rendering.flatten, Reading.flatten_eq_pieces _ _ Dialect.writes_mysql, hpieces]
      rfl
    exact congrArg (Answer.text <$> ·) hflatten
  have hvalues : U.answer t .values = .ok (.values [.scalar (.int 5)]) := rfl
  exact ⟨(hanswer .sql).trans htext, htext, (hanswer .values).trans hvalues, hvalues⟩

end SqlFragments
