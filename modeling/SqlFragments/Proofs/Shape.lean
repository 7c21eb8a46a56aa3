import SqlFragments.Proofs.Moments
import SqlFragments.Proofs.Separation

/-!
# The shape of fragments

The arguments of a fragment are checked in order, and the first one of the wrong kind is refused.
Whichever way a fragment was made, what it is made of has passed such a check, and a fragment that
lists items has an empty segment around each of them.

* `Fragment.offenders`: the arguments of the wrong kind, in order.
  **`Fragment.firstRefused_parts`**, **`Fragment.offenders_eq_nil_iff`**,
  **`Fragment.make_firstRefused`**: the first one decides.
* **`Builder.call_taken`**: what the three ways to call a builder take.
* `Fragment.Built`: a fragment from any of the ways to make one.
  **`Fragment.Built.segments_of_joined`**: the segments of one that lists items.
* `Work`, `afterWork`: histories in which text is taken as it is, too. **`afterWork_built`**: all
  fragments in them were built.
* **`fragments_keep_their_shape`**.
-/

namespace SqlFragments

variable {ω : Type}

/-! ## Arguments of the wrong kind -/

namespace Value

def isText : Value → Bool
  | str _ => true
  | _ => false

def isName : Value → Bool
  | null | str _ => true
  | _ => false

theorem isText_iff {v : Value} : v.isText = true ↔ ∃ s, v = .str s := by
  cases v <;> simp [isText]

theorem isName_iff {v : Value} : v.isName = true ↔ v = .null ∨ ∃ s, v = .str s := by
  cases v <;> simp [isName]

end Value

section Checks

variable (h : Heap)

/-- Arguments of the wrong kind, of which the first one is refused; without any, all is well. -/
def FirstRefused {α : Type} (x : Except Failure α) : List (Argument × Value) → Prop
  | [] => ∃ a, x = .ok a
  | (a, v) :: _ => x = .error (.invalid h a v)

/-- An argument, if it is of the wrong kind. -/
def wrongUnless (right : Bool) (a : Argument) (v : Value) : List (Argument × Value) :=
  if right then [] else [(a, v)]

namespace Fragment

/-- Segments that are no sequence, or the elements of them that are no strings. -/
def segmentOffenders (segments : Value) : List (Argument × Value) :=
  match segments.sequenceItems? h with
  | none => [(.segments, segments)]
  | some items => (items.filter fun v => !v.isText).map fun v => (.segment, v)

/-- The arguments that are of the wrong kind, in the order in which they are checked. -/
def offenders (segments slots delimiter name : Value) : List (Argument × Value) :=
  segmentOffenders h segments ++ (wrongUnless slots.isSequence .slots slots ++
    (wrongUnless delimiter.isText .initialDelimiter delimiter ++
      wrongUnless name.isName .name name))

end Fragment

variable {h} {α β : Type}

theorem FirstRefused.bind {x : Except Failure α} {f : α → Except Failure β}
    {os os' : List (Argument × Value)} (hx : FirstRefused h x os)
    (hf : ∀ a, FirstRefused h (f a) os') : FirstRefused h (x >>= f) (os ++ os') := by
  cases os with
  | nil =>
    obtain ⟨a, rfl⟩ := hx
    exact hf a
  | cons o os =>
    cases hx
    rfl

theorem firstRefused_strings (items : List Value) :
    FirstRefused h ((Value.strings items).mapError (.invalid h .segment))
      ((items.filter fun v => !v.isText).map fun v => (.segment, v)) := by
  induction items with
  | nil => exact ⟨[], rfl⟩
  | cons v rest ih =>
    cases v with
    | str s =>
      -- a string in front changes neither what is refused nor whether anything is
      have hstrings : Value.strings (.str s :: rest) = (Value.strings rest).map (s :: ·) := rfl
      have hfilter : ((Value.str s :: rest).filter fun v => !v.isText) =
          rest.filter fun v => !v.isText := rfl
      rw [hstrings, hfilter]
      cases hrest : rest.filter fun v => !v.isText with
      | nil =>
        rw [hrest] at ih
        obtain ⟨ss, hss⟩ := ih
        cases hok : Value.strings rest with
        | ok ts => exact ⟨s :: ts, rfl⟩
        | error e =>
          rw [hok] at hss
          cases hss
      | cons o os =>
        rw [hrest] at ih
        cases hok : Value.strings rest with
        | ok ts =>
          rw [hok] at ih
          cases ih
        | error e =>
          rw [hok] at ih
          exact ih
    | _ => rfl

namespace Fragment

theorem firstRefused_segmentsOf (segments : Value) :
    FirstRefused h (segmentsOf h segments) (segmentOffenders h segments) := by
  unfold segmentsOf segmentOffenders
  cases segments.sequenceItems? h with
  | none => rfl
  | some items => exact firstRefused_strings items

theorem firstRefused_slotsOf (slots : Value) :
    FirstRefused h (slotsOf h slots) (wrongUnless slots.isSequence .slots slots) := by
  rw [← slots.isSome_sequenceItems? h]
  unfold slotsOf
  cases slots.sequenceItems? h with
  | none => rfl
  | some items => exact ⟨items, rfl⟩

theorem firstRefused_textArgument (a : Argument) (v : Value) :
    FirstRefused h (textArgument h a v) (wrongUnless v.isText a v) := by
  cases v with
  | str s => exact ⟨s, rfl⟩
  | _ => rfl

theorem firstRefused_nameOf (v : Value) :
    FirstRefused h (nameOf h v) (wrongUnless v.isName .name v) := by
  cases v with
  | null => exact ⟨none, rfl⟩
  | str s => exact ⟨some s, rfl⟩
  | _ => rfl

/-- **The first argument of the wrong kind is refused.** -/
theorem firstRefused_parts (segments slots delimiter name : Value) :
    FirstRefused h (parts h segments slots delimiter name)
      (offenders h segments slots delimiter name) := by
  have hlast : ∀ ss vs d, FirstRefused h
      (do
        let n ← nameOf h name
        pure (⟨ss, isMarked segments, vs, d, n⟩ : FragmentParts))
      (wrongUnless name.isName .name name) := by
    intro ss vs d
    rw [← List.append_nil (wrongUnless name.isName .name name)]
    exact (firstRefused_nameOf name).bind fun n => ⟨⟨ss, isMarked segments, vs, d, n⟩, rfl⟩
  exact (firstRefused_segmentsOf segments).bind fun ss =>
    (firstRefused_slotsOf slots).bind fun vs =>
      (firstRefused_textArgument .initialDelimiter delimiter).bind fun d => hlast ss vs d

/-- **No argument is of the wrong kind**, spelled out. -/
theorem offenders_eq_nil_iff {segments slots delimiter name : Value} :
    offenders h segments slots delimiter name = [] ↔
      (∃ items, segments.sequenceItems? h = some items ∧ ∀ v ∈ items, ∃ s, v = .str s) ∧
      slots.isSequence = true ∧ (∃ d, delimiter = .str d) ∧
      (name = .null ∨ ∃ n, name = .str n) := by
  have hwrong : ∀ (right : Bool) (a : Argument) (v : Value),
      wrongUnless right a v = [] ↔ right = true := by
    intro right a v
    cases right <;> simp [wrongUnless]
  have hsegments : segmentOffenders h segments = [] ↔
      ∃ items, segments.sequenceItems? h = some items ∧ ∀ v ∈ items, ∃ s, v = .str s := by
    unfold segmentOffenders
    cases segments.sequenceItems? h with
    | none => simp
    | some items => simp [List.filter_eq_nil_iff, Value.isText_iff]
  rw [offenders, List.append_eq_nil_iff, List.append_eq_nil_iff, List.append_eq_nil_iff, hsegments,
    hwrong, hwrong, hwrong, Value.isText_iff, Value.isName_iff]

end Fragment

end Checks

/-! ## What is taken -/

section Taken

variable {h : Heap} {s s' : Session ω} {f g : Fragment}
  {segments slots items delimiter name v : Value}

namespace Fragment

theorem parts_taken {p : FragmentParts} (hp : parts h segments slots delimiter name = .ok p) :
    delimiter = .str p.delimiter ∧ name = .ofName p.name := by
  obtain ⟨ss, -, hp⟩ := bind_eq_ok_iff.mp hp
  obtain ⟨vs, -, hp⟩ := bind_eq_ok_iff.mp hp
  obtain ⟨d, hd, hp⟩ := bind_eq_ok_iff.mp hp
  obtain ⟨n, hn, hp⟩ := bind_eq_ok_iff.mp hp
  cases hp
  constructor
  · cases delimiter <;> cases hd
    rfl
  · cases name <;> cases hn <;> rfl

theorem ofParts_taken {joined : Bool} {x : Except Failure FragmentParts}
    (hf : ofParts joined x s = .ok f s') :
    ∃ p, x = .ok p ∧ f = p.toFragment joined s.freshFragment := by
  cases x with
  | ok p =>
    cases hf
    exact ⟨p, rfl, rfl⟩
  | error e => cases hf

/-- **A fragment takes strings** for its segments, its delimiter and its name. -/
theorem make_taken (hf : make segments slots delimiter name s = .ok f s') :
    segments.sequenceItems? s.heap = some (f.segments.map .str) ∧
      slots.sequenceItems? s.heap = some f.slots ∧ delimiter = .str f.delimiter ∧
      name = .ofName f.name ∧ f.joined = false := by
  obtain ⟨p, hp, rfl⟩ := ofParts_taken hf
  obtain ⟨hsegments, hslots⟩ := parts_eq_ok hp
  obtain ⟨hdelimiter, hname⟩ := parts_taken hp
  exact ⟨hsegments, hslots, hdelimiter, hname, rfl⟩

/-- **A fragment that lists items** takes a string for its delimiter. -/
theorem join_taken (hf : join items delimiter s = .ok f s') :
    items.sequenceItems? s.heap = some f.slots ∧ delimiter = .str f.delimiter ∧ f.name = none ∧
      f.joined = true ∧ f.segments = List.replicate (f.slots.length + 1) "" := by
  obtain ⟨p, hp, rfl⟩ := ofParts_taken hf
  have hslots := joinParts_slots hp
  have hsegments := joinParts_eq_ok hp
  unfold joinParts at hp
  split at hp
  · cases hp
  · obtain ⟨hdelimiter, hname⟩ := parts_taken hp
    have hnone : p.name = none := by
      cases hp : p.name with
      | none => rfl
      | some n =>
        rw [hp] at hname
        cases hname
    exact ⟨hslots, hdelimiter, hnone, rfl, hsegments⟩

/-- **A clone** differs in its identity and in the one field, which takes a string. -/
theorem joinBy_taken (hg : f.joinBy v s = .ok g s') :
    v = .str g.delimiter ∧ g.segments = f.segments ∧ g.slots = f.slots ∧ g.name = f.name ∧
      g.joined = f.joined := by
  cases v with
  | str d =>
    rw [joinBy_str] at hg
    split_ifs at hg with hsame
    · cases hg
      exact ⟨congrArg Value.str hsame, rfl, rfl, rfl, rfl⟩
    · cases hg
      exact ⟨rfl, rfl, rfl, rfl, rfl⟩
  | _ => cases hg

theorem setName_taken (hg : f.setName v s = .ok g s') :
    (∃ n, v = .str n ∧ g.name = some n) ∧ g.segments = f.segments ∧ g.slots = f.slots ∧
      g.delimiter = f.delimiter ∧ g.joined = f.joined := by
  cases v with
  | str n =>
    rw [setName_str] at hg
    split_ifs at hg with hsame
    · cases hg
      exact ⟨⟨n, rfl, hsame.symm⟩, rfl, rfl, rfl, rfl⟩
    · cases hg
      exact ⟨⟨n, rfl, rfl⟩, rfl, rfl, rfl, rfl⟩
  | _ => cases hg

end Fragment

theorem pieceFragment_taken {pieces values : List Value}
    (hf : pieceFragment pieces values s = .ok f s') :
    pieces = f.segments.map .str ∧ values = f.slots ∧ f.joined = false := by
  obtain ⟨hsegments, hslots, -, -, hjoined⟩ := Fragment.make_taken hf
  exact ⟨Option.some.inj hsegments, Option.some.inj hslots, hjoined⟩

/-- **The three ways to call a builder**, whatever its profile: literal pieces in front, a
template, or items to list, separated by the delimiter of the profile. All that is taken for text
is a string. -/
theorem Builder.call_taken {b : Builder} {args : List Value} (hf : b.call args s = .ok f s') :
    (args = .segments (f.segments.map .str) :: f.slots ∧ f.joined = false) ∨
    (∃ id strings, args = [.template ⟨id, strings, some f.slots⟩] ∧
      strings.iterate? s.heap = some (f.segments.map .str) ∧ f.joined = false) ∨
    (args = f.slots ∧ b.profile.joinDelimiter = .str f.delimiter ∧ f.joined = true ∧
      f.segments = List.replicate (f.slots.length + 1) "") := by
  unfold call at hf
  split at hf
  · next pieces values =>
    obtain ⟨rfl, rfl, hjoined⟩ := pieceFragment_taken hf
    exact .inl ⟨rfl, hjoined⟩
  · next id strings values rest =>
    split_ifs at hf with hrest
    · obtain ⟨pieces, s₁, hpieces, hmake⟩ := Pass.bind_eq_ok hf
      obtain ⟨rfl, rfl, hjoined⟩ := pieceFragment_taken hmake
      refine .inr (.inl ⟨id, strings, ?_, iterate?_of_literalItems hpieces, hjoined⟩)
      rw [List.isEmpty_iff.mp hrest]
    · cases hf
  · obtain ⟨hslots, hdelimiter, -, hjoined, hsegments⟩ := Fragment.join_taken hf
    exact .inr (.inr ⟨Option.some.inj hslots, hdelimiter, hjoined, hsegments⟩)

/-- **Text as it is** becomes the one segment. -/
theorem Builder.raw_taken (hf : Builder.raw v s = .ok f s') :
    ∃ t, v = .str t ∧ f.segments = [t] ∧ f.slots = [] ∧ f.joined = false := by
  cases v with
  | str t =>
    obtain ⟨hsegments, hslots, -, -, hjoined⟩ := Fragment.make_taken hf
    have hone : [t] = f.segments := by
      have hmapped : [t].map Value.str = f.segments.map .str := Option.some.inj hsegments
      exact List.map_injective_iff.mpr (fun _ _ heq => Value.str.inj heq) hmapped
    exact ⟨t, rfl, hone.symm, (Option.some.inj hslots).symm, hjoined⟩
  | _ => cases hf

end Taken

/-! ## Fragments that were built -/

/-- A fragment from any of the ways to make one. -/
inductive Fragment.Built : Fragment → Prop
  | make {ω : Type} {s s' : Session ω} {segments slots delimiter name : Value} {f : Fragment}
      (h : Fragment.make segments slots delimiter name s = .ok f s') : Built f
  | join {ω : Type} {s s' : Session ω} {items delimiter : Value} {f : Fragment}
      (h : Fragment.join items delimiter s = .ok f s') : Built f
  | call {ω : Type} {s s' : Session ω} {b : Builder} {args : List Value} {f : Fragment}
      (h : b.call args s = .ok f s') : Built f
  | raw {ω : Type} {s s' : Session ω} {v : Value} {f : Fragment}
      (h : Builder.raw v s = .ok f s') : Built f
  | change {ω : Type} {s s' : Session ω} {c : Change} {f g : Fragment} (hf : Built f)
      (h : c.perform f s = .ok g s') : Built g

/-- **A fragment that lists items** has an empty segment around each of them. -/
theorem Fragment.Built.segments_of_joined {f : Fragment} (h : f.Built) (hjoined : f.joined = true) :
    f.segments = List.replicate (f.slots.length + 1) "" := by
  induction h with
  | make h =>
    obtain ⟨-, -, -, -, hno⟩ := make_taken h
    cases hno.symm.trans hjoined
  | join h =>
    obtain ⟨-, -, -, -, hsegments⟩ := join_taken h
    exact hsegments
  | call h =>
    rcases Builder.call_taken h with ⟨-, hno⟩ | ⟨_, _, -, -, hno⟩ | ⟨-, -, -, hsegments⟩
    · cases hno.symm.trans hjoined
    · cases hno.symm.trans hjoined
    · exact hsegments
  | raw h =>
    obtain ⟨_, -, -, -, hno⟩ := Builder.raw_taken h
    cases hno.symm.trans hjoined
  | @change _ _ _ c f g _ h ih =>
    have hsame : g.segments = f.segments ∧ g.slots = f.slots ∧ g.joined = f.joined := by
      cases c with
      | joinBy v =>
        obtain ⟨-, hsegments, hslots, -, hkept⟩ := joinBy_taken h
        exact ⟨hsegments, hslots, hkept⟩
      | setName v =>
        obtain ⟨-, hsegments, hslots, -, hkept⟩ := setName_taken h
        exact ⟨hsegments, hslots, hkept⟩
    rw [hsame.2.2] at hjoined
    rw [hsame.1, hsame.2.1]
    exact ih hjoined

/-! ## Histories -/

/-- A deed, or text that is taken as it is. -/
inductive Work (ω : Type) where
  | deed (x : Deed ω)
  | raw (v : Value)

def Work.perform (host : Host ω) (b : Bench (Session ω)) : Work ω → Bench (Session ω)
  | deed x => x.perform host b
  | raw v => b.build (Builder.raw v)

/-- A history of work, from a bench on. -/
def afterWork (host : Host ω) (b : Bench (Session ω)) (xs : List (Work ω)) : Bench (Session ω) :=
  xs.foldl (Work.perform host) b

section Histories

variable {host : Host ω} {b : Bench (Session ω)} (hb : ∀ f ∈ b.pool, f.Built)

include hb

theorem Bench.build_built {p : Op ω Fragment} (hp : ∀ s f s', p s = .ok f s' → f.Built) :
    ∀ f ∈ (b.build p).pool, f.Built := by
  intro f hf
  unfold build at hf
  cases hrun : p b.state with
  | ok g s' =>
    rw [hrun] at hf
    rcases List.mem_append.mp hf with hf | hf
    · exact hb f hf
    · rw [List.mem_singleton.mp hf]
      exact hp b.state g s' hrun
  | error e s' =>
    rw [hrun] at hf
    exact hb f hf

/-- **An act** leaves only fragments that were built. -/
theorem Act.perform_built (x : Act ω) : ∀ f ∈ (x.perform host b).pool, f.Built := by
  cases x with
  | step x =>
    cases x with
    | read i r =>
      rw [perform_read]
      cases b.pool[i]? with
      | none => exact hb
      | some f => exact hb
    | change i c =>
      intro f hf
      rw [perform, Step.perform] at hf
      cases hi : b.pool[i]? with
      | none =>
        rw [hi] at hf
        exact hb f hf
      | some g =>
        rw [hi] at hf
        cases hrun : c.perform g b.state with
        | ok g' s' =>
          simp only [hrun] at hf
          rcases List.mem_append.mp hf with hf | hf
          · exact hb f hf
          · rw [List.mem_singleton.mp hf]
            exact .change (hb g (List.mem_of_getElem? hi)) hrun
        | error e s' =>
          simp only [hrun] at hf
          exact hb f hf
  | make segments slots delimiter name => exact Bench.build_built hb fun _ _ _ h => .make h
  | join items delimiter => exact Bench.build_built hb fun _ _ _ h => .join h
  | call c args => exact Bench.build_built hb fun _ _ _ h => .call h
  | _ => exact hb

/-- **A piece of work** leaves only fragments that were built. -/
theorem Work.perform_built (x : Work ω) : ∀ f ∈ (x.perform host b).pool, f.Built := by
  cases x with
  | raw v => exact Bench.build_built hb fun _ _ _ h => .raw h
  | deed x =>
    cases x with
    | act x => exact Act.perform_built hb x
    | _ => exact hb

/-- **In a whole history** there are only fragments that were built. -/
theorem afterWork_built (xs : List (Work ω)) : ∀ f ∈ (afterWork host b xs).pool, f.Built := by
  induction xs generalizing b with
  | nil => exact hb
  | cons x xs ih => exact ih (Work.perform_built hb x)

end Histories

/-! ## The constructor -/

/-- **A fragment is made, or the first argument of the wrong kind is refused.** -/
theorem Fragment.make_firstRefused (s : Session ω) (segments slots delimiter name : Value) :
    match offenders s.heap segments slots delimiter name with
    | [] => ∃ f s', make segments slots delimiter name s = .ok f s'
    | (a, v) :: _ => make segments slots delimiter name s = .error (.invalid s.heap a v) s := by
  have hparts := firstRefused_parts (h := s.heap) segments slots delimiter name
  have hmake : make segments slots delimiter name s =
      ofParts false (parts s.heap segments slots delimiter name) s := rfl
  cases hoffenders : offenders s.heap segments slots delimiter name with
  | nil =>
    rw [hoffenders] at hparts
    obtain ⟨p, hp⟩ := hparts
    rw [hmake, hp]
    exact ⟨_, _, rfl⟩
  | cons o rest =>
    rw [hoffenders] at hparts
    rw [hmake, show parts s.heap segments slots delimiter name = _ from hparts]
    rfl

theorem Fragment.make_ok_iff {s : Session ω} {segments slots delimiter name : Value} :
    (∃ f s', make segments slots delimiter name s = .ok f s') ↔
      offenders s.heap segments slots delimiter name = [] := by
  have hmake := make_firstRefused s segments slots delimiter name
  cases hoffenders : offenders s.heap segments slots delimiter name with
  | nil =>
    rw [hoffenders] at hmake
    exact ⟨fun _ => rfl, fun _ => hmake⟩
  | cons o rest =>
    rw [hoffenders] at hmake
    refine ⟨?_, nofun⟩
    rintro ⟨f, s', hok⟩
    cases hok.symm.trans hmake

/-- **Fragments keep their shape.** A fragment is made exactly if the segments are a sequence of
strings, the slots a sequence, the delimiter a string, and the name a string or nothing; else the
first argument, or segment, that is of the wrong kind is refused, and nothing happens. What a
builder with any profile, text as it is, a joined fragment or a clone takes for its segments, its
delimiter and its name, are strings as well. However a fragment was built, it has an empty segment
around each of its slots if it lists items; and in a history of everything that can be done there
are no other fragments. -/
theorem fragments_keep_their_shape :
    (∀ {ω : Type} (s : Session ω) (segments slots delimiter name : Value),
      ((∃ f s', Fragment.make segments slots delimiter name s = .ok f s') ↔
        (∃ items, segments.sequenceItems? s.heap = some items ∧ ∀ v ∈ items, ∃ t, v = .str t) ∧
        slots.isSequence = true ∧ (∃ d, delimiter = .str d) ∧
        (name = .null ∨ ∃ n, name = .str n)) ∧
      (∀ f s', Fragment.make segments slots delimiter name s = .ok f s' →
        segments.sequenceItems? s.heap = some (f.segments.map .str) ∧
        slots.sequenceItems? s.heap = some f.slots ∧ delimiter = .str f.delimiter ∧
        name = .ofName f.name ∧ f.joined = false) ∧
      ∀ a v rest, Fragment.offenders s.heap segments slots delimiter name = (a, v) :: rest →
        Fragment.make segments slots delimiter name s = .error (.invalid s.heap a v) s) ∧
    (∀ {ω : Type} (s s' : Session ω) (f g : Fragment),
      (∀ items delimiter, Fragment.join items delimiter s = .ok f s' →
        items.sequenceItems? s.heap = some f.slots ∧ delimiter = .str f.delimiter ∧ f.name = none) ∧
      (∀ (b : Builder) args, b.call args s = .ok f s' →
        args = .segments (f.segments.map .str) :: f.slots ∨
        (∃ id strings, args = [.template ⟨id, strings, some f.slots⟩] ∧
          strings.iterate? s.heap = some (f.segments.map .str)) ∨
        args = f.slots ∧ b.profile.joinDelimiter = .str f.delimiter) ∧
      (∀ v, Builder.raw v s = .ok f s' → v.isText = true ∧ f.segments.map Value.str = [v]) ∧
      (∀ v, f.joinBy v s = .ok g s' → v = .str g.delimiter) ∧
      ∀ v, f.setName v s = .ok g s' → ∃ n, v = .str n ∧ g.name = some n) ∧
    (∀ f : Fragment, f.Built → f.joined = true →
      f.segments = List.replicate (f.slots.length + 1) "") ∧
    ∀ {ω : Type} (host : Host ω) (memory : ω) (xs : List (Work ω)),
      ∀ f ∈ (afterWork host (.initial memory) xs).pool, f.Built := by
  refine ⟨fun s segments slots delimiter name => ⟨?_, fun f s' hf => Fragment.make_taken hf, ?_⟩,
    fun s s' f g => ⟨?_, ?_, ?_, ?_, ?_⟩, fun f hf hjoined => hf.segments_of_joined hjoined,
    fun host memory xs =>
      afterWork_built (fun _ hf => absurd hf List.not_mem_nil) xs⟩
  · exact Fragment.make_ok_iff.trans Fragment.offenders_eq_nil_iff
  · intro a v rest hoffenders
    have hmake := Fragment.make_firstRefused s segments slots delimiter name
    rw [hoffenders] at hmake
    exact hmake
  · intro items delimiter hf
    obtain ⟨hslots, hdelimiter, hname, -⟩ := Fragment.join_taken hf
    exact ⟨hslots, hdelimiter, hname⟩
  · intro b args hf
    rcases Builder.call_taken hf with ⟨hargs, -⟩ | ⟨id, strings, hargs, hstrings, -⟩ |
      ⟨hargs, hdelimiter, -⟩
    · exact .inl hargs
    · exact .inr (.inl ⟨id, strings, hargs, hstrings⟩)
    · exact .inr (.inr ⟨hargs, hdelimiter⟩)
  · intro v hf
    obtain ⟨t, rfl, hsegments, -⟩ := Builder.raw_taken hf
    rw [hsegments]
    exact ⟨rfl, rfl⟩
  · exact fun v hg => (Fragment.joinBy_taken hg).1
  · exact fun v hg => (Fragment.setName_taken hg).1

end SqlFragments
