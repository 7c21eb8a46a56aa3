import SqlFragments.Proofs.Sound

/-!
# Values that are handed out

The bound values of a fragment are handed out in a new list object, with a new list object for each
group. No scalar among them is a list object, so what was collected can be read off again.

* `boundsIn`: the bound values that a list object stands for.
* `Bound.Plain`: a bound value that is no list object by itself.
* **`Fragment.bindings_plain`**: lists are bound as groups only.
* **`handOut_eq`**: what is handed out stands for what was collected.
* **`Fragment.values_gives`**: the values of a fragment, as they are handed out.
-/

namespace SqlFragments

variable {σ ω : Type}

/-! ## Lists are groups -/

def Bound.Plain : Bound → Prop
  | scalar v => ∀ r, v ≠ .list r
  | group _ => True

def Content.Plain (c : Content) : Prop := ∀ v, c = .scalar v → (Bound.scalar v).Plain

theorem Value.classify_ne_list (v : Value) (r : ListRef) : v.classify ≠ .scalar (.list r) := by
  intro h
  cases v <;> cases h

theorem resolve_ne_list (env : Environment σ) (owner : Fragment) (v : Value) :
    Lockstep Eq (fun r r' => r = r' ∧ ∀ l, r ≠ .scalar (.list l)) (resolve env owner v)
      (resolve env owner v) := by
  unfold resolve
  cases v.callable? with
  | some c =>
    refine .bind (.refl _) ?_
    rintro v _ rfl
    exact .pure ⟨rfl, v.classify_ne_list⟩
  | none => exact .pure ⟨rfl, v.classify_ne_list⟩

theorem settle_plain (env : Environment σ) (owner : Fragment) (v : Value) :
    Lockstep Eq (fun x y => x = y ∧ x.Plain) (settle env owner v) (settle env owner v) := by
  refine .bind (resolve_ne_list env owner v) ?_
  rintro r _ ⟨rfl, hr⟩
  cases r with
  | fragment g =>
    refine .pure ⟨rfl, ?_⟩
    intro v hv
    cases hv
  | sequence s =>
    refine .bind (.refl _) ?_
    rintro rs _ rfl
    refine .pure ⟨rfl, ?_⟩
    intro v hv
    cases hv
  | scalar w =>
    refine .pure ⟨rfl, ?_⟩
    rintro _ hv l rfl
    cases hv
    exact hr l rfl
  | skip =>
    refine .pure ⟨rfl, ?_⟩
    intro v hv
    cases hv

theorem walksAlike_plain (env : Environment σ) :
    WalksAlike env env Eq Eq fun b b' => b = b' ∧ b.Plain := by
  refine .of_eq (fun _ _ => id) fun f _ v _ => (settle_plain env f v).mono ?_
  rintro x _ ⟨rfl, hx⟩
  exact Content.alike_self (fun _ _ => rfl) (fun v hv => ⟨rfl, hx v hv⟩) fun _ => ⟨rfl, trivial⟩

/-- **No list object is bound as a scalar.** -/
theorem Fragment.bindings_plain {env : Environment σ} {f : Fragment} {s s' : σ} {bs : List Bound}
    (h : f.bindings env s = .ok bs s') : ∀ b ∈ bs, b.Plain := by
  rw [Fragment.bindings, collect_eq_walk] at h
  have hv : VisitsAlike (Eq (α := σ)) (fun b b' => b = b' ∧ b.Plain)
      (fun bs bs' => bs = bs' ∧ ∀ b ∈ bs, b.Plain) keepBound keepBound := by
    constructor
    · rintro s bs _ ⟨rfl, hbs⟩
      exact .pure ⟨rfl, hbs⟩
    · rintro x _ bs _ ⟨rfl, hx⟩ ⟨rfl, hbs⟩
      refine .pure ⟨rfl, fun b hb => ?_⟩
      rcases List.mem_append.mp hb with hb | hb
      · exact hbs b hb
      · rw [List.mem_singleton.mp hb]
        exact hx
  have hwalk := f.walk_lockstep (walksAlike_plain env) hv env.depth rfl
    (b := []) (c := []) ⟨rfl, fun b hb => by cases hb⟩ s s rfl
  rw [h] at hwalk
  obtain ⟨_, _, -, ⟨-, hplain⟩, -⟩ := hwalk.ok_left
  exact hplain

theorem Reading.collect_plain {A : Reading} {depth : Nat} {f : Fragment} {bs : List Bound}
    (h : A.collect depth f = .ok bs) : ∀ b ∈ bs, b.Plain := by
  unfold collect outcome at h
  split at h
  · next hok =>
    cases h
    exact Fragment.bindings_plain hok
  · cases h

/-! ## Handing out -/

/-- What an element of a list of values stands for. -/
def boundIn (h : Heap) : Value → Bound
  | .list r => .group (h.elements r)
  | v => .scalar v

/-- The bound values that a list object stands for. -/
def boundsIn (h : Heap) (r : ListRef) : List Bound := (h.elements r).map (boundIn h)

theorem boundIn_scalar (h : Heap) {v : Value} (hv : (Bound.scalar v).Plain) :
    boundIn h v = .scalar v := by
  cases v with
  | list r => exact absurd rfl (hv r)
  | _ => rfl

theorem newList_eq (items : List Value) (s : Session ω) :
    newList items s =
      .ok (.list s.heap.nextRef) { s with heap := s.heap.allocate items } := rfl

theorem holds_nextRef_allocate (h : Heap) (items : List Value) :
    (h.allocate items).Holds h.nextRef := by
  unfold Heap.Holds Heap.allocate Heap.nextRef
  rw [Array.size_push]
  exact Nat.lt_succ_self _

/-- **What is handed out stands for what was collected**, now and later. -/
theorem handOut_eq {bs : List Bound} (hbs : ∀ b ∈ bs, b.Plain) (s : Session ω) :
    ∃ items s', handOut bs s = .ok items s' ∧ s.Undisturbed s' ∧
      ∀ s'' : Session ω, s'.Undisturbed s'' → items.map (boundIn s''.heap) = bs := by
  induction bs generalizing s with
  | nil => exact ⟨[], s, rfl, .refl s, fun _ _ => rfl⟩
  | cons b rest ih =>
    have hrest : ∀ b ∈ rest, b.Plain := fun b hb => hbs b (List.mem_cons_of_mem _ hb)
    cases b with
    | scalar v =>
      obtain ⟨items, s', hout, hkept, hread⟩ := ih hrest s
      refine ⟨v :: items, s', ?_, hkept, fun s'' h => ?_⟩
      · rw [handOut, Pass.bind_ok hout]
        rfl
      · rw [List.map_cons, hread s'' h, boundIn_scalar _ (hbs _ List.mem_cons_self)]
    | group vs =>
      let s₁ : Session ω := { s with heap := s.heap.allocate vs }
      obtain ⟨items, s', hout, hkept, hread⟩ := ih hrest s₁
      refine ⟨.list s.heap.nextRef :: items, s', ?_, (s.undisturbed_allocate vs).trans hkept,
        fun s'' h => ?_⟩
      · rw [handOut, Pass.bind_ok (newList_eq vs s), Pass.bind_ok hout]
        rfl
      · have hgroup : s''.heap.elements s.heap.nextRef = vs := by
          obtain ⟨-, he⟩ := (hkept.trans h).lists _ (holds_nextRef_allocate s.heap vs)
          rw [he]
          exact s.heap.elements_allocate_self vs
        rw [List.map_cons, hread s'' h, boundIn, hgroup]

namespace Fragment

variable {host : Host ω} {U : Rendering} {known : Value → Prop} {pool : List Fragment}
  {next : Nat → Prop}
  (hdepth : host.depth = U.depth)
  (hfollows : host.environment.Follows U.reading (Session.Sound U known pool next) known)
  (hc : U.reading.Closed known) {f : Fragment} (hf : f ∈ pool) (hk : known (.fragment f))

include hdepth hfollows hc hf hk

/-- **The values of a fragment** come in a list object that stands for what collecting afresh gives,
now and later. -/
theorem values_gives {s : Session ω} (hs : s.Sound U known pool next) :
    (∃ bs r s', U.collect f = .ok bs ∧ s'.Sound U known pool next ∧ f.values host s = .ok r s' ∧
      ∀ s'' : Session ω, s'.Undisturbed s'' → boundsIn s''.heap r = bs) ∨
    (∃ e s', U.collect f = .error e ∧ s'.Sound U known pool next ∧
      f.values host s = .error e s') := by
  obtain ⟨s₁, hs₁, hrun⟩ := memoValues_gives hdepth hfollows hc hf hk s hs
  cases hcollect : U.collect f with
  | error e =>
    rw [hcollect] at hrun
    exact .inr ⟨e, s₁, rfl, hs₁, Pass.bind_error hrun _⟩
  | ok bs =>
    rw [hcollect] at hrun
    obtain ⟨items, s₂, hout, hkept, hread⟩ := handOut_eq (Reading.collect_plain hcollect) s₁
    have hnew := s₂.undisturbed_allocate items
    refine .inl ⟨bs, s₂.heap.nextRef, { s₂ with heap := s₂.heap.allocate items }, rfl,
      (hs₁.of_undisturbed hkept).of_undisturbed hnew, ?_, fun s'' h => ?_⟩
    · rw [values, Pass.bind_ok hrun, Pass.bind_ok hout]
      rfl
    · obtain ⟨-, he⟩ := h.lists _ (holds_nextRef_allocate s₂.heap items)
      unfold boundsIn
      rw [he]
      change List.map _ ((s₂.heap.allocate items).elements s₂.heap.nextRef) = bs
      rw [Heap.elements_allocate_self]
      exact hread s'' (hnew.trans h)

end Fragment

end SqlFragments
