import SqlFragments.Proofs.Histories
import SqlFragments.Query.Compiled

/-!
# Deeds

Besides what is done to fragments, profiles and builders are made, builders compile, and compiled
queries are handed to a driver. What getters maintain, and making objects as well, every deed keeps.

* `Deed`, `Deed.perform`, `afterDeeds`: what can be done with the library, and a history of it.
* **`Host.Maintains.compile`**, **`Host.Maintains.makeBuilder`**: what compiling and making builders
  keep.
* **`Deed.keeps`**: what a deed keeps. **`afterDeeds_keeps`**: what a whole history keeps.
-/

namespace SqlFragments

variable {ω : Type}

inductive Deed (ω : Type) where
  | act (x : Act ω)
  | profile (fields : List (String × Value))
  | copyProfile (p : Profile) (fields : List (String × Value))
  | builder (profile : Value)
  | compile (b : Builder) (fragment target : Value)
  | asTuple (q : CompiledQuery)
  | asConfig (q : CompiledQuery)

def Deed.perform (host : Host ω) (b : Bench (Session ω)) : Deed ω → Bench (Session ω)
  | act x => x.perform host b
  | profile fields => b.run (Profile.make fields)
  | copyProfile p fields => b.run (p.copyWith fields)
  | builder v => b.run (Builder.make v)
  | compile c fragment target => b.run (c.compile host fragment target)
  | asTuple q => b.run q.asTuple
  | asConfig q => b.run q.asConfig

/-- A history of deeds, from a bench on. -/
def afterDeeds (host : Host ω) (b : Bench (Session ω)) (xs : List (Deed ω)) : Bench (Session ω) :=
  xs.foldl (Deed.perform host) b

theorem afterDeeds_append (host : Host ω) (b : Bench (Session ω)) (xs ys : List (Deed ω)) :
    afterDeeds host b (xs ++ ys) = afterDeeds host (afterDeeds host b xs) ys := List.foldl_append

/-! ## What deeds keep -/

namespace Host.Maintains

variable {host : Host ω} {I : Session ω → Prop} (h : host.Maintains I)

include h

theorem textOf (v : Value) : Keeps I (textOf host v) := by
  cases v with
  | fragment f => exact h.text f _ _
  | _ => exact .get_bind fun s => .pure _

/-- **Compiling** for any target. -/
theorem compile (f : Fragment) (target : Value) : Keeps I (f.compile host target) := by
  have hrender : Keeps I (f.render host target) := by
    refine (h.textOf target).bind fun name => (h.createDialect target).bind fun o => ?_
    refine (h.text f _ _).bind fun text => ?_
    exact (h.handedOut f).bind fun params => .pure (text, params)
  have hid : Keeps I freshId := h.fresh
  exact hrender.bind fun x => hid.bind fun id => .pure _

theorem compileBuilt (b : Builder) (fragment target : Value) :
    Keeps I (b.compile host fragment target) := by
  refine .get_bind fun s => ?_
  cases fragment with
  | fragment f => exact h.compile f _
  | _ => exact .throw _

theorem ofEntries (entries : List (Value × Value)) : Keeps I (Profile.ofEntries entries) := by
  have hid : Keeps I freshId := h.fresh
  unfold Profile.ofEntries
  split
  · exact .throw _
  · exact hid.bind fun id => .pure _

theorem copyWith (p : Profile) (fields : List (String × Value)) :
    Keeps I (p.copyWith fields : Op ω Profile) := by
  have hid : Keeps I freshId := h.fresh
  exact hid.bind fun id => .pure _

/-- **Making a builder**, also if its target is refused. -/
theorem makeBuilder (profile : Value) : Keeps I (Builder.make profile) := by
  have hid : Keeps I freshId := h.fresh
  have hmade : ∀ p : Profile, Keeps I (do
      let _ ← SqlFragments.createDialect p.target
      let id ← freshId
      pure (⟨id, p⟩ : Builder)) :=
    fun p => (h.createDialect p.target).bind fun _ => hid.bind fun id => .pure _
  refine .get_bind fun s => ?_
  dsimp only
  split_ifs
  · exact (h.ofEntries _).bind hmade
  · split
    · exact hmade _
    · exact .throw _

theorem paramsCopy (q : CompiledQuery) : Keeps I q.paramsCopy := by
  have hnew : ∀ items, Keeps I (newList items) := fun items s hs => h.allocate s items hs
  refine .get_bind fun s => ?_
  split
  · exact hnew _
  · exact .throw _

theorem asTuple (q : CompiledQuery) : Keeps I q.asTuple := (h.paramsCopy q).bind fun _ => .pure _

theorem asConfig (q : CompiledQuery) : Keeps I q.asConfig := (h.paramsCopy q).bind fun _ => .pure _

end Host.Maintains

/-- **A deed keeps** what getters maintain, if it does where it is an act other than a read. -/
theorem Deed.keeps {host : Host ω} {I : Session ω → Prop} (h : host.Maintains I) {x : Deed ω}
    {b : Bench (Session ω)}
    (hact : ∀ y, x = .act y → y.isRead = false → I (y.perform host b).state)
    (hb : I b.state) : I (x.perform host b).state := by
  cases x with
  | act y => exact Act.keeps h.read (hact y rfl) hb
  | profile fields => exact h.ofEntries _ b.state hb
  | copyProfile p fields => exact h.copyWith p fields b.state hb
  | builder v => exact h.makeBuilder v b.state hb
  | compile c fragment target => exact h.compileBuilt c fragment target b.state hb
  | asTuple q => exact h.asTuple q b.state hb
  | asConfig q => exact h.asConfig q b.state hb

/-- **A whole history keeps** what each of its deeds keeps. -/
theorem afterDeeds_keeps {host : Host ω} {I : Bench (Session ω) → Prop}
    (hstep : ∀ (x : Deed ω) b, I b → I (x.perform host b)) (xs : List (Deed ω))
    {b : Bench (Session ω)} (hb : I b) : I (afterDeeds host b xs) := by
  induction xs generalizing b with
  | nil => exact hb
  | cons x xs ih => exact ih (hstep x b hb)

end SqlFragments
