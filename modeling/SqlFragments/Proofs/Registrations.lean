import SqlFragments.Proofs.Composition
import SqlFragments.Proofs.Moments

/-!
# Targets that are registered again

A fragment keeps a text for each target it was compiled for, and the registry does not know. So a
compiled text is of the dialect that was registered when the fragment was compiled for the target
first, whatever the target is registered for since.

* **`after_dialectFor`**: a target has the same dialect until it is registered again.
* **`compile_keeps_first_dialect`**: which dialect a compiled text is of, when that is the dialect
  of the present, and that the text stays.
* **`compile_misses_registration`**: a compiled text need not be of the dialect of the present.
-/

namespace SqlFragments

variable {ω : Type}

theorem after_dialectFor {host : Host ω} {answer : Callable → Fragment → Except Failure Value}
    (hhost : host.Obeys answer) {b : Bench (Session ω)} {t : String} {xs : List (Act ω)}
    (hxs : ∀ c, .register t c ∉ xs) {depth : Nat} {d : Dialect}
    (hd : (b.state.rendering answer depth).dialectFor t = .ok d) :
    ((after host b xs).state.rendering answer depth).dialectFor t = .ok d := by
  obtain ⟨c, hc, hcd⟩ := Rendering.dialectFor_eq_ok_iff.mp hd
  exact Rendering.dialectFor_eq_ok_iff.mpr ⟨c, (after_class? hhost hxs).trans hc, hcd⟩

theorem dialectFor_after_register (host : Host ω) (b : Bench (Session ω)) (t : String)
    (answer : Callable → Fragment → Except Failure Value) (depth : Nat) {c : DialectClass}
    {d : Dialect} (hd : c.dialect? = some d) :
    ((after host b [.register t c]).state.rendering answer depth).dialectFor t = .ok d := by
  have hclass : (b.state.registry.register t c).class? t = some c := by
    rw [Registry.class?_register, if_pos rfl]
  exact Rendering.dialectFor_eq_ok_iff.mpr ⟨c, hclass, hd⟩

/-- **A compiled text is of the dialect of its first compile.** It was made at the end of `ys`, from
the dialect that was registered then and what list objects held then. It is of the dialect that is
registered now if the target was not registered again since, and what the fragment renders to with
it now if no list object it can come across was appended to. Whatever happens afterwards, as long as
the target is registered for any dialect, the fragment compiles to the same. -/
theorem compile_keeps_first_dialect {host : Host ω}
    {answer : Callable → Fragment → Except Failure Value} (hhost : host.Obeys answer) {memory : ω}
    {xs : List (Act ω)} {f : Fragment} {t : String} {a : Answer} {s' : Session ω}
    (hf : f ∈ (after host (.initial memory) xs).pool)
    (h : (Read.compile t).perform host f (after host (.initial memory) xs).state = .ok a s') :
    let session := fun xs => (after host (.initial memory) xs).state
    let U := fun xs => (session xs).rendering answer host.depth
    (∃ ys zs d text, xs = ys ++ zs ∧ a.statement? = some (.str text) ∧
      KeptSince host (.initial memory) (fun s => (s.cacheOf f).texts.get? (.target t)) ys zs text ∧
      (U ys).dialectFor t = .ok d ∧ (U ys).flatten d f = .ok text ∧
      (((session xs).cacheOf f).texts.get? (.target t) = none → ys = xs) ∧
      ((∀ c, .register t c ∉ zs) → (U xs).dialectFor t = .ok d) ∧
      ((session ys).Untouched answer f zs → (U xs).flatten d f = .ok text)) ∧
    ∀ vs, let s := (after host ⟨(after host (.initial memory) xs).pool, s'⟩ vs).state
      ∀ d, (s.rendering answer host.depth).dialectFor t = .ok d →
        ∃ s'', (Read.compile t).perform host f s = .ok a s'' := by
  intro session U
  refine ⟨?_, fun vs d hd => Read.compile_again hhost hf h vs hd⟩
  obtain ⟨text, bs, rfl, ⟨ys, zs, d, rfl, hsince, hd, hflatten⟩, -⟩ :=
    Read.compile_moments hhost hf h
  have hlater : session (ys ++ zs) = (after host (after host (.initial memory) ys) zs).state :=
    congrArg Bench.state (after_append host _ ys zs)
  refine ⟨ys, zs, d, text, rfl, rfl, hsince, hd, hflatten, fun hnone => ?_, fun hzs => ?_,
    fun hstay => ?_⟩
  · exact hsince.eq_of_absent hnone
  · change ((session (ys ++ zs)).rendering answer host.depth).dialectFor t = .ok d
    rw [hlater]
    exact after_dialectFor hhost hzs hd
  · change ((session (ys ++ zs)).reading answer).flatten host.depth d f = .ok text
    rw [hlater, hstay.flatten_eq hhost]
    exact hflatten

/-- A fragment is compiled for a target, the target is registered for another dialect, and the
fragment is compiled once more. -/
theorem compile_keeps_first_dialect_oracle :
    let dialect : String → Dialect := fun lead => ⟨"oracle", (TokenShape.around lead "").render⟩
    let host : Host Unit := ⟨fun _ _ => pure .null, 1⟩
    let f : Fragment := ⟨0, ["a = ", ""], false, [.int 1], "", none, false⟩
    let q : Answer := .query (.str "a = :1") [.scalar (.int 1)] (.str "oracle") .null
    let b := after host (.initial ()) [.register "oracle" (.ofDialect 16 "Colon" (dialect ":")),
      .make (.tuple [.str "a = ", .str ""]) (.tuple [.int 1]) (.str "") .null]
    f ∈ b.pool ∧ ∃ s₁ s₂, (Read.compile "oracle").perform host f b.state = .ok q s₁ ∧
      (Read.compile "oracle").perform host f (after host ⟨b.pool, s₁⟩
        [.register "oracle" (.ofDialect 17 "Percent" (dialect "%"))]).state = .ok q s₂ := by
  intro dialect host f q b
  have hhost : host.Obeys fun _ _ => .ok .null := .of_call fun _ _ _ => rfl
  have hf : f ∈ b.pool := List.mem_singleton.mpr rfl
  have hflatten : (b.state.reading fun _ _ => .ok .null).flatten 1 (dialect ":") f =
      .ok "a = :1" := by
    rw [Reading.flatten_of_pieces (Reading.pieces_scalar_slot rfl rfl rfl 0)]
    rfl
  obtain ⟨s₁, h₁⟩ : ∃ s₁, (Read.compile "oracle").perform host f b.state = .ok q s₁ :=
    Read.compile_ok hhost _ rfl (.inr ⟨rfl, hflatten⟩) (.inr ⟨rfl, rfl⟩)
  obtain ⟨-, hagain⟩ := compile_keeps_first_dialect hhost hf h₁
  obtain ⟨s₂, h₂⟩ := hagain [.register "oracle" (.ofDialect 17 "Percent" (dialect "%"))] _
    (dialectFor_after_register host _ "oracle" _ _ rfl)
  exact ⟨hf, s₁, s₂, h₁, h₂⟩

/-- **A compiled text need not be of the dialect that is registered at present.** -/
theorem compile_misses_registration :
    ¬ ∀ (host : Host Unit) (answer : Callable → Fragment → Except Failure Value)
      (xs : List (Act Unit)) (f : Fragment) (t : String) (a : Answer) (s' : Session Unit),
      host.Obeys answer → (∀ r v, .append r v ∉ xs) → f ∈ (after host (.initial ()) xs).pool →
      (Read.compile t).perform host f (after host (.initial ()) xs).state = .ok a s' →
        let U := (after host (.initial ()) xs).state.rendering answer host.depth
        ∃ d text, U.dialectFor t = .ok d ∧ U.flatten d f = .ok text ∧
          a.statement? = some (.str text) := by
  intro hfollows
  let dialect : String → Dialect := fun lead => ⟨"oracle", (TokenShape.around lead "").render⟩
  let host : Host Unit := ⟨fun _ _ => pure .null, 1⟩
  let answer : Callable → Fragment → Except Failure Value := fun _ _ => .ok .null
  let f : Fragment := ⟨0, ["a = ", ""], false, [.int 1], "", none, false⟩
  let xs : List (Act Unit) := [.register "oracle" (.ofDialect 16 "Colon" (dialect ":")),
    .make (.tuple [.str "a = ", .str ""]) (.tuple [.int 1]) (.str "") .null]
  let more : Act Unit := .register "oracle" (.ofDialect 17 "Percent" (dialect "%"))
  have hhost : host.Obeys answer := .of_call fun _ _ _ => rfl
  have hflatten : ∀ A : Reading, A.flatten 1 (dialect ":") f = .ok "a = :1" ∧
      A.flatten 1 (dialect "%") f = .ok "a = %1" := by
    intro A
    have hpieces := A.pieces_scalar_slot (f := f) rfl rfl rfl 0
    rw [Reading.flatten_of_pieces hpieces, Reading.flatten_of_pieces hpieces]
    exact ⟨rfl, rfl⟩
  have hf : f ∈ (after host (.initial ()) xs).pool := List.mem_singleton.mpr rfl
  obtain ⟨s₁, h₁⟩ := Read.compile_ok hhost xs (f := f) (t := "oracle") (d := dialect ":") rfl
    (.inr ⟨rfl, (hflatten _).1⟩) (.inr ⟨rfl, rfl⟩)
  have hpercent : ∀ b : Bench (Session Unit),
      ((after host b [more]).state.rendering answer 1).dialectFor "oracle" = .ok (dialect "%") :=
    fun b => dialectFor_after_register host b "oracle" answer 1 rfl
  obtain ⟨s₂, h₂⟩ := Read.compile_again hhost hf h₁ [more] (hpercent _)
  have hafter : after host (.initial ()) (xs ++ [.step (.read 0 (.compile "oracle"))] ++ [more]) =
      after host ⟨(after host (.initial ()) xs).pool, s₁⟩ [more] := by
    rw [after_append, after_read rfl h₁]
  rw [← hafter] at h₂
  obtain ⟨d, text, hd, htext, hsql⟩ := hfollows host answer _ f "oracle" _ s₂ hhost
    (by simp [xs, more]) (by rw [hafter]; exact hf) h₂
  rw [hafter] at hd htext
  cases hd.symm.trans (hpercent _)
  cases htext.symm.trans (hflatten _).2
  simp [Answer.statement?] at hsql

end SqlFragments
