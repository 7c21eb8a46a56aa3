import SqlFragments.Proofs.Composition
import SqlFragments.Proofs.Moments

/-!
# Placeholders and values of one query

The text and the values of a compiled query may have been made at two moments. They belong together
if the list objects that the fragment can come across held the same at both.

* **`Registry.writes_of_initial`**: the built-in dialects write all placeholders.
* **`compiled_query_aligned`**: where the text and the values come from, and when each placeholder
  stands for the value in its place.
* **`compile_misses_append`**: a text with two placeholders, and one value.
-/

namespace SqlFragments

variable {ω : Type}

theorem Dialect.writes_named : Dialect.named.Writes fun k => ":" ++ parameterName (toString k) := by
  intro k hk
  rw [Dialect.named.placeholder_int (Int.ofNat_le.mpr hk)]
  rfl

/-- **The built-in dialects** write a placeholder for every ordinal. -/
theorem Registry.writes_of_initial {t : String} {c : DialectClass} {d : Dialect}
    (hc : Registry.initial.class? t = some c) (hd : c.dialect? = some d) :
    ∃ token, d.Writes token := by
  simp only [class?, initial, Table.ofList, List.foldl_cons, List.foldl_nil, Table.get?_insert,
    Table.get?_empty] at hc
  split_ifs at hc <;> cases hc <;> cases hd
  · exact ⟨_, Dialect.writes_named⟩
  · exact ⟨_, Dialect.writes_sqlite⟩
  · exact ⟨_, Dialect.writes_mysql⟩
  · exact ⟨_, Dialect.writes_postgres⟩

theorem dialectFor_of_initial {host : Host ω} {answer : Callable → Fragment → Except Failure Value}
    (hhost : host.Obeys answer) {memory : ω} {xs : List (Act ω)}
    (hxs : ∀ name c, .register name c ∉ xs) {t : String} {d : Dialect} {depth : Nat}
    (hd : ((after host (.initial memory) xs).state.rendering answer depth).dialectFor t = .ok d) :
    ∃ c, Registry.initial.class? t = some c ∧ c.dialect? = some d := by
  obtain ⟨c, hc, hcd⟩ := Rendering.dialectFor_eq_ok_iff.mp hd
  have hclass := after_class? hhost (b := .initial memory) (t := t) (hxs t)
  exact ⟨c, hclass.symm.trans hc, hcd⟩

/-- **The text of a compiled query** spells the pieces of the fragment at one moment, with one
placeholder for each bound value among them; **its values** are the bound values among the pieces at
another moment. The pieces are the same if the fragment is compiled with nothing kept, or if no list
object that it can come across was appended to between the two moments: then the query has as many
placeholders as values, each for the value in its place. -/
theorem compiled_query_aligned {host : Host ω}
    {answer : Callable → Fragment → Except Failure Value} (hhost : host.Obeys answer) {memory : ω}
    {xs : List (Act ω)} (hxs : ∀ name c, .register name c ∉ xs) {f : Fragment} {t : String}
    {a : Answer} {s' : Session ω} (hf : f ∈ (after host (.initial memory) xs).pool)
    (h : (Read.compile t).perform host f (after host (.initial memory) xs).state = .ok a s') :
    let session := fun xs => (after host (.initial memory) xs).state
    let pieces := fun xs => ((session xs).reading answer).pieces host.depth f
    let texts := fun s : Session ω => (s.cacheOf f).texts.get? (.target t)
    let values := fun s : Session ω => (s.cacheOf f).values
    ∃ c d token text params ys zs ps ys' zs' qs,
      a = .query (.str text) params (.str t) (.ofName f.name) ∧
      Registry.initial.class? t = some c ∧ c.dialect? = some d ∧ d.Writes token ∧
      (xs = ys ++ zs ∧ KeptSince host (.initial memory) texts ys zs text ∧ pieces ys = .ok ps ∧
        text = dropNewlines (markText (marks token 1 ps)) ∧
        (marks token 1 ps).filterMap Mark.token? =
          (List.range' 1 (boundValues ps).length).map token) ∧
      (xs = ys' ++ zs' ∧ KeptSince host (.initial memory) values ys' zs' params ∧
        pieces ys' = .ok qs ∧ params = boundValues qs) ∧
      (texts (session xs) = none → values (session xs) = none → ps = qs) ∧
      ∀ ws us us', ys = ws ++ us → ys' = ws ++ us' → (session ws).Untouched answer f us →
        (session ws).Untouched answer f us' → ps = qs := by
  intro session pieces texts values
  obtain ⟨text, params, rfl, ⟨ys, zs, d, hys, htext, hd, hflatten⟩, ys', zs', hys', hvalues,
    hcollect⟩ := Read.compile_moments hhost hf h
  have hregister : ∀ name c, .register name c ∉ ys := by
    intro name c hmem
    rw [hys] at hxs
    exact hxs name c (List.mem_append_left zs hmem)
  obtain ⟨c, hc, hcd⟩ := dialectFor_of_initial hhost hregister hd
  obtain ⟨token, hwrites⟩ := Registry.writes_of_initial hc hcd
  rw [Rendering.flatten, Reading.flatten_eq_pieces _ _ hwrites] at hflatten
  obtain ⟨ps, hps, hspell⟩ := map_eq_ok_iff.mp hflatten
  rw [Rendering.collect, Reading.collect_eq_pieces] at hcollect
  obtain ⟨qs, hqs, hbound⟩ := map_eq_ok_iff.mp hcollect
  have hsame : ∀ {ws}, pieces ys = pieces ws → pieces ys' = pieces ws → ps = qs := by
    intro ws hleft hright
    have hboth : Except.ok ps = Except.ok qs := hps.symm.trans (hleft.trans (hright.symm.trans hqs))
    exact Except.ok.inj hboth
  refine ⟨c, d, token, text, params, ys, zs, ps, ys', zs', qs, rfl, hc, hcd, hwrites,
    ⟨hys, htext, hps, hspell.symm, placeholders_marks token 1 ps⟩,
    ⟨hys', hvalues, hqs, hbound.symm⟩, fun hnone hnone' => ?_,
    fun ws us us' hus hus' hstay hstay' => ?_⟩
  · have hleft : pieces ys = pieces xs := by
      rw [hys] at hnone ⊢
      rw [← htext.eq_of_absent hnone]
    have hright : pieces ys' = pieces xs := by
      rw [hys'] at hnone' ⊢
      rw [← hvalues.eq_of_absent hnone']
    exact hsame hleft hright
  · have hstays : ∀ us, (session ws).Untouched answer f us → pieces (ws ++ us) = pieces ws := by
      intro us hstay
      have hlater : session (ws ++ us) = (after host (after host (.initial memory) ws) us).state :=
        congrArg Bench.state (after_append host _ ws us)
      change ((session (ws ++ us)).reading answer).pieces host.depth f = _
      rw [hlater]
      exact hstay.pieces_eq hhost host.depth
    rw [hus] at hsame
    rw [hus'] at hsame
    exact hsame (hstays us hstay) (hstays us' hstay')

/-- A fragment is compiled after its list was appended to, with nothing kept. -/
theorem compiled_query_aligned_list :
    let host : Host Unit := ⟨fun _ _ => pure .null, 1⟩
    let f : Fragment := ⟨0, ["id IN ", ""], false, [.list ⟨0⟩], "", none, false⟩
    let params : List Bound := [.group [.int 1, .int 2]]
    let b := after host (.initial ()) [.list [.int 1],
      .make (.tuple [.str "id IN ", .str ""]) (.tuple [.list ⟨0⟩]) (.str "") .null,
      .append ⟨0⟩ (.int 2)]
    f ∈ b.pool ∧ ∃ s' token ps, (Read.compile "postgres").perform host f b.state =
        .ok (.query (.str "id IN $1") params (.str "postgres") .null) s' ∧
      "id IN $1" = dropNewlines (markText (marks token 1 ps)) ∧ boundValues ps = params ∧
      (marks token 1 ps).filterMap Mark.token? = [token 1] := by
  intro host f params b
  let A : Reading := b.state.reading fun _ _ => .ok .null
  have hhost : host.Obeys fun _ _ => .ok .null := .of_call fun _ _ _ => rfl
  have hf : f ∈ b.pool := List.mem_singleton.mpr rfl
  have hsettle : A.settle f (.list ⟨0⟩) = .ok (.runs [.group [.int 1, .int 2]]) :=
    Reading.settle_list rfl rfl rfl
  have hparts := Reading.parts_one_slot rfl rfl hsettle
  have hflatten : A.flatten 1 .postgres f = .ok "id IN $1" := by
    rw [Reading.flatten_of_pieces (Reading.pieces_of_spliced hparts
      (.piece _ (.piece _ (.piece _ .nil))))]
    rfl
  obtain ⟨s', h⟩ : ∃ s', (Read.compile "postgres").perform host f b.state =
      .ok (.query (.str "id IN $1") params (.str "postgres") .null) s' :=
    Read.compile_ok hhost _ rfl (.inr ⟨rfl, hflatten⟩) (.inr ⟨rfl, rfl⟩)
  obtain ⟨c, d, token, text, params', ys, zs, ps, ys', zs', qs, ha, -, -, -,
    ⟨-, -, -, htext, hmarks⟩, ⟨-, -, -, hparams⟩, hsame, -⟩ :=
    compiled_query_aligned hhost (by simp) hf h
  cases ha
  cases hsame rfl rfl
  rw [← hparams] at hmarks
  exact ⟨hf, s', token, ps, h, htext, hparams.symm, hmarks⟩

/-- **A compiled query need not be aligned.** The values of a fragment are read, a fragment is
appended to its list, and it is compiled: there are two placeholders, and one value. -/
theorem compile_misses_append :
    let host : Host Unit := ⟨fun _ _ => pure .null, 2⟩
    let f : Fragment := ⟨0, ["id IN ", ""], false, [.list ⟨0⟩], "", none, false⟩
    let g : Fragment := ⟨1, [" OR id = ", ""], false, [.int 2], "", none, false⟩
    let b := after host (.initial ()) [.list [.int 1],
      .make (.tuple [.str "id IN ", .str ""]) (.tuple [.list ⟨0⟩]) (.str "") .null,
      .make (.tuple [.str " OR id = ", .str ""]) (.tuple [.int 2]) (.str "") .null,
      .step (.read 0 .values), .append ⟨0⟩ (.fragment g)]
    f ∈ b.pool ∧ ∃ s', (Read.compile "mysql").perform host f b.state =
      .ok (.query (.str "id IN ? OR id = ?") [.group [.int 1]] (.str "mysql") .null) s' := by
  intro host f g b
  let A : Reading := b.state.reading fun _ _ => .ok .null
  have hhost : host.Obeys fun _ _ => .ok .null := .of_call fun _ _ _ => rfl
  have hg := A.pieces_scalar_slot (f := g) rfl rfl rfl 0
  have hsettle : A.settle f (.list ⟨0⟩) = .ok (.runs [.group [.int 1], .fragment g false]) :=
    Reading.settle_list rfl rfl rfl
  have hparts := Reading.parts_one_slot rfl rfl hsettle
  have hflatten : A.flatten 2 .mysql f = .ok "id IN ? OR id = ?" := by
    rw [Reading.flatten_of_pieces (Reading.pieces_of_spliced hparts
      (.piece _ (.piece _ (.nested hg (.piece _ .nil)))))]
    rfl
  exact ⟨List.mem_cons_self,
    Read.compile_ok hhost _ (d := .mysql) rfl (.inr ⟨rfl, hflatten⟩) (.inl rfl)⟩

end SqlFragments
