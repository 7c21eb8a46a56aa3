import SqlFragments.Proofs.Outcomes
import SqlFragments.Proofs.ReadBack
import SqlFragments.Proofs.Alignment
import SqlFragments.Query.NamedParameters

/-!
# Values bound by name

A statement with named placeholders is handed over as text, and its parameters are read from that
text again. A placeholder is found if it stands apart from the characters next to it. A colon
behind it, as in a cast, is enough to hide it; then its value cannot be bound, and there is no
clause.

* **`mem_namesAfter_iff`**: what is read as a parameter. `StandsApart`: a placeholder with nothing
  next to it that hides it. **`mem_namesIn_of_standsApart`**: it is read.
* **`Clause.bindFrom_ok`**, **`Clause.bindFrom_error`**: binding values in turn.
* **`Fragment.render_of_compile`**: a compile, taken apart.
* **`clause_binds_found_parameters`**: when a fragment becomes a clause, and with which values.
* **`clause_misses_cast`**: a value that is not bound.
-/

namespace SqlFragments

variable {ω : Type}

/-! ## Reading the parameters -/

section Names

variable {stops : Char → Bool} {previous : Option Char} {before after word : List Char}
  {name : String}

theorem wordAtStart_append (hne : word ≠ []) (hword : ∀ c ∈ word, isWordChar c = true)
    (hafter : ∀ c ∈ after.head?, isWordChar c = false ∧ stops c = false) :
    wordAtStart stops (word ++ after) = some word := by
  induction word with
  | nil => exact absurd rfl hne
  | cons c rest ih =>
    rw [List.cons_append, wordAtStart, if_pos (hword c List.mem_cons_self)]
    cases rest with
    | cons d rest =>
      rw [ih (List.cons_ne_nil d rest) fun e he => hword e (List.mem_cons_of_mem c he)]
    | nil =>
      cases after with
      | nil => rfl
      | cons d after =>
        obtain ⟨hd, hstops⟩ := hafter d rfl
        rw [List.nil_append, wordAtStart, if_neg (by simp [hd])]
        simp [hstops]

theorem mem_namesAfter_cons {c : Char} {rest : List Char} :
    name ∈ namesAfter stops previous (c :: rest) ↔
      (c = ':' ∧ ¬ previous.any blocksParameter ∧
        ∃ word, wordAtStart stops rest = some word ∧ name = String.ofList word) ∨
      name ∈ namesAfter stops (some c) rest := by
  rw [namesAfter]
  split_ifs with hstart
  · cases hword : wordAtStart stops rest with
    | none => simp
    | some word => simp [hstart]
  · constructor
    · exact .inr
    · rintro (⟨hc, hprevious, -⟩ | hmore)
      · exact absurd ⟨hc, hprevious⟩ hstart
      · exact hmore

/-- **What is read as a parameter**: the word behind a colon, wherever the character before the
colon does not prevent it. -/
theorem mem_namesAfter_iff {cs : List Char} :
    name ∈ namesAfter stops previous cs ↔ ∃ before after word, cs = before ++ ':' :: after ∧
      ¬ (before.getLast?.or previous).any blocksParameter ∧
      wordAtStart stops after = some word ∧ name = String.ofList word := by
  induction cs generalizing previous with
  | nil => simp [namesAfter]
  | cons c rest ih =>
    rw [mem_namesAfter_cons, ih]
    constructor
    · rintro (⟨rfl, hprevious, word, hword, rfl⟩ | ⟨before, after, word, rfl, hlast, hword, rfl⟩)
      · exact ⟨[], rest, word, rfl, hprevious, hword, rfl⟩
      · refine ⟨c :: before, after, word, rfl, ?_, hword, rfl⟩
        rw [List.getLast?_cons]
        cases h : before.getLast? <;> rw [h] at hlast <;> exact hlast
    · rintro ⟨_ | ⟨d, before⟩, after, word, hsplit, hlast, hword, rfl⟩
      · cases hsplit
        exact .inl ⟨rfl, hlast, word, hword, rfl⟩
      · cases hsplit
        refine .inr ⟨before, after, word, rfl, ?_, hword, rfl⟩
        rw [List.getLast?_cons] at hlast
        cases h : before.getLast? <;> rw [h] at hlast <;> exact hlast

/-- Neither the character before a placeholder nor the one behind it hides it. -/
def StandsApart (before after : List Char) : Prop :=
  ¬ before.getLast?.any blocksParameter ∧ ∀ c ∈ after.head?, c ≠ ':' ∧ isWordChar c = false

/-- **A placeholder that stands apart is read**, if only colons and word characters stop a word. -/
theorem mem_namesIn_of_standsApart (hstops : ∀ c, stops c = true → c = ':' ∨ isWordChar c = true)
    (hne : word ≠ []) (hword : ∀ c ∈ word, isWordChar c = true) (hapart : StandsApart before after)
    {text : String} (htext : text.toList = before ++ ':' :: (word ++ after)) :
    String.ofList word ∈ namesIn stops text := by
  obtain ⟨hbefore, hafter⟩ := hapart
  refine mem_namesAfter_iff.mpr ⟨before, word ++ after, word, htext, ?_, ?_, rfl⟩
  · rwa [Option.or_none]
  · refine wordAtStart_append hne hword fun c hc => ?_
    obtain ⟨hcolon, hc⟩ := hafter c hc
    refine ⟨hc, Bool.eq_false_iff.mpr fun hstop => ?_⟩
    rcases hstops c hstop with rfl | hwordChar
    · exact hcolon rfl
    · rw [hc] at hwordChar
      cases hwordChar

end Names

/-! ## The names of the parameters -/

/-- The parameter of the `k`-th value. -/
def valueName (k : Nat) : String := parameterName (toString k)

theorem valueName_inj {j k : Nat} (h : valueName j = valueName k) : j = k := by
  have hlists := congrArg String.toList h
  simp only [valueName, parameterName, String.toList_append] at hlists
  have hdigits := List.append_cancel_left hlists
  have hnumbers := congrArg (fun ds => Nat.ofDigitChars 10 ds 0) hdigits
  simpa [Nat.toString_eq_ofList_toDigits] using hnumbers

theorem isWordChar_of_mem_valueName {k : Nat} {c : Char} (h : c ∈ (valueName k).toList) :
    isWordChar c = true := by
  rw [valueName, parameterName, String.toList_append] at h
  rcases List.mem_append.mp h with hlead | hdigit
  · have hall : "param_".toList.all isWordChar = true := by decide
    exact List.all_eq_true.mp hall c hlead
  · refine isWordChar_of_isAlphanum ?_
    rw [Char.isAlphanum, isDigit_of_mem_toString hdigit, Bool.or_true]

/-! ## Binding values -/

namespace Clause

theorem mem_names_iff {c : Clause} {name : String} :
    c.parameters.any (·.1 == name) = true ↔ name ∈ c.parameters.map Prod.fst := by
  rw [List.any_eq_true, List.mem_map]
  exact exists_congr fun p => and_congr_right fun _ => beq_iff_eq

section BindOne

variable {c c' : Clause} {name : String} {v : Value}

theorem bindOne_ok (h : name ∈ c.parameters.map Prod.fst) (v : Value) :
    ∃ c', c.bindOne name v = .ok c' ∧ c'.text = c.text := by
  unfold bindOne
  rw [if_pos (mem_names_iff.mpr h)]
  exact ⟨_, rfl, rfl⟩

theorem bindOne_error (h : name ∉ c.parameters.map Prod.fst) (v : Value) :
    c.bindOne name v = .error (.undefinedParameter name) := by
  unfold bindOne
  rw [if_neg (mt mem_names_iff.mp h)]

theorem lookup_cons_eq (p : String × Value) (ps : List (String × Value)) (name : String) :
    (p :: ps).lookup name = if name = p.1 then some p.2 else ps.lookup name := by
  rw [List.lookup_cons]
  by_cases h : name = p.1
  · rw [if_pos h, beq_iff_eq.mpr h]
  · rw [if_neg h, beq_eq_false_iff_ne.mpr h]

theorem lookup_bindOne (h : c.bindOne name v = .ok c') (name' : String) :
    c'.parameters.lookup name' = if name' = name then some v else c.parameters.lookup name' := by
  have hupdate : ∀ ps : List (String × Value), name ∈ ps.map Prod.fst ∨ name' ≠ name →
      (ps.map fun p => if p.1 = name then (name, v) else p).lookup name' =
        if name' = name then some v else ps.lookup name' := by
    intro ps hps
    induction ps with
    | nil =>
      rw [if_neg (hps.resolve_left List.not_mem_nil)]
      rfl
    | cons p ps ih =>
      rw [List.map_cons, lookup_cons_eq, lookup_cons_eq]
      by_cases hkey : p.1 = name
      · rw [if_pos hkey, hkey]
        by_cases hname : name' = name
        · rw [if_pos hname, if_pos hname]
        · rw [if_neg hname, if_neg hname, ih (.inr hname), if_neg hname, if_neg hname]
      · have hrest : name ∈ ps.map Prod.fst ∨ name' ≠ name :=
          hps.imp_left fun hmem => (List.mem_cons.mp hmem).resolve_left (Ne.symm hkey)
        rw [if_neg hkey, ih hrest]
        by_cases hname : name' = name
        · rw [hname, if_neg (Ne.symm hkey), if_pos rfl, if_pos rfl]
        · rw [if_neg hname, if_neg hname]
  unfold bindOne at h
  split at h
  · next hany =>
    cases h
    exact hupdate c.parameters (.inl (mem_names_iff.mp hany))
  · cases h

end BindOne

theorem bindFrom_cons (c : Clause) (k : Nat) (v : Value) (rest : List Value) :
    c.bindFrom k (v :: rest) =
      (c.bindOne (valueName k) v >>= fun c => bindFrom c (k + 1) rest) := by
  unfold valueName
  rw [bindFrom]
  cases c.bindOne (parameterName (toString k)) v <;> rfl

section BindFrom

variable {c : Clause} {k : Nat} {values : List Value}

/-- **Values are bound** to their parameters if the statement has them all. -/
theorem bindFrom_ok
    (h : ∀ i < values.length, valueName (k + i) ∈ c.parameters.map Prod.fst) :
    ∃ c', c.bindFrom k values = .ok c' ∧ c'.text = c.text ∧
      (∀ i v, values[i]? = some v → c'.parameters.lookup (valueName (k + i)) = some v) ∧
      ∀ j < k, c'.parameters.lookup (valueName j) = c.parameters.lookup (valueName j) := by
  induction values generalizing c k with
  | nil => exact ⟨c, rfl, rfl, nofun, fun _ _ => rfl⟩
  | cons v rest ih =>
    have hshift : ∀ i, k + 1 + i = k + (i + 1) := fun i => by omega
    obtain ⟨c₁, hone, htext₁⟩ := bindOne_ok (h 0 (Nat.zero_lt_succ _)) v
    have hlookup := lookup_bindOne hone
    have hnames : ∀ i < rest.length, valueName (k + 1 + i) ∈ c₁.parameters.map Prod.fst := by
      intro i hi
      rw [names_bindOne hone, hshift]
      exact h (i + 1) (Nat.succ_lt_succ hi)
    obtain ⟨c', hrest, htext, hvalues, hbefore⟩ := ih hnames
    refine ⟨c', ?_, htext.trans htext₁, fun i w hw => ?_, fun j hj => ?_⟩
    · rw [bindFrom_cons]
      exact (congrArg (· >>= fun c => bindFrom c (k + 1) rest) hone).trans hrest
    · cases i with
      | zero =>
        cases hw
        rw [Nat.add_zero, hbefore k (Nat.lt_succ_self k), hlookup, Nat.add_zero, if_pos rfl]
      | succ i =>
        rw [← hshift]
        exact hvalues i w hw
    · rw [hbefore j (Nat.lt_succ_of_lt hj), hlookup, Nat.add_zero,
        if_neg fun heq => Nat.ne_of_lt hj (valueName_inj heq)]

/-- **The first parameter that the statement does not have** is refused. -/
theorem bindFrom_error {i : Nat} (hi : i < values.length)
    (hbefore : ∀ j < i, valueName (k + j) ∈ c.parameters.map Prod.fst)
    (hmissing : valueName (k + i) ∉ c.parameters.map Prod.fst) :
    c.bindFrom k values = .error (.undefinedParameter (valueName (k + i))) := by
  induction values generalizing c k i with
  | nil => cases hi
  | cons v rest ih =>
    rw [bindFrom_cons]
    cases i with
    | zero =>
      have hone := bindOne_error hmissing v
      exact congrArg (· >>= fun c => bindFrom c (k + 1) rest) hone
    | succ i =>
      have hshift : ∀ j, k + 1 + j = k + (j + 1) := fun j => by omega
      obtain ⟨c₁, hone, -⟩ := bindOne_ok (hbefore 0 (Nat.zero_lt_succ i)) v
      refine (congrArg (· >>= fun c => bindFrom c (k + 1) rest) hone).trans ?_
      change c₁.bindFrom (k + 1) rest = _
      rw [← hshift i]
      refine ih (Nat.lt_of_succ_lt_succ hi) (fun j hj => ?_) ?_
      · rw [names_bindOne hone, hshift]
        exact hbefore (j + 1) (Nat.succ_lt_succ hj)
      · rw [names_bindOne hone, hshift]
        exact hmissing

end BindFrom

theorem mem_names_unbound {names : List String} {text name : String} :
    name ∈ (unbound names text).parameters.map Prod.fst ↔ name ∈ names := by
  simp [unbound, List.mem_mergeSort]

end Clause

/-! ## A fragment as a clause -/

/-- **A compile, taken apart**: the statement and the list object with the values. -/
theorem Fragment.render_of_compile {host : Host ω} {f : Fragment} {s : Session ω} {t text : String}
    {bs : List Bound} {target name : Value}
    (h : outcome ((Read.compile t).perform host f) s = .ok (.query (.str text) bs target name)) :
    ∃ l s', f.render host (.str t) s = .ok (text, l) s' ∧ boundsIn s'.heap l = bs := by
  obtain ⟨s₃, hrun⟩ := outcome_eq_ok_iff.mp h
  rw [Read.perform_compile_eq] at hrun
  obtain ⟨o, s₀, hcreate, hrest⟩ := Pass.bind_eq_ok hrun
  obtain ⟨text', s₁, hmemo, hfinish⟩ := Pass.bind_eq_ok hrest
  obtain ⟨l, s₂, hvalues, hend⟩ := Pass.bind_eq_ok hfinish
  cases hend
  refine ⟨l, s₂, ?_, rfl⟩
  change (createDialect (.str t) >>= fun o => f.memoText host (.target t) o.dialect >>= fun text =>
    f.values host >>= fun params => pure (text, params)) s = _
  rw [Pass.bind_ok hcreate, Pass.bind_ok hmemo, Pass.bind_ok hvalues]
  rfl

/-- The placeholder of the `k`-th value. -/
def namedToken (k : Nat) : String := ":" ++ valueName k

theorem toList_namedToken (k : Nat) :
    (dropNewlines (namedToken k)).toList = ':' :: (valueName k).toList := by
  have htoken : (namedToken k).toList = ':' :: (valueName k).toList := by
    rw [namedToken, String.toList_append]
    rfl
  have hline : ∀ c ∈ ':' :: (valueName k).toList, c ≠ '\n' := by
    rintro c hc rfl
    rcases List.mem_cons.mp hc with heq | hc
    · cases heq
    · have hword := isWordChar_of_mem_valueName hc
      revert hword
      decide
  rw [dropNewlines, htoken, String.toList_ofList]
  exact List.filter_eq_self.mpr fun c hc => decide_eq_true (hline c hc)

/-- **A placeholder in a statement is read** if it stands apart there. -/
theorem mem_namesIn_of_pieces {stops : Char → Bool}
    (hstops : ∀ c, stops c = true → c = ':' ∨ isWordChar c = true) {ps qs : List Piece} {b : Bound}
    (hapart : StandsApart (dropNewlines (spell namedToken 1 ps)).toList
      (dropNewlines (spell namedToken ((boundValues ps).length + 2) qs)).toList) :
    valueName ((boundValues ps).length + 1) ∈
      namesIn stops (dropNewlines (spell namedToken 1 (ps ++ .bound b :: qs))) := by
  have hsucc : 1 + (boundValues ps).length = (boundValues ps).length + 1 := Nat.add_comm _ _
  have htext : (dropNewlines (spell namedToken 1 (ps ++ .bound b :: qs))).toList =
      (dropNewlines (spell namedToken 1 ps)).toList ++
        ':' :: ((valueName ((boundValues ps).length + 1)).toList ++
          (dropNewlines (spell namedToken ((boundValues ps).length + 2) qs)).toList) := by
    rw [spell_append, spell_bound, hsucc, dropNewlines_append, dropNewlines_append,
      String.toList_append, String.toList_append, toList_namedToken]
    rfl
  have hne : (valueName ((boundValues ps).length + 1)).toList ≠ [] := by
    rw [valueName, parameterName, String.toList_append]
    exact List.cons_ne_nil _ _
  have hmem := mem_namesIn_of_standsApart hstops hne (fun c => isWordChar_of_mem_valueName) hapart
    htext
  rwa [String.ofList_toList] at hmem

section ToClause

variable {names : String → List String} {host : Host ω} {f : Fragment} {s s' : Session ω}
  {text : String} {l : ListRef}

theorem Fragment.toClauseWith_of_render (h : f.render host namedTarget s = .ok (text, l) s') :
    f.toClauseWith names host s =
      resultOf (Clause.bind (names text) text (s'.heap.elements l)) s' := by
  rw [toClauseWith, Pass.bind_ok h]
  change Clause.orRefused (Clause.bind (names text) text (s'.heap.elements l)) s' = _
  cases Clause.bind (names text) text (s'.heap.elements l) <;> rfl

/-- **A clause has its values** if all their parameters are read. -/
theorem Fragment.toClauseWith_ok (h : f.render host namedTarget s = .ok (text, l) s')
    (hnames : ∀ k < (boundsIn s'.heap l).length, valueName (k + 1) ∈ names text) :
    ∃ c, f.toClauseWith names host s = .ok c s' ∧ c.text = text ∧
      ∀ (k : Nat) b, (boundsIn s'.heap l)[k]? = some b →
        ∃ v, c.parameters.lookup (valueName (k + 1)) = some v ∧ boundIn s'.heap v = b := by
  have hlength : (boundsIn s'.heap l).length = (s'.heap.elements l).length := List.length_map _
  have hall : ∀ i < (s'.heap.elements l).length, valueName (1 + i) ∈
      (Clause.unbound (names text) text).parameters.map Prod.fst := by
    intro i hi
    rw [Nat.add_comm]
    exact Clause.mem_names_unbound.mpr (hnames i (hlength ▸ hi))
  obtain ⟨c, hbind, htext, hvalues, -⟩ := Clause.bindFrom_ok hall
  refine ⟨c, ?_, htext, fun k b hb => ?_⟩
  · rw [toClauseWith_of_render h, Clause.bind, hbind]
    rfl
  · rw [boundsIn, List.getElem?_map] at hb
    obtain ⟨v, hv, rfl⟩ := Option.map_eq_some_iff.mp hb
    refine ⟨v, ?_, rfl⟩
    rw [Nat.add_comm]
    exact hvalues k v hv

/-- **There is no clause** if the parameter of some value is not read. -/
theorem Fragment.toClauseWith_error (h : f.render host namedTarget s = .ok (text, l) s') {k : Nat}
    (hk : k < (boundsIn s'.heap l).length) (hbefore : ∀ j < k, valueName (j + 1) ∈ names text)
    (hmissing : valueName (k + 1) ∉ names text) :
    f.toClauseWith names host s = .error (.undefinedParameter (valueName (k + 1))) s' := by
  have hlength : (boundsIn s'.heap l).length = (s'.heap.elements l).length := List.length_map _
  have hrefused : Clause.bind (names text) text (s'.heap.elements l) =
      .error (.undefinedParameter (valueName (1 + k))) := by
    refine Clause.bindFrom_error (hlength ▸ hk) (fun j hj => ?_) ?_
    · rw [Nat.add_comm]
      exact Clause.mem_names_unbound.mpr (hbefore j hj)
    · rw [Nat.add_comm]
      exact mt Clause.mem_names_unbound.mp hmissing
  rw [toClauseWith_of_render h, hrefused, Nat.add_comm]
  rfl

end ToClause

section Named

variable {host : Host ω} {answer : Callable → Fragment → Except Failure Value}
  (hhost : host.Obeys answer) {f : Fragment} {s : Session ω} (hregistry : s.registry.Sound)
  (hs : s.Gathered) (hcurrent : (s.rendering answer host.depth).Current (s.cacheOf f) f)
  {ps : List Piece} (hpieces : (s.reading answer).pieces host.depth f = .ok ps)

include hhost hregistry hs hcurrent hpieces

/-- **A fragment for the target `named`**: its pieces are spelled with named placeholders. -/
theorem Fragment.render_named (hnamed : s.registry.class? "named" = some .named) :
    ∃ l s', f.render host namedTarget s = .ok (dropNewlines (spell namedToken 1 ps), l) s' ∧
      boundsIn s'.heap l = boundValues ps := by
  let U := s.rendering answer host.depth
  have hdialect : U.dialectFor "named" = .ok .named :=
    Rendering.dialectFor_eq_ok_iff.mpr ⟨.named, hnamed, rfl⟩
  have htext : U.flatten .named f = .ok (dropNewlines (spell namedToken 1 ps)) := by
    rw [Rendering.flatten, Reading.flatten_eq_pieces _ _ Dialect.writes_named]
    exact map_eq_ok_iff.mpr ⟨ps, hpieces, rfl⟩
  have hvalues : U.collect f = .ok (boundValues ps) := Reading.collect_of_pieces hpieces
  have hcompile : outcome ((Read.compile "named").perform host f) s =
      .ok (.query (.str (dropNewlines (spell namedToken 1 ps))) (boundValues ps) (.str "named")
        (.ofName f.name)) := by
    rw [Read.outcome_eq hhost hregistry hs, hcurrent.read_eq, Rendering.answer_compile]
    exact bind_eq_ok_iff.mpr ⟨_, hdialect, bind_eq_ok_iff.mpr ⟨_, htext,
      bind_eq_ok_iff.mpr ⟨_, hvalues, rfl⟩⟩⟩
  exact Fragment.render_of_compile hcompile

theorem Read.outcomes_of_pieces :
    outcome (Read.text.perform host f) s = .ok (.text (dropNewlines (spell numbered 1 ps))) ∧
      outcome (Read.values.perform host f) s = .ok (.values (boundValues ps)) := by
  obtain ⟨htext, -, hvalues⟩ := (s.rendering answer host.depth).answer_eq_pieces f
  constructor
  · rw [Read.outcome_eq hhost hregistry hs, hcurrent.read_eq, htext]
    exact map_eq_ok_iff.mpr ⟨ps, hpieces, rfl⟩
  · rw [Read.outcome_eq hhost hregistry hs, hcurrent.read_eq, hvalues]
    exact map_eq_ok_iff.mpr ⟨ps, hpieces, rfl⟩

end Named

/-- **A fragment becomes a clause** if the parameters of all its values are read from the
statement; then each value is bound to its parameter. Else the first parameter that is not read is
refused. A parameter is read if its placeholder stands apart in the statement, whether word
characters may follow a word or not. -/
theorem clause_binds_found_parameters {host : Host ω}
    {answer : Callable → Fragment → Except Failure Value} (hhost : host.Obeys answer) {f : Fragment}
    {s : Session ω} (hregistry : s.registry.Sound) (hs : s.Gathered)
    (hcurrent : (s.rendering answer host.depth).Current (s.cacheOf f) f)
    (hnamed : s.registry.class? "named" = some .named) {a : Answer} {bs : List Bound}
    (htext : outcome (Read.text.perform host f) s = .ok a)
    (hvalues : outcome (Read.values.perform host f) s = .ok (.values bs)) :
    ∃ ps text, (s.reading answer).pieces host.depth f = .ok ps ∧
      text = dropNewlines (spell namedToken 1 ps) ∧ bs = boundValues ps ∧
      (∀ names : String → List String, (∀ k < bs.length, valueName (k + 1) ∈ names text) →
        ∃ c s', f.toClauseWith names host s = .ok c s' ∧ c.text = text ∧
          ∀ (k : Nat) b, bs[k]? = some b →
            ∃ v, c.parameters.lookup (valueName (k + 1)) = some v ∧ boundIn s'.heap v = b) ∧
      (∀ (names : String → List String) k, k < bs.length →
        (∀ j < k, valueName (j + 1) ∈ names text) → valueName (k + 1) ∉ names text →
        ∃ s', f.toClauseWith names host s =
          .error (.undefinedParameter (valueName (k + 1))) s') ∧
      ∀ stops : Char → Bool, (∀ c, stops c = true → c = ':' ∨ isWordChar c = true) →
        ∀ before b after, ps = before ++ .bound b :: after →
          StandsApart (dropNewlines (spell namedToken 1 before)).toList
            (dropNewlines (spell namedToken ((boundValues before).length + 2) after)).toList →
          valueName ((boundValues before).length + 1) ∈ namesIn stops text := by
  rw [Read.outcome_eq hhost hregistry hs, hcurrent.read_eq] at htext hvalues
  obtain ⟨htextPieces, -, hvaluesPieces⟩ := (s.rendering answer host.depth).answer_eq_pieces f
  obtain ⟨ps, hpieces, -⟩ := map_eq_ok_iff.mp (htextPieces.symm.trans htext)
  obtain ⟨qs, hqs, hbs⟩ := map_eq_ok_iff.mp (hvaluesPieces.symm.trans hvalues)
  cases hpieces.symm.trans hqs
  cases hbs
  obtain ⟨l, s', hrender, hl⟩ :=
    Fragment.render_named hhost hregistry hs hcurrent hpieces hnamed
  refine ⟨ps, _, hpieces, rfl, rfl, fun names hnames => ?_, fun names k hk hbefore hmissing => ?_,
    fun stops hstops before b after hsplit hapart => ?_⟩
  · rw [← hl] at hnames ⊢
    obtain ⟨c, hrun, hc⟩ := Fragment.toClauseWith_ok hrender hnames
    exact ⟨c, s', hrun, hc⟩
  · rw [← hl] at hk
    exact ⟨s', Fragment.toClauseWith_error hrender hk hbefore hmissing⟩
  · rw [hsplit]
    exact mem_namesIn_of_pieces hstops hapart

theorem Rendering.current_empty (U : Rendering) (f : Fragment) : U.Current .empty f where
  texts key text h := by
    rw [Cache.empty, Table.get?_empty] at h
    cases h
  values bs h := by cases h

theorem clause_binds_found_parameters_equation :
    let host : Host Unit := ⟨fun _ _ => pure .null, 1⟩
    let f : Fragment := ⟨0, ["a = ", ""], true, [.int 5], "", none, false⟩
    let s : Session Unit := .initial ()
    host.Obeys (fun _ _ => .ok .null) ∧ s.registry.Sound ∧ s.Gathered ∧
      (s.rendering (fun _ _ => .ok .null) host.depth).Current (s.cacheOf f) f ∧
      s.registry.class? "named" = some .named ∧
      ∃ c s', f.toClause host s = .ok c s' ∧ c.text = "a = :param_1" ∧
        ∃ v, c.parameters.lookup "param_1" = some v ∧ boundIn s'.heap v = .scalar (.int 5) := by
  intro host f s
  let answer : Callable → Fragment → Except Failure Value := fun _ _ => .ok .null
  have hhost : host.Obeys answer := .of_call fun _ _ _ => rfl
  have hregistry : s.registry.Sound := Registry.Sound.initial
  have hs : s.Gathered := Session.gathered_initial ()
  have hcurrent := (s.rendering answer host.depth).current_empty f
  have hpieces := (s.reading answer).pieces_scalar_slot (f := f) rfl rfl rfl 0
  obtain ⟨htext, hvalues⟩ := Read.outcomes_of_pieces hhost hregistry hs hcurrent hpieces
  obtain ⟨ps, text, hps, rfl, -, hfound, -, -⟩ :=
    clause_binds_found_parameters hhost hregistry hs hcurrent rfl htext hvalues
  cases hpieces.symm.trans hps
  obtain ⟨c, s', hrun, hc, hbound⟩ := hfound parameterNames (by decide)
  exact ⟨hhost, hregistry, hs, hcurrent, rfl, c, s', hrun, hc, hbound 0 _ rfl⟩

/-- **A cast hides its placeholder.** The text and the values of `SELECT ?::int` are made, yet
there is no clause: the parameter of the value is not read, whether word characters may follow a
word or not. -/
theorem clause_misses_cast :
    let host : Host Unit := ⟨fun _ _ => pure .null, 1⟩
    let f : Fragment := ⟨0, ["SELECT ", "::int"], true, [.int 5], "", none, false⟩
    let s : Session Unit := .initial ()
    host.Obeys (fun _ _ => .ok .null) ∧ s.registry.class? "named" = some .named ∧
      outcome (Read.text.perform host f) s = .ok (.text "SELECT $1::int") ∧
      outcome (Read.values.perform host f) s = .ok (.values [.scalar (.int 5)]) ∧
      outcome (f.toClause host) s = .error (.undefinedParameter "param_1") ∧
      outcome (f.toClauseWith (namesIn (· == ':')) host) s =
        .error (.undefinedParameter "param_1") := by
  intro host f s
  let answer : Callable → Fragment → Except Failure Value := fun _ _ => .ok .null
  have hhost : host.Obeys answer := .of_call fun _ _ _ => rfl
  have hregistry : s.registry.Sound := Registry.Sound.initial
  have hs : s.Gathered := Session.gathered_initial ()
  have hcurrent := (s.rendering answer host.depth).current_empty f
  have hpieces := (s.reading answer).pieces_scalar_slot (f := f) rfl rfl rfl 0
  obtain ⟨htext, hvalues⟩ := Read.outcomes_of_pieces hhost hregistry hs hcurrent hpieces
  obtain ⟨l, s', hrender, hl⟩ := Fragment.render_named hhost hregistry hs hcurrent hpieces rfl
  have hk : 0 < (boundsIn s'.heap l).length := by
    rw [hl]
    decide
  have hrefused : ∀ names : String → List String,
      valueName 1 ∉ names (dropNewlines (spell namedToken 1
        [.literal "SELECT ", .bound (.scalar (.int 5)), .literal "::int"])) →
      outcome (f.toClauseWith names host) s = .error (.undefinedParameter "param_1") := by
    intro names hmissing
    unfold outcome
    rw [Fragment.toClauseWith_error hrender hk nofun hmissing]
    rfl
  exact ⟨hhost, rfl, htext, hvalues, hrefused _ (by decide), hrefused _ (by decide)⟩

end SqlFragments
