import SqlFragments.Proofs.Caching
import SqlFragments.Proofs.Composition
import SqlFragments.Proofs.Stream

/-!
# Reading a statement back

If the text of a fragment cannot be mistaken for placeholders, scanning the statement gives back the
ordinals of its placeholders. The line breaks that are left out may bring any two neighbours
together; still each ordinal ends where its placeholder ends.

* `Fragment.texts`: the delimiter and the segments of a fragment.
* **`Reading.mem_texts_of_mem_pieces`**: the literal text among the pieces comes from the fragments
  in the tree.
* `ordinalsIn`: the digits behind each dollar sign. `Legible`: text that leaves them alone.
* **`ordinalsIn_spell`**: scanning numbered placeholders.
* **`count_spell`**: counting placeholders that are matched by position.
* **`placeholders_read_back`**: what is scanned in the two statements of a fragment, and how many
  values it has.
-/

namespace SqlFragments

variable {ω : Type}

/-! ## Literal text among the pieces -/

/-- The text that a fragment itself brings into a statement. -/
def Fragment.texts (f : Fragment) : List String := f.delimiter :: f.segments

section Parts

variable {owner : Fragment} {s : String}

theorem mem_delimiterParts {stands : Bool}
    (h : .piece (.literal s) ∈ delimiterParts owner stands) : s = owner.delimiter := by
  unfold delimiterParts at h
  split_ifs at h
  · cases List.mem_singleton.mp h
    rfl
  · cases h

theorem mem_runParts {rs : List Run} (h : .piece (.literal s) ∈ runParts owner rs) :
    s = owner.delimiter := by
  induction rs with
  | nil => cases h
  | cons r rest ih =>
    cases r with
    | group vs =>
      rcases List.mem_cons.mp h with heq | hrest
      · cases heq
      · exact ih hrest
    | fragment g adjacent =>
      rcases List.mem_append.mp h with hbetween | hrest
      · exact mem_delimiterParts hbetween
      · rcases List.mem_cons.mp hrest with heq | hrest
        · cases heq
        · exact ih hrest

theorem mem_contentParts {c : Content} (h : .piece (.literal s) ∈ contentParts owner c) :
    s = owner.delimiter := by
  cases c with
  | runs rs => exact mem_runParts h
  | skip => cases h
  | _ => cases List.mem_singleton.mp h

theorem mem_layParts {previous : Option SlotKind} {cs : List (String × Option Content)}
    (h : .piece (.literal s) ∈ layParts owner previous cs) :
    s = owner.delimiter ∨ s ∈ cs.map Prod.fst := by
  induction cs generalizing previous with
  | nil => cases h
  | cons gap rest ih =>
    have hrest : ∀ {previous}, .piece (.literal s) ∈ layParts owner previous rest →
        s = owner.delimiter ∨ s ∈ (gap :: rest).map Prod.fst :=
      fun h => (ih h).imp_right (List.mem_cons_of_mem _)
    obtain ⟨literal, _ | c⟩ := gap
    · rcases List.mem_cons.mp h with heq | h
      · cases heq
        exact .inr List.mem_cons_self
      · exact hrest h
    · rcases List.mem_cons.mp h with heq | h
      · cases heq
        exact .inr List.mem_cons_self
      · rcases List.mem_append.mp h with hbetween | h
        · exact .inl (mem_delimiterParts hbetween)
        · rcases List.mem_append.mp h with hcontent | h
          · exact .inl (mem_contentParts hcontent)
          · exact hrest h

end Parts

theorem Spliced.mem {P : Fragment → List Piece → Prop} {parts : List Part} {ps : List Piece}
    (h : Spliced P parts ps) {p : Piece} (hp : p ∈ ps) :
    .piece p ∈ parts ∨ ∃ g qs, .nested g ∈ parts ∧ P g qs ∧ p ∈ qs := by
  induction h with
  | nil => cases hp
  | piece q _ ih =>
    rcases List.mem_cons.mp hp with rfl | hp
    · exact .inl List.mem_cons_self
    · refine (ih hp).imp (List.mem_cons_of_mem _) ?_
      rintro ⟨g, qs, hg, hqs⟩
      exact ⟨g, qs, List.mem_cons_of_mem _ hg, hqs⟩
  | @nested g qs _ _ hg _ ih =>
    rcases List.mem_append.mp hp with hp | hp
    · exact .inr ⟨g, qs, List.mem_cons_self, hg, hp⟩
    · refine (ih hp).imp (List.mem_cons_of_mem _) ?_
      rintro ⟨g', qs', hg', hqs'⟩
      exact ⟨g', qs', List.mem_cons_of_mem _ hg', hqs'⟩

namespace Reading

variable {A : Reading} {f : Fragment} {n : Nat} {s : String}

theorem settleGaps_literals {gaps : List (String × Option Value)}
    {cs : List (String × Option Content)} (h : A.settleGaps f gaps = .ok cs) :
    cs.map Prod.fst = gaps.map Prod.fst := by
  induction gaps generalizing cs with
  | nil =>
    cases h
    rfl
  | cons gap rest ih =>
    obtain ⟨literal, _ | v⟩ := gap
    · obtain ⟨cs, hcs, hok⟩ := bind_eq_ok_iff.mp h
      cases hok
      exact congrArg (literal :: ·) (ih hcs)
    · obtain ⟨c, -, h⟩ := bind_eq_ok_iff.mp h
      obtain ⟨cs, hcs, hok⟩ := bind_eq_ok_iff.mp h
      cases hok
      exact congrArg (literal :: ·) (ih hcs)

theorem mem_texts_of_mem_parts {parts : List Part} (h : A.parts f = .ok parts)
    (hs : .piece (.literal s) ∈ parts) : s = "" ∨ s ∈ f.texts := by
  obtain ⟨cs, hcs, rfl⟩ := map_eq_ok_iff.mp h
  rcases mem_layParts hs with rfl | hs
  · exact .inr List.mem_cons_self
  · rw [settleGaps_literals hcs, f.gaps_literals] at hs
    rcases List.mem_append.mp hs with hs | hs
    · exact .inr (List.mem_cons_of_mem _ hs)
    · exact .inl (List.eq_of_mem_replicate hs)

theorem within_of_mem_parts {parts : List Part} (h : A.parts f = .ok parts) {g : Fragment}
    (hg : .nested g ∈ parts) : A.Within g f := by
  refine ⟨parts.filterMap Part.fragment?, ?_, List.mem_filterMap.mpr ⟨_, hg, rfl⟩⟩
  rw [← fragments_parts, h]
  rfl

/-- **Literal text among the pieces** is text of a fragment in the tree, or empty. -/
theorem mem_texts_of_mem_pieces {ps : List Piece} (h : A.pieces n f = .ok ps)
    (hs : .literal s ∈ ps) : s = "" ∨ ∃ g, Relation.ReflTransGen A.Within g f ∧ s ∈ g.texts := by
  induction n generalizing f ps with
  | zero => cases h
  | succ n ih =>
    obtain ⟨parts, hparts, hps⟩ := pieces_succ_iff.mp h
    rcases hps.mem hs with hs | ⟨g, qs, hg, hqs, hs⟩
    · exact (mem_texts_of_mem_parts hparts hs).imp_right fun hs => ⟨f, .refl, hs⟩
    · refine (ih hqs hs).imp_right ?_
      rintro ⟨g', hwithin, hs⟩
      exact ⟨g', hwithin.tail (within_of_mem_parts hparts hg), hs⟩

end Reading

/-! ## Scanning for ordinals -/

/-- The longest run of digits behind each dollar sign. -/
def ordinalsIn : List Char → List String
  | [] => []
  | c :: cs =>
    if c = '$' then String.ofList (cs.takeWhile Char.isDigit) :: ordinalsIn cs else ordinalsIn cs

/-- Text that leaves the placeholders next to it alone: there is no dollar sign in it, and it does
not begin with a digit, line breaks aside. -/
structure Legible (s : String) : Prop where
  dollar : '$' ∉ s.toList
  start : ∀ c ∈ s.toList.find? (· ≠ '\n'), c.isDigit = false

instance (s : String) : Decidable (Legible s) :=
  have : Decidable (∀ c ∈ s.toList.find? (· ≠ '\n'), c.isDigit = false) :=
    Option.decidableForallMem _
  decidable_of_iff ('$' ∉ s.toList ∧ ∀ c ∈ s.toList.find? (· ≠ '\n'), c.isDigit = false)
    ⟨fun h => ⟨h.1, h.2⟩, fun h => ⟨h.dollar, h.start⟩⟩

theorem legible_empty : Legible "" := by decide

section Scan

variable {cs ds : List Char}

theorem ordinalsIn_append (h : '$' ∉ cs) (ds : List Char) :
    ordinalsIn (cs ++ ds) = ordinalsIn ds := by
  induction cs with
  | nil => rfl
  | cons c cs ih =>
    obtain ⟨hc, hcs⟩ := not_or.mp (mt List.mem_cons.mpr h)
    rw [List.cons_append, ordinalsIn, if_neg (Ne.symm hc), ih hcs]

theorem takeWhile_append_eq_nil {p : Char → Bool} (hcs : cs.takeWhile p = [])
    (hds : ds.takeWhile p = []) : (cs ++ ds).takeWhile p = [] := by
  cases cs with
  | nil => exact hds
  | cons c cs =>
    rw [List.cons_append]
    rw [List.takeWhile_cons] at hcs ⊢
    split_ifs at hcs ⊢
    rfl

theorem Legible.takeWhile {s : String} (h : Legible s) :
    (dropNewlines s).toList.takeWhile Char.isDigit = [] := by
  have hhead : (dropNewlines s).toList.head? = s.toList.find? (· ≠ '\n') := by
    simp [dropNewlines, List.head?_filter]
  cases hs : (dropNewlines s).toList with
  | nil => rfl
  | cons c cs =>
    rw [hs] at hhead
    exact List.takeWhile_cons_of_neg (Bool.eq_false_iff.mp (h.start c hhead.symm))

theorem Legible.notMem {s : String} (h : Legible s) : '$' ∉ (dropNewlines s).toList := by
  intro hmem
  apply h.dollar
  simpa [dropNewlines] using hmem

end Scan

/-- The placeholders `$1`, `$2`, … -/
def numbered (k : Nat) : String := (TokenShape.around "$" "").token (.int k)

theorem isDigit_of_mem_toString {k : Nat} {c : Char} (h : c ∈ (toString k).toList) :
    c.isDigit = true := by
  rw [Nat.toString_eq_repr, Nat.toList_repr] at h
  exact Nat.isDigit_of_mem_toDigits (by decide) (by decide) h

theorem toList_numbered (k : Nat) :
    (dropNewlines (numbered k)).toList = '$' :: (toString k).toList := by
  have htoken : (numbered k).toList = '$' :: (toString k).toList := by
    rw [numbered, TokenShape.token_around, String.append_empty, String.toList_append]
    rfl
  have hline : ∀ c ∈ '$' :: (toString k).toList, c ≠ '\n' := by
    rintro c hc rfl
    rcases List.mem_cons.mp hc with heq | hc
    · cases heq
    · cases isDigit_of_mem_toString hc
  rw [dropNewlines, htoken, String.toList_ofList]
  exact List.filter_eq_self.mpr fun c hc => decide_eq_true (hline c hc)

/-- **Scanning gives the ordinals back**, and none of them runs into what follows. -/
theorem ordinalsIn_spell {ps : List Piece} (h : ∀ s, .literal s ∈ ps → Legible s) (k : Nat) :
    let cs := (dropNewlines (spell numbered k ps)).toList
    ordinalsIn cs = (List.range' k (boundValues ps).length).map toString ∧
      cs.takeWhile Char.isDigit = [] := by
  induction ps generalizing k with
  | nil => exact ⟨rfl, rfl⟩
  | cons p ps ih =>
    have hps := ih fun s hs => h s (List.mem_cons_of_mem p hs)
    cases p with
    | literal s =>
      have hs := h s List.mem_cons_self
      obtain ⟨hrest, hstart⟩ := hps k
      rw [spell_literal, dropNewlines_append, String.toList_append]
      refine ⟨?_, takeWhile_append_eq_nil hs.takeWhile hstart⟩
      rw [ordinalsIn_append hs.notMem, hrest, boundValues_literal]
    | bound b =>
      obtain ⟨hrest, hstart⟩ := hps (k + 1)
      have hdollar : '$' ∉ (toString k).toList := fun hmem => by
        cases isDigit_of_mem_toString hmem
      rw [spell_bound, dropNewlines_append, String.toList_append, toList_numbered,
        List.cons_append]
      refine ⟨?_, rfl⟩
      rw [ordinalsIn, if_pos rfl, List.takeWhile_append_of_pos fun c => isDigit_of_mem_toString,
        hstart, List.append_nil, String.ofList_toList, ordinalsIn_append hdollar, hrest,
        boundValues_bound, List.length_cons, List.range'_succ, List.map_cons]

/-! ## Counting placeholders -/

/-- The placeholder `?`, whatever the ordinal. -/
def positional (k : Nat) : String := (TokenShape.constant "?").token (.int k)

theorem count_dropNewlines (s : String) :
    (dropNewlines s).toList.count '?' = s.toList.count '?' := by
  rw [dropNewlines, String.toList_ofList]
  exact List.count_filter (by decide)

/-- **There is one placeholder for each value.** -/
theorem count_spell {ps : List Piece} (h : ∀ s, .literal s ∈ ps → '?' ∉ s.toList) (k : Nat) :
    (dropNewlines (spell positional k ps)).toList.count '?' = (boundValues ps).length := by
  rw [count_dropNewlines]
  induction ps generalizing k with
  | nil => rfl
  | cons p ps ih =>
    have hps := ih fun s hs => h s (List.mem_cons_of_mem p hs)
    cases p with
    | literal s =>
      rw [spell_literal, String.toList_append, List.count_append, hps k,
        List.count_eq_zero_of_not_mem (h s List.mem_cons_self), Nat.zero_add, boundValues_literal]
    | bound b =>
      have hone : "?".toList.count '?' = 1 := rfl
      rw [spell_bound, positional, TokenShape.token_constant, String.toList_append,
        List.count_append, hps (k + 1), hone, boundValues_bound, List.length_cons, Nat.add_comm]

/-! ## The statements of a fragment -/

theorem TotalReading.WellNested.exists_pieces {A : TotalReading} {f : Fragment}
    (h : A.WellNested f) : ∃ n, ∀ m, n ≤ m → ∃ ps, A.toReading.pieces m f = .ok ps := by
  obtain ⟨ps, hps⟩ := h.exists_stream
  obtain ⟨n, hn⟩ := hps.pieces_eq
  exact ⟨n, fun m hm => ⟨ps, hn m hm⟩⟩

/-- All text in the tree of a fragment is as `P` says. -/
def Reading.AllTexts (A : Reading) (P : String → Prop) (f : Fragment) : Prop :=
  ∀ g, Relation.ReflTransGen A.Within g f → ∀ s ∈ g.texts, P s

theorem Reading.AllTexts.literal {A : Reading} {P : String → Prop} {f : Fragment}
    (h : A.AllTexts P f) (hempty : P "") {n : Nat} {ps : List Piece} (hps : A.pieces n f = .ok ps)
    (s : String) (hs : .literal s ∈ ps) : P s := by
  rcases mem_texts_of_mem_pieces hps hs with rfl | ⟨g, hg, hs⟩
  · exact hempty
  · exact h g hg s hs

section Answers

variable (U : Rendering) (f : Fragment)

theorem Rendering.answer_eq_pieces :
    U.answer f .text = (fun ps => .text (dropNewlines (spell numbered 1 ps))) <$>
        U.reading.pieces U.depth f ∧
      U.answer f .sql = (fun ps => .text (dropNewlines (spell positional 1 ps))) <$>
        U.reading.pieces U.depth f ∧
      U.answer f .values = (fun ps => .values (boundValues ps)) <$> U.reading.pieces U.depth f := by
  simp only [answer, flatten, collect]
  rw [U.reading.flatten_eq_pieces U.depth Dialect.writes_postgres,
    U.reading.flatten_eq_pieces U.depth Dialect.writes_mysql, U.reading.collect_eq_pieces]
  cases U.reading.pieces U.depth f <;> exact ⟨rfl, rfl, rfl⟩

end Answers

/-- **The placeholders can be read back.** The getters of a fragment come to the same failure, or to
two statements and a list of values; to the latter if the fragment is well nested and may be nested
deep enough. Unless text in the tree can be mistaken for placeholders, scanning the one statement
gives the ordinals from one to the number of values, and there are as many question marks in the
other. -/
theorem placeholders_read_back (f : Fragment) :
    (∀ A : TotalReading, A.WellNested f →
      ∃ n, ∀ m, n ≤ m → ∃ ps, A.toReading.pieces m f = .ok ps) ∧
    ∀ {ω : Type} (host : Host ω) (U : Rendering) (known : Value → Prop) (pool : List Fragment)
      (next : Nat → Prop), host.depth = U.depth →
      host.environment.Follows U.reading (Session.Sound U known pool next) known →
      U.reading.Closed known → f ∈ pool → known (.fragment f) →
      let gives := fun r x => Gives (Session.Sound U known pool next) (Read.perform host f r) x
      (∃ e, U.reading.pieces U.depth f = .error e ∧ gives .text (.error e) ∧
        gives .sql (.error e) ∧ gives .values (.error e)) ∨
      ∃ text sql values, gives .text (.ok (.text text)) ∧ gives .sql (.ok (.text sql)) ∧
        gives .values (.ok (.values values)) ∧
        (U.reading.AllTexts Legible f →
          ordinalsIn text.toList = (List.range' 1 values.length).map toString) ∧
        (U.reading.AllTexts (fun s => '?' ∉ s.toList) f →
          sql.toList.count '?' = values.length) := by
  refine ⟨fun A hA => hA.exists_pieces, ?_⟩
  intro ω host U known pool next hdepth hfollows hc hf hk gives
  have hread : ∀ r, gives r (U.answer f r) := Read.perform_gives hdepth hfollows hc hf hk
  have htext := hread .text
  have hsql := hread .sql
  have hvalues := hread .values
  obtain ⟨htext', hsql', hvalues'⟩ := U.answer_eq_pieces f
  rw [htext'] at htext
  rw [hsql'] at hsql
  rw [hvalues'] at hvalues
  cases hps : U.reading.pieces U.depth f with
  | error e =>
    rw [hps] at htext hsql hvalues
    exact .inl ⟨e, rfl, htext, hsql, hvalues⟩
  | ok ps =>
    rw [hps] at htext hsql hvalues
    refine .inr ⟨_, _, _, htext, hsql, hvalues, fun hlegible => ?_, fun hmarks => ?_⟩
    · exact (ordinalsIn_spell (hlegible.literal legible_empty hps) 1).1
    · exact count_spell (hmarks.literal (by simp) hps) 1

/-- Twelve values with nothing but line breaks between them, and a parenthesis behind the last. -/
theorem placeholders_read_back_adjacent :
    let A : TotalReading := ⟨fun _ => [], fun _ _ => .null⟩
    let f : Fragment := ⟨0, ["f("] ++ List.replicate 11 "\n" ++ ["\n)"], false,
      (List.range 12).map fun i => .int i, "\n", none, false⟩
    let s : Session Unit := { Session.initial () with freshFragment := 1 }
    A.WellNested f ∧ A.toReading.AllTexts Legible f ∧
      ∃ n text sql, let host : Host Unit := ⟨fun _ _ => pure .null, n⟩
        outcome (Read.text.perform host f) s = .ok (.text text) ∧
        outcome (Read.sql.perform host f) s = .ok (.text sql) ∧
        ordinalsIn text.toList =
          ["1", "2", "3", "4", "5", "6", "7", "8", "9", "10", "11", "12"] ∧
        sql.toList.count '?' = 12 := by
  intro A f s
  have hnested : A.WellNested f := ⟨f, fun g hg => by cases hg⟩
  have hall : ∀ P : String → Prop, (∀ t ∈ f.texts, P t) → A.toReading.AllTexts P f := by
    intro P hP g hg
    cases hg with
    | refl => exact hP
    | tail _ hwithin =>
      obtain ⟨gs, hgs, hmem⟩ := hwithin
      cases hgs
      cases hmem
  have hlegible : A.toReading.AllTexts Legible f := hall _ (by decide)
  have hmarks : A.toReading.AllTexts (fun t => '?' ∉ t.toList) f := hall _ (by decide)
  obtain ⟨hdeep, hread⟩ := placeholders_read_back f
  obtain ⟨n, hn⟩ := hdeep A hnested
  obtain ⟨ps, hps⟩ := hn (n + 1) (Nat.le_succ n)
  let U : Rendering := ⟨A.toReading, n + 1, .initial⟩
  let host : Host Unit := ⟨fun _ _ => pure .null, n + 1⟩
  have hanswers : host.Answers U [f] Eq :=
    Host.answers_of_undisturbed (fun c g s => ⟨s, .refl s, rfl⟩) [f]
  have hlists : ∀ r, ¬ A.toReading.Reaches [f] (.list r) := by
    refine A.toReading.not_reaches_list (P := fun v => v = .null ∨ ∃ i : Int, v = .int i) ?_ ?_ ?_
      ?_ ?_
    · intro g hg v hv
      rw [List.mem_singleton.mp hg] at hv
      obtain ⟨i, -, rfl⟩ := List.mem_map.mp hv
      exact .inr ⟨i, rfl⟩
    · rintro r (h | ⟨i, h⟩) <;> cases h
    · rintro g (h | ⟨i, h⟩) <;> cases h
    · rintro vs ((h | ⟨i, h⟩) | (h | ⟨i, h⟩)) <;> cases h
    · intro c g v hv
      cases hv
      exact .inl rfl
  have hids : ([f].map Fragment.id).Nodup := List.nodup_singleton 0
  have hbelow : ∀ g ∈ [f], g.id < 1 := fun g hg => by
    rw [List.mem_singleton.mp hg]
    exact Nat.zero_lt_one
  have hsound : s.Sound U (A.toReading.Reaches [f]) [f] (· = 1) :=
    (Session.starts_initial () hids hbelow hlists (n + 1)).sound rfl
  have hclosed := A.toReading.closed_reaches [f]
  have hpool : f ∈ [f] := List.mem_cons_self
  have hreached : A.toReading.Reaches [f] (.fragment f) := .member hpool
  have hcollect : U.answer f .values =
      .ok (.values ((List.range 12).map fun i => .scalar (.int i))) := by
    simp only [Rendering.answer, Rendering.collect, Reading.collect, Fragment.bindings]
    rfl
  rcases hread host U (A.toReading.Reaches [f]) [f] (· = 1) rfl (hanswers.follows [] 1) hclosed
    hpool hreached with ⟨e, he, -⟩ | ⟨text, sql, values, htext, hsql, hvalues, hscan, hcount⟩
  · rw [hps] at he
    cases he
  · have hafresh : Gives _ (Read.values.perform host f) (U.answer f .values) :=
      Read.perform_gives rfl (hanswers.follows [] 1) hclosed hpool hreached .values
    have hsame := (hvalues.outcome_eq hsound).symm.trans (hafresh.outcome_eq hsound)
    rw [hcollect] at hsame
    cases hsame
    exact ⟨hnested, hlegible, n + 1, text, sql, htext.outcome_eq hsound, hsql.outcome_eq hsound,
      hscan hlegible, hcount hmarks⟩

end SqlFragments
