import SqlFragments.Proofs.HandOut

/-!
# Reads

A fragment is read through its getters, as a string, or by compiling it. In a sound session each
read gives what rendering afresh gives.

* `Read`, `Answer`: the reads, and what they give with list objects read off.
* `Read.perform`: a read in a session; `Rendering.answer`: a read where nothing is kept.
* **`Read.perform_gives`**: both give the same.
* **`Rendering.statement_builtin`**: the built-in dialects give two statements only.
-/

namespace SqlFragments

variable {ω : Type}

/-! ## Reads -/

inductive Read where
  | text
  | sql
  | values
  | str
  | compile (target : String)
  deriving DecidableEq, Repr

/-- What a read gives. List objects are replaced by what they stand for. -/
inductive Answer where
  | text (s : String)
  | values (bs : List Bound)
  | query (sql : Value) (params : List Bound) (target name : Value)

namespace Answer

/-- The statement in an answer. -/
def statement? : Answer → Option Value
  | text s => some (.str s)
  | values _ => none
  | query sql _ _ _ => some sql

/-- A compiled query, with its list of values read off in a heap. -/
def ofQuery (h : Heap) (q : CompiledQuery) : Answer :=
  match q.params with
  | .list r => .query q.sql (boundsIn h r) q.dialect q.name
  | _ => .query q.sql [] q.dialect q.name

end Answer

namespace Read

variable (host : Host ω) (f : Fragment)

def perform : Read → Op ω Answer
  | text => do
    let t ← f.text host
    pure (.text t)
  | sql => do
    let t ← f.sql host
    pure (.text t)
  | str => do
    let t ← textOf host f
    pure (.text t)
  | values => do
    let r ← f.values host
    let s ← get
    pure (.values (boundsIn s.heap r))
  | compile target => do
    let q ← f.compile host (.str target)
    let s ← get
    pure (.ofQuery s.heap q)

theorem perform_compile (target : String) :
    (compile target).perform host f =
      (createDialect (.str target) >>= fun o =>
        f.memoText host (.target target) o.dialect >>= fun text =>
          f.values host >>= fun r => modifyGet fun s =>
            (.query (.str text) (boundsIn s.heap r) (.str target) (.ofName f.name),
              { s with fresh := s.fresh + 1 })) := by
  have htarget : textOf host (.str target) = (pure target : Op ω String) := rfl
  change (f.compile host (.str target) >>= fun q => get >>= fun s =>
    pure (Answer.ofQuery s.heap q) : Op ω Answer) = _
  rw [Fragment.compile, Fragment.render, htarget]
  simp only [bind_assoc, pure_bind]
  rfl

end Read

/-- What a read gives if nothing is kept. -/
def Rendering.answer (U : Rendering) (f : Fragment) : Read → Except Failure Answer
  | .text | .str => do
    let t ← U.flatten .postgres f
    .ok (.text t)
  | .sql => do
    let t ← U.flatten .mysql f
    .ok (.text t)
  | .values => do
    let bs ← U.collect f
    .ok (.values bs)
  | .compile target => do
    let d ← U.dialectFor target
    let t ← U.flatten d f
    let bs ← U.collect f
    .ok (.query (.str t) bs (.str target) (.ofName f.name))

theorem Rendering.answer_compile (U : Rendering) (f : Fragment) (target : String) :
    U.answer f (.compile target) =
      (U.dialectFor target >>= fun d => U.flatten d f >>= fun text => U.collect f >>= fun bs =>
        .ok (.query (.str text) bs (.str target) (.ofName f.name))) := rfl

section Perform

variable {host : Host ω} {U : Rendering} {known : Value → Prop} {pool : List Fragment}
  {next : Nat → Prop}
  (hdepth : host.depth = U.depth)
  (hfollows : host.environment.Follows U.reading (Session.Sound U known pool next) known)
  (hc : U.reading.Closed known) {f : Fragment} (hf : f ∈ pool) (hk : known (.fragment f))

include hdepth hfollows hc hf hk

theorem values_read_gives {α : Type} (g : List Bound → α) {touch : Session ω → Session ω}
    (htouch : ∀ s : Session ω, s.Undisturbed (touch s)) :
    Gives (Session.Sound U known pool next)
      (f.values host >>= fun r => modifyGet fun s => (g (boundsIn s.heap r), touch s))
      (U.collect f >>= fun bs => .ok (g bs)) := by
  intro s hs
  rcases Fragment.values_gives hdepth hfollows hc hf hk hs with
    ⟨bs, r, s', hbs, hs', hvalues, hread⟩ | ⟨e, s', he, hs', hvalues⟩
  · refine ⟨touch s', hs'.of_undisturbed (htouch s'), ?_⟩
    rw [Pass.bind_ok hvalues, hbs, ← hread s' (.refl s')]
    rfl
  · refine ⟨s', hs', ?_⟩
    rw [Pass.bind_error hvalues, he]
    rfl

theorem compile_gives (target : String) :
    Gives (Session.Sound U known pool next) ((Read.compile target).perform host f)
      (U.answer f (.compile target)) := by
  intro s hs
  rw [Read.perform_compile, U.answer_compile]
  rcases createDialect_eq hs target with ⟨o, s₁, hs₁, hd, hcreate⟩ | ⟨e, hd, hcreate⟩
  · have hkey : U.dialectOf (.target target) = .ok o.dialect := hd
    have htext := Fragment.memoText_gives hdepth hfollows hc hf hk hkey
    have hrest := htext.bind fun text _ => values_read_gives hdepth hfollows hc hf hk
      (fun bs => Answer.query (.str text) bs (.str target) (.ofName f.name))
      fun s => s.undisturbed_fresh (s.fresh + 1)
    rw [Pass.bind_ok hcreate, hd]
    exact hrest s₁ hs₁
  · refine ⟨s, hs, ?_⟩
    rw [Pass.bind_error hcreate, hd]
    rfl

/-- **A read gives what rendering afresh gives.** -/
theorem Read.perform_gives (r : Read) :
    Gives (Session.Sound U known pool next) (r.perform host f) (U.answer f r) := by
  have htext (key : TextKey) (d : Dialect) (hd : U.dialectOf key = .ok d) :
      Gives (Session.Sound U known pool next)
        (do
          let t ← f.memoText host key d
          pure (Answer.text t))
        (do
          let t ← U.flatten d f
          .ok (Answer.text t)) :=
    (Fragment.memoText_gives hdepth hfollows hc hf hk hd).bind fun t _ => .pure (Answer.text t)
  cases r with
  | text => exact htext .text .postgres rfl
  | sql => exact htext .sql .mysql rfl
  | str => exact htext .text .postgres rfl
  | values =>
    exact values_read_gives hdepth hfollows hc hf hk Answer.values Session.Undisturbed.refl
  | compile target => exact compile_gives hdepth hfollows hc hf hk target

end Perform

/-! ## Statements -/

section Builtin

variable {U : Rendering} {f : Fragment} {d : Dialect} {token : Nat → String}

theorem Rendering.statement_answer_compile {target : String} (hfor : U.dialectFor target = .ok d)
    (hd : d.Writes token) :
    Answer.statement? <$> U.answer f (.compile target) =
      (fun t => some (.str t)) <$> U.flatten d f := by
  rw [answer_compile, hfor]
  change Answer.statement? <$> Except.bind (U.reading.flatten U.depth d f) (fun text =>
    Except.bind (U.reading.collect U.depth f) fun bs =>
      .ok (.query (.str text) bs (.str target) (.ofName f.name))) =
    (fun t => some (.str t)) <$> U.reading.flatten U.depth d f
  rw [Reading.flatten_eq_pieces _ _ hd, Reading.collect_eq_pieces]
  cases U.reading.pieces U.depth f <;> rfl

theorem Rendering.dialectFor_builtin (h : U.registry.classes = Registry.initial.classes)
    {target : String} (hd : (Registry.initial.class? target).bind DialectClass.dialect? = some d) :
    U.dialectFor target = .ok d := by
  obtain ⟨c, hc, hcd⟩ := Option.bind_eq_some_iff.mp hd
  have hinitial : U.dialectFor = Rendering.dialectFor { U with registry := .initial } :=
    dialectFor_congr h
  rw [hinitial]
  simp only [dialectFor, hc, hcd]

theorem Rendering.statement_answer_text :
    Answer.statement? <$> U.answer f .text =
      (fun t => some (.str t)) <$> U.flatten .postgres f := by
  unfold answer
  cases U.flatten .postgres f <;> rfl

theorem Rendering.statement_answer_sql :
    Answer.statement? <$> U.answer f .sql = (fun t => some (.str t)) <$> U.flatten .mysql f := by
  unfold answer
  cases U.flatten .mysql f <;> rfl

theorem Rendering.flatten_congr {d' : Dialect} (hd : d.Writes token) (hd' : d'.Writes token) :
    U.flatten d f = U.flatten d' f := by
  unfold flatten
  rw [Reading.flatten_eq_pieces _ _ hd, Reading.flatten_eq_pieces _ _ hd']

/-- Reads that give the same statement with the built-in dialects. -/
def sameStatement : List (List Read) :=
  [[.compile "postgres", .text], [.compile "mysql", .compile "sqlite", .sql]]

/-- **With the built-in dialects** there are two statements. -/
theorem Rendering.statement_builtin (h : U.registry.classes = Registry.initial.classes)
    {rs : List Read} (hrs : rs ∈ sameStatement) {r r' : Read} (hr : r ∈ rs) (hr' : r' ∈ rs) :
    Answer.statement? <$> U.answer f r = Answer.statement? <$> U.answer f r' := by
  have hgroup : ∃ d, ∀ r ∈ rs, Answer.statement? <$> U.answer f r =
      (fun t => some (.str t)) <$> U.flatten d f := by
    rcases List.mem_cons.mp hrs with rfl | hrs
    · refine ⟨.postgres, fun r hr => ?_⟩
      rcases List.mem_cons.mp hr with rfl | hr
      · exact statement_answer_compile (U.dialectFor_builtin h rfl) Dialect.writes_postgres
      · rw [List.mem_singleton.mp hr]
        exact statement_answer_text
    · rw [List.mem_singleton.mp hrs]
      refine ⟨.mysql, fun r hr => ?_⟩
      rcases List.mem_cons.mp hr with rfl | hr
      · exact statement_answer_compile (U.dialectFor_builtin h rfl) Dialect.writes_mysql
      · rcases List.mem_cons.mp hr with rfl | hr
        · rw [← U.flatten_congr Dialect.writes_sqlite Dialect.writes_mysql]
          exact statement_answer_compile (U.dialectFor_builtin h rfl) Dialect.writes_sqlite
        · rw [List.mem_singleton.mp hr]
          exact statement_answer_sql
  obtain ⟨d, hd⟩ := hgroup
  rw [hd r hr, hd r' hr']

end Builtin

end SqlFragments
