import SqlFragments.Proofs.Calls
import SqlFragments.Proofs.Mirroring

/-!
# Recorded calls

The calls of a pass can be recorded beside whatever the callables remember. Recording changes
nothing else, so it tells which calls a read makes, whoever answers them. Calls that a callable
makes while it answers, through getters of its own, belong to that callable and are not recorded.

* `Host.recording`: the same answers, with each call and its answer noted.
* **`Host.recording_mirrors`**, **`Read.perform_recording`**: without the record, passes and reads
  are the same.
* `Read.calls`: the calls of a read.
* `AllAnswered`, `RaisedLast`: calls that were all answered; calls of which the last one failed.
-/

namespace SqlFragments

variable {ω ω' : Type}

/-- The same session, where callables remember something else. -/
def Session.withMemory (s : Session ω) (memory : ω') : Session ω' :=
  ⟨s.heap, s.caches, s.registry, s.log, s.fresh, s.freshFragment, memory⟩

/-- A session whose calls are recorded from now on. -/
def Session.recorded (s : Session ω) : Session (ω × Transcript) := s.withMemory (s.memory, [])

/-- A session without the record of its calls. -/
def Session.unrecorded (s : Session (ω × Transcript)) : Session ω := s.withMemory s.memory.1

/-- The calls recorded so far. -/
def Session.transcript (s : Session (ω × Transcript)) : Transcript := s.memory.2

def Session.noteCall (s : Session ω) (log : Transcript) (c : Call) (x : Except Failure Value) :
    Session (ω × Transcript) := s.withMemory (s.memory, log ++ [(c, x)])

/-- Callables answer as ever, and each call of a pass is recorded with its answer. -/
def Host.recording (host : Host ω) : Host (ω × Transcript) where
  call c f s :=
    match host.call c f s.unrecorded with
    | .ok v s' => .ok v (s'.noteCall s.transcript ⟨c, f⟩ (.ok v))
    | .error e s' => .error e (s'.noteCall s.transcript ⟨c, f⟩ (.error e))
  depth := host.depth

/-- **Recording changes nothing** for the passes. -/
theorem Host.recording_mirrors (host : Host ω) :
    host.environment.Mirrors (fun s t => t.unrecorded = s) host.recording.environment where
  elements := by
    rintro _ t rfl
    rfl
  call := by
    rintro c f _ t rfl
    change Agree _ _ (host.call c f t.unrecorded) (host.recording.call c f t)
    unfold recording
    dsimp only
    cases host.call c f t.unrecorded with
    | ok v s' => exact ⟨rfl, rfl⟩
    | error e s' => exact ⟨rfl, rfl⟩
  depth := rfl

theorem readsAlike_unrecorded (f : Fragment) :
    ReadsAlike f fun (s : Session ω) (t : Session (ω × Transcript)) => t.unrecorded = s where
  heap := by
    rintro _ t rfl
    rfl
  registry := by
    rintro _ t rfl
    rfl
  fresh := by
    rintro _ t rfl
    rfl
  kept := by
    rintro _ t rfl
    rfl
  record := by
    rintro _ t x rfl
    rfl
  cache := by
    rintro _ t c rfl
    rfl
  allocate := by
    rintro _ t items rfl
    rfl
  renew := by
    rintro _ t registry n rfl
    rfl

/-- **Recording changes nothing** for a read. -/
theorem Read.perform_recording (host : Host ω) (f : Fragment) (r : Read) :
    Lockstep (fun s t => t.unrecorded = s) Eq (r.perform host f) (r.perform host.recording f) :=
  (readsAlike_unrecorded f).read host.recording_mirrors r

/-- The calls that a read makes, in order, with their answers. -/
def Read.calls (host : Host ω) (f : Fragment) (r : Read) (s : Session ω) : Transcript :=
  (stateAfter (r.perform host.recording f) s.recorded).transcript

/-! ## Calls that fail -/

def AllAnswered (log : Transcript) : Prop := ∀ x ∈ log, ∃ v, x.2 = .ok v

/-- The last call failed with `e`, and all calls before it were answered. -/
def RaisedLast (log : Transcript) (e : Failure) : Prop :=
  ∃ answered c, log = answered ++ [(c, .error e)] ∧ AllAnswered answered

theorem AllAnswered.nil : AllAnswered [] := by
  intro x hx
  cases hx

theorem AllAnswered.concat {log : Transcript} (h : AllAnswered log) (c : Call) (v : Value) :
    AllAnswered (log ++ [(c, .ok v)]) := by
  intro x hx
  rcases List.mem_append.mp hx with hx | hx
  · exact h x hx
  · rw [List.mem_singleton.mp hx]
    exact ⟨v, rfl⟩

end SqlFragments
