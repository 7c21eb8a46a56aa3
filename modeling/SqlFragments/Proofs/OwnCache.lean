import SqlFragments.Proofs.Recording
import SqlFragments.Proofs.Setters

/-!
# A pass keeps to its own cache

Nested fragments are gone through afresh each time, whatever is kept for them. So a pass looks only
at what is kept for its own fragment, and keeps something for that fragment only.

* `Host.IgnoresCaches`: callables that do not read getters.
* `Session.AlikeFor`: sessions that differ at most in what is kept for other fragments.
* **`Read.perform_alike`**, **`Read.calls_alike`**: there a read gives the same, and makes the same
  calls.
* `accounts`: what a list of reads gives, with the calls. **`accounts_alike`**: any number of reads.
* **`Read.accounts_after`**: other reads afterwards are as if it had not kept anything.
-/

namespace SqlFragments

variable {ω : Type}

/-- The same session, with something else kept for the fragments. -/
def Session.withCaches (s : Session ω) (caches : Table Nat Cache) : Session ω :=
  { s with caches := caches }

/-- Callables that do not read getters: whatever is kept they answer the same, and they keep
nothing. -/
def Host.IgnoresCaches (host : Host ω) : Prop :=
  ∀ c f caches, Lockstep (fun s t => t = s.withCaches caches) Eq (host.call c f) (host.call c f)

/-- Two sessions that differ at most in what is kept for other fragments than those whose identity
is as `P` says. -/
structure Session.AlikeFor (P : Nat → Prop) (s t : Session ω) : Prop where
  same : t = s.withCaches t.caches
  kept : ∀ g : Fragment, P g.id → t.cacheOf g = s.cacheOf g

section Callables

variable {host : Host ω} (hhost : host.IgnoresCaches)

include hhost

theorem Host.IgnoresCaches.leavesCaches : host.LeavesCaches := by
  intro c f s
  have hsame := (hhost c f s.caches).stateAfter (s := s) (t := s) rfl
  rw [hsame]
  rfl

theorem Host.IgnoresCaches.recording : host.recording.IgnoresCaches := by
  rintro c f caches s _ rfl
  have hcall := hhost c f caches s.unrecorded (s.withCaches caches).unrecorded rfl
  unfold Host.recording
  dsimp only
  cases hrun : host.call c f s.unrecorded with
  | ok v s' =>
    rw [hrun] at hcall
    obtain ⟨_, t', hrun', rfl, rfl⟩ := hcall.ok_left
    rw [hrun']
    exact ⟨rfl, rfl⟩
  | error e s' =>
    rw [hrun] at hcall
    obtain ⟨t', hrun', rfl⟩ := hcall.error_left
    rw [hrun']
    exact ⟨rfl, rfl⟩

/-- **A pass does not look at what is kept.** -/
theorem Host.IgnoresCaches.mirrors (P : Nat → Prop) :
    host.environment.Mirrors (Session.AlikeFor P) host.environment where
  elements := by
    intro s t hst
    rw [hst.same]
    rfl
  call := by
    intro c f s t hst
    have hleaves : (stateAfter (host.call c f) s).caches = s.caches := hhost.leavesCaches c f s
    have hcall := hhost c f t.caches s t hst.same
    have hafter : ∀ s', stateAfter (host.call c f) s = s' →
        Session.AlikeFor P s' (s'.withCaches t.caches) := by
      rintro _ rfl
      refine ⟨rfl, fun g hg => ?_⟩
      unfold Session.cacheOf
      rw [hleaves]
      exact hst.kept g hg
    change Agree _ _ (host.call c f s) (host.call c f t)
    cases hrun : host.call c f s with
    | ok v s' =>
      rw [hrun] at hcall
      obtain ⟨_, t', hrun', rfl, rfl⟩ := hcall.ok_left
      rw [hrun']
      exact ⟨rfl, hafter s' (stateAfter_ok hrun)⟩
    | error e s' =>
      rw [hrun] at hcall
      obtain ⟨t', hrun', rfl⟩ := hcall.error_left
      rw [hrun']
      exact ⟨rfl, hafter s' (stateAfter_error hrun)⟩
  depth := rfl

end Callables

theorem readsAlike_alikeFor {P : Nat → Prop} {f : Fragment} (hf : P f.id) :
    ReadsAlike f fun s t : Session ω => s.AlikeFor P t where
  heap s t hst := by
    rw [hst.same]
    rfl
  registry s t hst := by
    rw [hst.same]
    rfl
  fresh s t hst := by
    rw [hst.same]
    rfl
  kept s t hst := hst.kept f hf
  record s t x hst := by
    refine ⟨?_, hst.kept⟩
    rw [hst.same]
    rfl
  cache s t c hst := by
    refine ⟨?_, fun g hg => ?_⟩
    · rw [hst.same]
      rfl
    · rw [Session.cacheOf_putCache, Session.cacheOf_putCache, hst.kept g hg]
  allocate s t items hst := by
    refine ⟨?_, hst.kept⟩
    rw [hst.same]
    rfl
  renew s t registry n hst := by
    refine ⟨?_, hst.kept⟩
    rw [hst.same]
    rfl

section Reads

variable {host : Host ω} (hhost : host.IgnoresCaches) {P : Nat → Prop} {f : Fragment} (hf : P f.id)

include hhost hf

/-- **A read looks at its own cache**: whatever is kept for other fragments, it gives the same, and
leaves the same. -/
theorem Read.perform_alike (r : Read) :
    Lockstep (Session.AlikeFor P) Eq (r.perform host f) (r.perform host f) :=
  (readsAlike_alikeFor hf).read (hhost.mirrors P) r

/-- **The calls of a read** are the same whatever is kept for other fragments. -/
theorem Read.calls_alike (r : Read) {s t : Session ω} (hst : s.AlikeFor P t) :
    r.calls host f t = r.calls host f s := by
  have hrecorded : s.recorded.AlikeFor P t.recorded := by
    refine ⟨?_, hst.kept⟩
    rw [hst.same]
    rfl
  have hafter := (Read.perform_alike hhost.recording hf r).stateAfter hrecorded
  unfold Read.calls
  rw [hafter.same]
  rfl

end Reads

/-! ## Reads one after the other -/

/-- What reads give one after the other, each with its calls. -/
def accounts (host : Host ω) :
    List (Fragment × Read) → Session ω → List (Except Failure Answer × Transcript)
  | [], _ => []
  | (f, r) :: rest, s =>
    (outcome (r.perform host f) s, r.calls host f s) ::
      accounts host rest (stateAfter (r.perform host f) s)

section Accounts

variable {host : Host ω} (hhost : host.IgnoresCaches)

include hhost

/-- **Any number of reads** give the same and make the same calls, if sessions are alike for the
fragments that are read. -/
theorem accounts_alike {P : Nat → Prop} {reads : List (Fragment × Read)}
    (hreads : ∀ x ∈ reads, P x.1.id) {s t : Session ω} (hst : s.AlikeFor P t) :
    accounts host reads t = accounts host reads s := by
  induction reads generalizing s t with
  | nil => rfl
  | cons x rest ih =>
    obtain ⟨f, r⟩ := x
    have hf : P f.id := hreads (f, r) List.mem_cons_self
    have hread := Read.perform_alike hhost hf r
    have hrest := ih (fun x hx => hreads x (List.mem_cons_of_mem _ hx)) (hread.stateAfter hst)
    rw [accounts, accounts, hrest, hread.outcome_eq hst, Read.calls_alike hhost hf r hst]

/-- **Other reads afterwards** are as if the read of `f` had not kept anything. -/
theorem Read.accounts_after (f : Fragment) (r : Read) (s : Session ω)
    {reads : List (Fragment × Read)} (hreads : ∀ x ∈ reads, x.1.id ≠ f.id) :
    accounts host reads (stateAfter (r.perform host f) s) =
      accounts host reads ((stateAfter (r.perform host f) s).withCaches s.caches) := by
  refine (accounts_alike hhost (P := (· ≠ f.id)) hreads ⟨rfl, fun g hg => ?_⟩).symm
  exact (Read.keeps_cacheOf hhost.leavesCaches hg.symm (s.cacheOf g) r s rfl).symm

end Accounts

end SqlFragments
