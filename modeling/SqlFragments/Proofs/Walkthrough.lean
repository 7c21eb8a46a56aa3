import SqlFragments.Main
import SqlFragments.Proofs.Templates

/-!
# The callable of the walkthrough

The callable builds a fragment each time the second query asks it. It obeys a reading that knows
what is answered but for the identity of that fragment.

* `NameCondition.reply`, `People.reply`: what the callable answers, and what others are refused.
* **`NameCondition.answer_eq`**: the answer, and what it leaves behind.
* **`peopleHost_obeys`**: so the host obeys the reading.
-/

namespace SqlFragments

variable {ω : Type}

/-- The fragment that the second query is given. Its identity says nothing. -/
def NameCondition.alternatives : Fragment :=
  .ofPieces 0 ["", " OR name = ", ""] [.str "Peter", .str "Wendy"]

def NameCondition.reply (c : NameCondition) (owner : Fragment) : Value :=
  if owner.id = c.first.id then .str "Andrew"
  else if owner.id = c.second.id then .fragment alternatives
  else .null

def People.reply (p : People) (c : Callable) (owner : Fragment) : Except Failure Value :=
  if c = p.condition.callable then .ok (p.condition.reply owner)
  else .error (.noAttribute (.callable c) "answer")

theorem NameCondition.standsFor_alternatives (id : Nat) :
    Value.StandsFor (.fragment { alternatives with id := id }) (.fragment alternatives) := by
  refine .inr (.fragment rfl rfl rfl (List.forall₂_same.mpr fun v hv => .data ?_))
  rcases List.mem_cons.mp hv with rfl | hv
  · exact ⟨rfl, rfl⟩
  · rw [List.mem_singleton.mp hv]
    exact ⟨rfl, rfl⟩

/-- **The answer** may be a new fragment; nothing else is left behind. -/
theorem NameCondition.answer_eq (c : NameCondition) (owner : Fragment) (s : Session ω) :
    ∃ v s', s.Steady s' ∧ Value.StandsFor v (c.reply owner) ∧ c.answer owner s = .ok v s' := by
  simp only [answer, reply]
  split_ifs with hfirst hsecond
  · exact ⟨_, s, .refl s, .inl rfl, rfl⟩
  · have htag : tag "\x7b\x7d OR name = \x7b\x7d" [.str "Peter", .str "Wendy"] s =
        .ok { alternatives with id := s.freshFragment }
          { s with freshFragment := s.freshFragment + 1 } := pieceFragment_eq _ _ s
    exact ⟨_, _, s.steady_given (Nat.le_succ _), standsFor_alternatives _, Pass.bind_ok htag _⟩
  · exact ⟨_, s, .refl s, .inl rfl, rfl⟩

/-- **The host of the walkthrough** obeys a reading. -/
theorem peopleHost_obeys (p : People) : (peopleHost p).Obeys p.reply := by
  intro c owner s
  by_cases hc : c = p.condition.callable
  · obtain ⟨v, s', hs', hv, hrun⟩ := p.condition.answer_eq owner s
    refine ⟨.ok v, s', hs', ?_, ?_⟩
    · rw [People.reply, if_pos hc]
      exact .ok hv
    · exact (congrFun (if_pos hc) s).trans hrun
  · refine ⟨_, s, .refl s, .standsFor _, ?_⟩
    rw [People.reply, if_neg hc]
    exact congrFun (if_neg hc) s

end SqlFragments
