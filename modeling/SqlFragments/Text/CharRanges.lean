/-!
# Classes of characters as ranges

A class of characters is a list of ranges of code points, both ends included.

* `CharRanges.increasingFrom`: the ranges are not empty and each ends before the next one starts.
* **`CharRanges.contains_iff`**: a character is in a class when it lies in one of its ranges.
-/

namespace SqlFragments

/-- Ranges of code points in increasing order, both ends included. -/
abbrev CharRanges := List (Nat × Nat)

namespace CharRanges

/-- Stops at the first range that ends at or after the code point. -/
def containsCode : CharRanges → Nat → Bool
  | [], _ => false
  | (low, high) :: rest, n => if n ≤ high then low ≤ n else containsCode rest n

def contains (r : CharRanges) (c : Char) : Bool := r.containsCode c.toNat

/-- No range starts before `bound`, and each starts after the one before it ends. -/
def increasingFrom (bound : Nat) : CharRanges → Bool
  | [] => true
  | (low, high) :: rest => bound ≤ low && low ≤ high && increasingFrom (high + 1) rest

theorem le_of_mem {r : CharRanges} {bound : Nat} (hr : r.increasingFrom bound) {p : Nat × Nat}
    (hp : p ∈ r) : bound ≤ p.1 := by
  induction r generalizing bound with
  | nil => cases hp
  | cons q rest ih =>
    obtain ⟨low, high⟩ := q
    simp only [increasingFrom, Bool.and_eq_true, decide_eq_true_eq] at hr
    rcases List.mem_cons.mp hp with rfl | hp
    · exact hr.1.1
    · have := ih hr.2 hp
      omega

theorem containsCode_iff {r : CharRanges} {bound : Nat} (hr : r.increasingFrom bound) (n : Nat) :
    r.containsCode n = true ↔ ∃ p ∈ r, p.1 ≤ n ∧ n ≤ p.2 := by
  induction r generalizing bound with
  | nil => simp [containsCode]
  | cons p rest ih =>
    obtain ⟨low, high⟩ := p
    simp only [increasingFrom, Bool.and_eq_true, decide_eq_true_eq] at hr
    by_cases h : n ≤ high
    · simp only [containsCode, h, if_true, decide_eq_true_eq, List.mem_cons, exists_eq_or_imp,
        and_true]
      refine ⟨Or.inl, ?_⟩
      rintro (h' | ⟨q, hq, h1, -⟩)
      · exact h'
      · exact absurd (le_of_mem hr.2 hq) (by omega)
    · simp [containsCode, h, ih hr.2]

theorem contains_iff {r : CharRanges} (hr : r.increasingFrom 0) (c : Char) :
    r.contains c = true ↔ ∃ p ∈ r, p.1 ≤ c.toNat ∧ c.toNat ≤ p.2 :=
  containsCode_iff hr c.toNat

end CharRanges

end SqlFragments
