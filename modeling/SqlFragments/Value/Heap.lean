import SqlFragments.Value.Basic

/-!
# Objects that change

List objects can grow after they were put into a slot, and counters advance; the heap holds what
each of them currently is.

* `Heap.elements`, `Heap.allocate`, `Heap.append`.
* **`Heap.elements_allocate`**: a new list object leaves all others as they are.
* **`Heap.elements_append`**: appending changes one list object, at its end.
-/

namespace SqlFragments

structure Heap where
  lists : Array (List Value)
  counters : Array Value

namespace Heap

def empty : Heap := ⟨#[], #[]⟩

def elements (h : Heap) (r : ListRef) : List Value := (h.lists[r.index]?).getD []

/-- The list object that is made next. -/
def nextRef (h : Heap) : ListRef := ⟨h.lists.size⟩

def allocate (h : Heap) (items : List Value) : Heap := { h with lists := h.lists.push items }

def append (h : Heap) (r : ListRef) (v : Value) : Heap :=
  { h with lists := h.lists.modify r.index (· ++ [v]) }

def counterValue (h : Heap) (i : Nat) : Value := (h.counters[i]?).getD (.int 0)

/-- Whether a list object has been made. -/
def Holds (h : Heap) (r : ListRef) : Prop := r.index < h.lists.size

/-! ## Laws -/

theorem elements_allocate_self (h : Heap) (items : List Value) :
    (h.allocate items).elements h.nextRef = items := by
  simp [allocate, elements, nextRef]

theorem elements_allocate {h : Heap} {r : ListRef} (hr : h.Holds r) (items : List Value) :
    (h.allocate items).elements r = h.elements r := by
  unfold Holds at hr
  simp [allocate, elements, Array.getElem?_push, Nat.ne_of_lt hr]

theorem elements_allocate_of_ne (h : Heap) {r : ListRef} (hne : h.nextRef ≠ r)
    (items : List Value) : (h.allocate items).elements r = h.elements r := by
  obtain ⟨i⟩ := r
  have hi : i ≠ h.lists.size := by
    rintro rfl
    exact hne rfl
  simp [allocate, elements, Array.getElem?_push, hi]

theorem elements_of_not_holds {h : Heap} {r : ListRef} (hr : ¬ h.Holds r) : h.elements r = [] := by
  unfold Holds at hr
  simp [elements, hr]

theorem append_of_not_holds {h : Heap} {r : ListRef} (hr : ¬ h.Holds r) (v : Value) :
    h.append r v = h := by
  unfold Holds at hr
  simp [append, Array.modify, Array.modifyM, hr]

theorem elements_append (h : Heap) {r r' : ListRef} (hr : h.Holds r) (v : Value) :
    (h.append r v).elements r' = if r = r' then h.elements r ++ [v] else h.elements r' := by
  unfold Holds at hr
  obtain ⟨i⟩ := r
  obtain ⟨j⟩ := r'
  by_cases hij : i = j
  · subst hij
    simp only [append, elements, if_true]
    rw [Array.getElem?_modify]
    simp [Array.getElem?_eq_getElem hr]
  · simp only [append, elements]
    rw [Array.getElem?_modify]
    simp [hij]

theorem elements_append_of_ne (h : Heap) {r r' : ListRef} (hne : r ≠ r') (v : Value) :
    (h.append r v).elements r' = h.elements r' := by
  have hindex : r.index ≠ r'.index := by
    intro hindex
    apply hne
    cases r
    cases r'
    exact congrArg ListRef.mk hindex
  simp only [append, elements]
  rw [Array.getElem?_modify, if_neg hindex]

theorem Holds.allocate {h : Heap} {r : ListRef} (hr : h.Holds r) (items : List Value) :
    (h.allocate items).Holds r := by
  unfold Holds Heap.allocate
  rw [Array.size_push]
  exact Nat.lt_succ_of_lt hr

theorem holds_append (h : Heap) (r r' : ListRef) (v : Value) :
    (h.append r v).Holds r' ↔ h.Holds r' := by
  unfold Holds append
  rw [Array.size_modify]

theorem not_holds_nextRef (h : Heap) : ¬ h.Holds h.nextRef := Nat.lt_irrefl _

end Heap

end SqlFragments
