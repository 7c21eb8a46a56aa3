import SqlFragments.Value.Heap

/-!
# What a value is made of

* `Value.iterate?`: the items of anything that can be gone through, text by its characters and bytes
  by their numbers.
* `Value.sequenceItems?`: the items of a sequence argument.
* **`Value.isSome_sequenceItems?`**: exactly the sequences have them.
-/

namespace SqlFragments.Value

def rangeItems (stop : Int) : List Value := (List.range stop.toNat).map fun (k : Nat) => .int k

def sequenceItems? (h : Heap) : Value → Option (List Value)
  | .list r => some (h.elements r)
  | .tuple items | .segments items | .deque items => some items
  | .range stop => some (rangeItems stop)
  | _ => none

theorem isSome_sequenceItems? (h : Heap) (v : Value) :
    (v.sequenceItems? h).isSome = v.isSequence := by
  cases v <;> rfl

def iterate? (h : Heap) : Value → Option (List Value)
  | .str s => some (s.toList.map fun c => .str (String.singleton c))
  | .bytes b | .byteArray b => some (b.map fun x => .int x.toNat)
  | .dict entries => some (entries.map Prod.fst)
  | .profile p =>
    some [.tuple [.str "join_delimiter", p.joinDelimiter], .tuple [.str "target", p.target]]
  | v => v.sequenceItems? h

/-- The strings among the items, and the first item that is none. -/
def strings : List Value → Except Value (List String)
  | [] => .ok []
  | .str s :: rest => (strings rest).map (s :: ·)
  | v :: _ => .error v

theorem strings_map_str (ss : List String) : strings (ss.map .str) = .ok ss := by
  induction ss with
  | nil => rfl
  | cons s rest ih => simp [strings, ih, Except.map]

theorem strings_eq_ok_iff (items : List Value) (ss : List String) :
    strings items = .ok ss ↔ items = ss.map .str := by
  refine ⟨fun h => ?_, fun h => h ▸ strings_map_str ss⟩
  induction items generalizing ss with
  | nil => simp_all [strings]
  | cons v rest ih =>
    cases v <;> simp only [strings, reduceCtorEq] at h
    rename_i s
    cases hr : strings rest with
    | error e => simp [hr, Except.map] at h
    | ok ts =>
      simp only [hr, Except.map, Except.ok.injEq] at h
      subst h
      simp [ih ts hr]

end SqlFragments.Value
