import BoundSql.Fault
import BoundSql.Value.Key

/-!
# Values as sequences and as maps

What a value consists of when something runs through it, and how the entries of one value are
taken over into a map. Besides a map, a sequence of pairs is taken over, pair by pair; if one
element turns out to be no pair, the pairs before it have been taken over already.
-/

set_option autoImplicit false

namespace BoundSql

namespace Value

/-- The value of a limit that may be absent. -/
def ofLimit : Option Nat → Value
  | none => .null
  | some n => .int n

/-- The items that a value consists of, if it can be run through. -/
def items? : Value → Option (List Value)
  | .list items | .tuple items => some items
  | .str s => some (s.toList.map fun c => .str (String.singleton c))
  | .bytes b => some (b.map fun x => .int x.toNat)
  | .dict entries => some (entries.map (·.1))
  | .options o => some
      [.tuple [.str "paranoid_column", .str o.paranoidColumn],
       .tuple [.str "default_limit", ofLimit o.defaultLimit],
       .tuple [.str "max_limit", ofLimit o.maxLimit]]
  | _ => none

/-- The items of a value that has to consist of some. -/
def items (v : Value) : Except Fault (List Value) :=
  match v.items? with
  | some items => .ok items
  | none => .error .notIterable

end Value

namespace Bindings

/-- One element of a sequence of pairs, as an entry. -/
def entry (v : Value) : Except Fault (Value × Value) := do
  match ← v.items with
  | [k, x] => if k.isKey then return (k, x) else throw .notAKey
  | _ => throw .notAPair

/-- Takes over pairs until one fails; the fault comes with what has been taken over. -/
def absorbPairs : List Value → Bindings → Option Fault × Bindings
  | [], acc => (none, acc)
  | v :: rest, acc =>
      match entry v with
      | .ok (k, x) => absorbPairs rest (Entries.insert k x acc)
      | .error fault => (some fault, acc)

/-- Takes over the entries of a value. -/
def absorb (v : Value) (acc : Bindings) : Option Fault × Bindings :=
  match v with
  | .dict entries => (none, Entries.merge acc entries)
  | v =>
      match v.items with
      | .ok items => absorbPairs items acc
      | .error fault => (some fault, acc)

/-- The map that a value is, or that its pairs make. -/
def ofValue (v : Value) : Except Fault Bindings :=
  match absorb v [] with
  | (none, b) => .ok b
  | (some fault, _) => .error fault

/-- The merge of any number of values, left to right; absent and empty ones are skipped. -/
def mergeValues : List Value → Bindings → Except Fault Bindings
  | [], acc => .ok acc
  | v :: rest, acc =>
      if v.isTruthy then
        match absorb v acc with
        | (none, acc) => mergeValues rest acc
        | (some fault, _) => .error fault
      else mergeValues rest acc

/-- The values bound by a statement together with those of one run, which win. Both have to be
maps. -/
def withRuntime (params runtime : Value) : Except Fault Bindings :=
  match params, runtime with
  | .dict p, .dict r => .ok (Entries.merge p r)
  | _, _ => .error .notAMap

/-! ## Small facts -/

theorem absorb_of_items {v : Value} {items : List Value} (hv : ∀ es, v ≠ .dict es)
    (h : v.items = .ok items) (acc : Bindings) : absorb v acc = absorbPairs items acc := by
  unfold absorb
  split
  · exact absurd rfl (hv _)
  · rw [h]

theorem absorb_of_fault {v : Value} {fault : Fault} (hv : ∀ es, v ≠ .dict es)
    (h : v.items = .error fault) (acc : Bindings) : absorb v acc = (some fault, acc) := by
  unfold absorb
  split
  · exact absurd rfl (hv _)
  · rw [h]

theorem mergeValues_of_not_isTruthy {v : Value} (h : v.isTruthy = false) (rest : List Value)
    (acc : Bindings) : mergeValues (v :: rest) acc = mergeValues rest acc := by
  rw [mergeValues, if_neg (by simp [h])]

/-- An empty map is passed over, and would have added nothing. -/
theorem mergeValues_dict (m : Bindings) (rest : List Value) (acc : Bindings) :
    mergeValues (.dict m :: rest) acc = mergeValues rest (Entries.merge acc m) := by
  cases m <;> rfl

end Bindings

end BoundSql
