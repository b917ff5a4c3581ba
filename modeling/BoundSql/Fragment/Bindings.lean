import BoundSql.Value.Key

/-!
# The values that a fragment binds

`Fragment.bindings` collects the values bound to the placeholders in the text of a fragment:
those of its parts, merged in the order in which the parts stand. Parts that are no fragments
bind nothing. A nested statement contributes the map that its builder had when it was made.
-/

set_option autoImplicit false

namespace BoundSql

mutual

/-- The values bound in the text of a fragment. -/
def Fragment.bindings : Fragment → Bindings
  | .column _ => []
  | .placeholder p value => [(.str p.name, value)]
  | .null => []
  | .raw parts => Entries.mergeAll (Value.bindingsEach parts)
  | .cast operand _ => operand.bindings
  | .function _ args => Entries.mergeAll (Fragment.bindingsEach args)
  | .filter c => c.bindings
  | .projection column _ => column.bindings
  | .group _ conditions => Entries.mergeAll (Value.bindingsEach conditions)
  | .subSelect s => s.bound
  | .union _ _ bound => bound
  | .join j => j.bindings
  | .branch b => b.bindings
  | .fallback s => s.bound
  | .choice _ branches fallback =>
      Entries.mergeAll (Branch.bindingsEach branches ++ (fallback.map (·.bound)).toList)
termination_by structural f => f

/-- What each fragment of a list binds. -/
def Fragment.bindingsEach : List Fragment → List Bindings
  | [] => []
  | f :: rest => f.bindings :: Fragment.bindingsEach rest
termination_by structural fs => fs

/-- What a fragment that may be absent binds. -/
def Fragment.bindings? : Option Fragment → Bindings
  | none => []
  | some f => f.bindings
termination_by structural f => f

/-- What a value binds by being a fragment. -/
def Value.bindings : Value → Bindings
  | .fragment f _ => f.bindings
  | _ => []
termination_by structural v => v

/-- What each value of a list binds by being a fragment. -/
def Value.bindingsEach : List Value → List Bindings
  | [] => []
  | v :: rest => v.bindings :: Value.bindingsEach rest
termination_by structural vs => vs

/-- The values bound in a comparison: those of its sides. -/
def Filter.bindings : Filter → Bindings
  | ⟨left, right, _, _, _⟩ => Entries.mergeAll [left.bindings, Fragment.bindings? right]
termination_by structural c => c

/-- The values bound in a join: those of its table and its condition. -/
def Join.bindings : Join → Bindings
  | ⟨_, _, table, _, condition⟩ =>
      Entries.mergeAll [table.bindings, Fragment.bindings? condition]
termination_by structural j => j

/-- The values bound in a branch. -/
def Branch.bindings : Branch → Bindings
  | ⟨condition, result⟩ => Entries.mergeAll [condition.bindings, result.bound]
termination_by structural b => b

/-- What each branch of a list binds. -/
def Branch.bindingsEach : List Branch → List Bindings
  | [] => []
  | b :: rest => b.bindings :: Branch.bindingsEach rest
termination_by structural bs => bs

end

/-- What a list of values binds. -/
def Value.bindingsOf (items : List Value) : Bindings :=
  Entries.mergeAll (Value.bindingsEach items)

theorem Value.bindingsEach_eq_map (items : List Value) :
    Value.bindingsEach items = items.map Value.bindings := by
  induction items with
  | nil => rfl
  | cons v rest ih => simp [Value.bindingsEach, ih]

theorem Fragment.bindingsEach_eq_map (fs : List Fragment) :
    Fragment.bindingsEach fs = fs.map Fragment.bindings := by
  induction fs with
  | nil => rfl
  | cons f rest ih => simp [Fragment.bindingsEach, ih]

theorem Branch.bindingsEach_eq_map (bs : List Branch) :
    Branch.bindingsEach bs = bs.map Branch.bindings := by
  induction bs with
  | nil => rfl
  | cons b rest ih => simp [Branch.bindingsEach, ih]

end BoundSql
