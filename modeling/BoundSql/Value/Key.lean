import BoundSql.Value

/-!
# Values as keys

When two values are the same key of a map. A key is a flat code: numbers of any type that are
equal have the same code (so `true`, `1` and `1.0` are one key), a tuple is coded by its length
and its items, and an object by the place it was made at, so that it is the same key as itself
only. Lists, maps and compiled statements can be no keys. Since sameness is equality of codes it
is an equivalence, which is all that the laws of `Entries` ask for.
-/

set_option autoImplicit false

namespace BoundSql

/-- One part of the code of a key. -/
inductive KeyPart where
  | null
  | number (n : Int)
  | float (x : Binary64)
  | str (s : String)
  | bytes (bytes : List UInt8)
  | tuple (length : Nat)
  | joinKind (k : JoinKind)
  | options (o : Options)
  | object (origin : Origin)
  deriving DecidableEq

namespace Value

/-- The code of a truth value, which is that of a number. -/
def boolNumber (b : Bool) : Int := if b then 1 else 0

mutual

/-- The code of a value as a key; none if it can be no key. -/
def keyCode? : Value → Option (List KeyPart)
  | .null => some [.null]
  | .bool b => some [.number (boolNumber b)]
  | .int n => some [.number n]
  | .float x => some [match x.toInt? with | some n => .number n | none => .float x]
  | .nan origin => some [.object origin]
  | .str s => some [.str s]
  | .bytes b => some [.bytes b]
  | .list _ => none
  | .tuple items => do return .tuple items.length :: (← keyCodes? items)
  | .dict _ => none
  | .joinKind k => some [.joinKind k]
  | .options o => some [.options o]
  | .callback _ origin | .fragment _ origin => some [.object origin]
  | .compiled .. => none
termination_by structural v => v

/-- The codes of the items of a tuple. -/
def keyCodes? : List Value → Option (List KeyPart)
  | [] => some []
  | v :: rest => do return (← v.keyCode?) ++ (← keyCodes? rest)
termination_by structural vs => vs

end

/-- Whether a value can be a key. -/
def isKey (v : Value) : Bool := v.keyCode?.isSome

/-- Two values are the same key if their codes are equal. -/
instance : BEq Value := ⟨fun a b => a.keyCode? == b.keyCode?⟩

theorem beq_iff (a b : Value) : (a == b) = true ↔ a.keyCode? = b.keyCode? := by
  change (a.keyCode? == b.keyCode?) = true ↔ _
  exact beq_iff_eq

instance : EquivBEq Value where
  rfl := by simp [beq_iff]
  symm := by simp only [beq_iff]; exact Eq.symm
  trans := by simp only [beq_iff]; exact Eq.trans

@[simp] theorem beq_str (s t : String) : (Value.str s == Value.str t) = (s == t) := by
  rw [Bool.eq_iff_iff, beq_iff]
  simp [keyCode?]

end Value

end BoundSql
