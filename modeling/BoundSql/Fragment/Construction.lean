import BoundSql.Fragment.Text
import BoundSql.Supply
import BoundSql.Value.Sequence

/-!
# Making fragments

How fragments are made from values. There are two kinds of positions. Where something is named
(the left side of a comparison, a table, the operand of a cast) a string becomes a quoted name;
where data stands (the right side of a comparison, an argument of a function) every value that
is no fragment is bound to a fresh placeholder and never reaches the text. A fragment is taken
as it is in both.

Making a fragment may draw placeholders and may fail. A drawn placeholder stays drawn when the
making fails afterwards, so the state of the supply survives a fault.
-/

set_option autoImplicit false

namespace BoundSql

/-- Makes something with fresh placeholders; the supply survives a fault. -/
abbrev Making (α : Type) : Type := ExceptT Fault (StateM Supply) α

/-- A result that needs no placeholder. -/
def Making.ofExcept {α : Type} (r : Except Fault α) : Making α := ExceptT.mk (pure r)

/-- A value behind a fresh placeholder. -/
def Making.bound (tag : Tag) (v : Value) : Making Fragment :=
  ExceptT.mk fun s => let (p, s) := s.fresh tag v; (.ok (.placeholder p v), s)

namespace Value

/-- The name that a value is. -/
def name : Value → Except Fault String
  | .str s => .ok s
  | .bytes _ => .error .nameOfBytes
  | _ => .error .notAName

/-- The name that a value is, if the value is present. -/
def name? : Value → Except Fault (Option String)
  | .null => .ok none
  | v => some <$> v.name

/-- A value in a position where something is named. -/
def asColumn : Value → Except Fault Fragment
  | .fragment f _ => .ok f
  | v => .column <$> v.name

/-- A value in a position where data stands. -/
def asOperand (tag : Tag) : Value → Making Fragment
  | .fragment f _ => pure f
  | v => .bound tag v

/-- A value in a position where data stands or nothing does. -/
def asOperand? (tag : Tag) : Value → Making (Option Fragment)
  | .null => pure none
  | v => some <$> v.asOperand tag

/-- The branch of a choice that a value is. -/
def asBranch : Value → Except Fault Branch
  | .fragment (.branch b) _ => .ok b
  | _ => .error (.misuse .choiceBranches)

/-- The nested statement that a choice falls back on, if there is one. -/
def asFallback? : Value → Except Fault (Option SubSelect)
  | .null => .ok none
  | .fragment (.fallback s) _ => .ok (some s)
  | _ => .error (.misuse .choiceFallback)

/-- The condition of a join of the class `family`, if there is one. -/
def asCondition? (family : JoinKind) : Value → Except Fault (Option Fragment)
  | .null => .ok none
  | .fragment f _ => .ok (some f)
  | _ => .error (.misuse (.joinCondition family.className))

end Value

namespace Fragment

/-- A value bound to a placeholder. -/
def ofLiteral (v : Value) : Making Fragment := .bound .literal v

/-- A call of a function; the arguments are data. -/
def ofFunction (name : Value) (args : List Value) : Making Fragment :=
  return .function name (← args.mapM (Value.asOperand .function))

/-- A cast of what `operand` names. -/
def ofCast (operand type : Value) : Except Fault Fragment :=
  return .cast (← operand.asColumn) type

/-- A selected column. -/
def ofProjection (column label : Value) : Except Fault Fragment :=
  return .projection (← column.asColumn) label

end Fragment

/-- A comparison of what `left` names with the data `right`. -/
def Filter.make (left right operator before after : Value) : Making Filter := do
  let left ← .ofExcept left.asColumn
  let right ← right.asOperand? .filter
  return ⟨left, right, operator, before, after⟩

/-- The comparison that holds where what `left` names is absent. -/
def Filter.absent (left : Value) : Except Fault Filter :=
  return ⟨← left.asColumn, some .null, .str "IS", .str "", .str ""⟩

/-- A join of the class `family`. A direction that counts as absent is that of the class. -/
def Join.make (family : JoinKind) (table condition label kind : Value) : Except Fault Join := do
  let condition ← condition.asCondition? family
  let kind := if kind.isTruthy then kind else .joinKind family
  return ⟨family, kind, ← table.asColumn, ← label.name?, condition⟩

/-- A branch of a choice, from a comparison and a nested statement. -/
def Branch.make : Value → Value → Except Fault Branch
  | .fragment (.filter c) _, .fragment (.subSelect s) _ => .ok ⟨c, s⟩
  | _, _ => .error (.misuse .branchParts)

namespace Fragment

/-- What a choice falls back on, from a nested statement. -/
def ofFallback : Value → Except Fault Fragment
  | .fragment (.subSelect s) _ => .ok (.fallback s)
  | _ => .error (.misuse .fallbackPart)

/-- A choice between statements. -/
def ofChoice (name branches fallback : Value) : Except Fault Fragment := do
  let branches ← (← branches.items).mapM Value.asBranch
  let fallback ← fallback.asFallback?
  return .choice (← name.name) branches fallback

end Fragment

/-! ## Names on request -/

/-- The count that a value is; negative numbers count nothing. -/
def Value.count : Value → Except Fault Nat
  | .bool b => .ok (Value.boolNumber b).toNat
  | .int n => .ok n.toNat
  | _ => .error .notACount

/-- The hexadecimal text of as many digits as asked for. -/
def Making.hexText (length : Value) : Making String := do
  let n ← .ofExcept length.count
  ExceptT.mk fun s =>
    let (digits, s) := s.draw n
    (.ok (String.ofList (digits.map Text.hexDigit)), s)

/-- A name with any tag and any count of digits. -/
def Making.nameWith (tag length : Value) : Making String := do
  let tag ← .ofExcept tag.text
  return tag ++ (← Making.hexText length)

end BoundSql
