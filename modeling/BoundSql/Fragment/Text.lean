import BoundSql.Fault
import BoundSql.Number.Shortest
import BoundSql.Text.Quoted
import BoundSql.Identifier
import BoundSql.Value

/-!
# The text of fragments and values

`Fragment.text` is the piece of a statement that a fragment stands for. `Value.render` is the
text of any value, in one of two forms: bare, as it is written into a statement, or quoted, as
it is shown inside another value. The two differ for strings, fragments, options and
directions only.

Rendering changes nothing and draws no placeholder. It fails only where a keyword position
(an operator, what stands around a comparison, the modifier of a union, the direction of a
join) holds a value that is no keyword, and where an integer is shown that has too many digits
to be written.
-/

set_option autoImplicit false

namespace BoundSql

/-- The words that are not empty, with a space between two. -/
def joinWords (words : List String) : String :=
  " ".intercalate (words.filter fun w => !w.isEmpty)

/-- The text that a value already is. -/
def Value.word? : Value → Except Fault String
  | .str s => .ok s
  | _ => .error .notText

/-- The values that count as present, with a space between two; each of them must be a text. -/
def joinPresent (parts : List Value) : Except Fault String :=
  return " ".intercalate (← (parts.filter Value.isTruthy).mapM Value.word?)

/-- The keyword of a union, with its modifier if there is one. -/
def unionKeyword (modifier : Value) : Except Fault String :=
  joinPresent [.str "UNION", modifier]

/-- The text of a nested statement: in brackets, and with its label. -/
def SubSelect.text (s : SubSelect) : String :=
  match s.label with
  | none => "(" ++ s.sql ++ ")"
  | some label => "(" ++ s.sql ++ ") AS " ++ Identifier.quote label

/-- The direction that a join renders. -/
def Join.direction (j : Join) : Except Fault JoinKind :=
  match j.kind with
  | .joinKind k => .ok k
  | _ => .error .notAJoinKind

/-- Conditions joined by a keyword. A single one stands alone, more than one are in brackets. -/
def Connective.joined (c : Connective) : List String → String
  | [] => ""
  | [condition] => condition
  | conditions => "(" ++ (" " ++ c.term ++ " ").intercalate conditions ++ ")"

/-! ## Texts of plain values -/

/-- The form in which a value is written. -/
inductive Form where
  | bare
  | quoted
  deriving DecidableEq, Repr

/-- The text of a truth value. -/
def boolText (b : Bool) : String := if b then "True" else "False"

/-- The pair of keywords of a direction. -/
def JoinKind.pairText (k : JoinKind) : String :=
  "(" ++ Text.quoted k.before ++ ", " ++ Text.quoted k.after ++ ")"

/-- The text of a direction: its name, and when quoted its two keywords too. -/
def JoinKind.text (k : JoinKind) : Form → String
  | .bare => "JoinKind." ++ k.name
  | .quoted => "<JoinKind." ++ k.name ++ ": " ++ k.pairText ++ ">"

/-- The text of an integer, if it is not too long. -/
def Decimal.text (n : Int) : Except Fault String :=
  if Decimal.Fits n then .ok (Int.repr n) else .error .integerTooLong

/-- The text of a limit that may be absent. -/
def limitText : Option Nat → Except Fault String
  | none => .ok "None"
  | some n => Decimal.text n

/-- The text of options: each with its value, and when quoted in brackets. -/
def Options.text (o : Options) (form : Form) : Except Fault String := do
  let fields :=
    ["paranoid_column=" ++ Text.quoted o.paranoidColumn,
     "default_limit=" ++ (← limitText o.defaultLimit),
     "max_limit=" ++ (← limitText o.maxLimit)]
  return match form with
    | .bare => " ".intercalate fields
    | .quoted => "BuilderOptions(" ++ ", ".intercalate fields ++ ")"

/-- A text in the braces of a map. -/
def braced (s : String) : String := "\x7b" ++ s ++ "\x7d"

/-- The text of a tuple; a single item keeps its comma. -/
def tupleText : List String → String
  | [item] => "(" ++ item ++ ",)"
  | items => "(" ++ ", ".intercalate items ++ ")"

theorem Decimal.text_of_fits {n : Int} (h : Decimal.Fits n) :
    Decimal.text n = .ok (Int.repr n) := if_pos h

theorem Decimal.text_eq_ok {n : Int} {s : String} (h : Decimal.text n = .ok s) :
    Decimal.Fits n ∧ s = Int.repr n := by
  unfold Decimal.text at h
  split at h
  · cases h
    exact ⟨‹_›, rfl⟩
  · cases h

/-! ## Rendering -/

mutual

/-- The text of a value. -/
def Value.render (form : Form) : Value → Except Fault String
  | .null => .ok "None"
  | .bool b => .ok (boolText b)
  | .int n => Decimal.text n
  | .float x => .ok x.text
  | .nan _ => .ok "nan"
  | .str s => .ok (match form with | .bare => s | .quoted => Text.quoted s)
  | .bytes b => .ok (Text.quotedBytes b)
  | .list items => do return "[" ++ ", ".intercalate (← Value.renderAll .quoted items) ++ "]"
  | .tuple items => do return tupleText (← Value.renderAll .quoted items)
  | .dict entries => do return braced (", ".intercalate (← Value.renderEntries entries))
  | .joinKind k => .ok (k.text form)
  | .options o => o.text form
  | .callback .. => .ok "<function>"
  | .fragment f _ => do
      let sql ← f.text
      return match form with
        | .bare => sql
        | .quoted => f.className ++ "(" ++ Text.quoted sql ++ ")"
  | .compiled sql params => do
      return "CompiledSQL(sql=" ++ Text.quoted sql ++ ", params="
        ++ braced (", ".intercalate (← Value.renderEntries params)) ++ ")"
termination_by structural v => v

/-- The texts of the items of a list. -/
def Value.renderAll (form : Form) : List Value → Except Fault (List String)
  | [] => .ok []
  | v :: rest => do return (← v.render form) :: (← Value.renderAll form rest)
termination_by structural vs => vs

/-- The texts of the entries of a map. -/
def Value.renderEntries : List (Value × Value) → Except Fault (List String)
  | [] => .ok []
  | e :: rest => do return (← Value.renderEntry e) :: (← Value.renderEntries rest)
termination_by structural es => es

/-- The text of one entry of a map. -/
def Value.renderEntry : Value × Value → Except Fault String
  | (k, v) => do return (← k.render .quoted) ++ ": " ++ (← v.render .quoted)
termination_by structural e => e

/-- The text of a fragment. -/
def Fragment.text : Fragment → Except Fault String
  | .column name => .ok (Identifier.quote name)
  | .placeholder p _ => .ok (token p.name)
  | .null => .ok "NULL"
  | .raw parts => do return " ".intercalate (← Value.renderAll .bare parts)
  | .cast operand type => do return (← operand.text) ++ "::" ++ (← type.render .bare)
  | .function name args => do
      return (← name.render .bare) ++ "(" ++ ", ".intercalate (← Fragment.texts args) ++ ")"
  | .filter c => c.text
  | .projection column label => do
      let column ← column.text
      match label with
      | .null => return column
      | label => return column ++ " as " ++ (← label.render .bare)
  | .group c conditions => do return c.joined (← Value.renderAll .bare conditions)
  | .subSelect s => .ok s.text
  | .union members modifier _ => do
      return (" " ++ (← unionKeyword modifier) ++ " ").intercalate members
  | .join j => j.text
  | .branch b => b.text
  | .fallback s => .ok ("ELSE " ++ s.text)
  | .choice name branches fallback => do
      let branches ← Branch.texts branches
      let fallback := match fallback with
        | none => ""
        | some s => "ELSE " ++ s.text
      return joinWords ["CASE", " ".intercalate branches, fallback, "END AS", Identifier.quote name]
termination_by structural f => f

/-- The texts of fragments. -/
def Fragment.texts : List Fragment → Except Fault (List String)
  | [] => .ok []
  | f :: rest => do return (← f.text) :: (← Fragment.texts rest)
termination_by structural fs => fs

/-- The text of a fragment that may be absent. -/
def Fragment.text? : Option Fragment → Except Fault (Option String)
  | none => .ok none
  | some f => do return some (← f.text)
termination_by structural f => f

/-- The text of a comparison. -/
def Filter.text : Filter → Except Fault String
  | ⟨left, right, operator, before, after⟩ => do
      -- Both sides are rendered before any keyword is looked at: their faults come first.
      let left ← left.text
      let right ← Fragment.text? right
      let rightPart := match right with
        | none => []
        | some right => [operator, .str right]
      joinPresent (before :: .str left :: (rightPart ++ [after]))
termination_by structural c => c

/-- The text of a join. -/
def Join.text : Join → Except Fault String
  | ⟨family, kind, table, label, condition⟩ => do
      -- The direction is looked at first: its fault comes before those of the parts.
      let kind ← (Join.mk family kind table label condition).direction
      let table ← table.text
      let condition ← Fragment.text? condition
      return joinWords
        ([kind.before, "JOIN", kind.after, table, (label.map Identifier.quote).getD ""]
          ++ match condition with
            | none => []
            | some condition => ["ON", condition])
termination_by structural j => j

/-- The text of a branch. -/
def Branch.text : Branch → Except Fault String
  | ⟨condition, result⟩ => do return "WHEN " ++ (← condition.text) ++ " THEN " ++ result.text
termination_by structural b => b

/-- The texts of branches. -/
def Branch.texts : List Branch → Except Fault (List String)
  | [] => .ok []
  | b :: rest => do return (← b.text) :: (← Branch.texts rest)
termination_by structural bs => bs

end

namespace Value

/-- The text of a value as it is written into a statement. -/
def text (v : Value) : Except Fault String := v.render .bare

/-- The text of a value as it is shown inside another one. -/
def quoted (v : Value) : Except Fault String := v.render .quoted

/-- The texts of the items of a list with a separator between two. -/
def textJoined (separator : String) (items : List Value) : Except Fault String :=
  return separator.intercalate (← renderAll .bare items)

@[simp] theorem text_fragment (f : Fragment) (origin : Origin) :
    (Value.fragment f origin).text = f.text := by
  simp only [text, render]
  cases f.text <;> rfl

@[simp] theorem text_str (s : String) : (Value.str s).text = .ok s := rfl

theorem renderAll_eq_mapM (form : Form) (items : List Value) :
    renderAll form items = items.mapM (render form) := by
  induction items with
  | nil => simp [renderAll]; rfl
  | cons v rest ih => simp [renderAll, ih]

end Value

end BoundSql
