import BoundSql.Entries
import BoundSql.Options
import BoundSql.Placeholder
import BoundSql.Script

/-!
# Values and fragments

A fragment is a piece of a statement that knows its text and the values bound to the
placeholders in that text. Everything else that can stand in a statement, or be bound in one,
is a plain value; since fragments hold plain values, and plain collections may hold fragments,
the two types are one recursive family.

Most values are the same if they look the same. A fragment, a callback and the float that is no
number are objects: each is the same as itself only, wherever it has been put meanwhile, so it
carries the place it was made at (`Origin`).

Fragments are finished when they are made: a nested statement in particular holds the text and
the bound values that its builder had at that moment, and no builder. So what a fragment binds
need not be stored with it, but is computed from its parts (`Fragment.bindings`).
-/

set_option autoImplicit false

namespace BoundSql

/-- Where an object was made: a path into an expression, innermost step first, and last the
count of the expressions that were begun before that one. No two objects have one origin. -/
abbrev Origin := List Nat

mutual

/-- What can be written into a statement or bound to a placeholder. -/
inductive Value where
  | null
  | bool (b : Bool)
  | int (n : Int)
  | float (x : Binary64)
  /-- The float that is no number. -/
  | nan (origin : Origin)
  | str (s : String)
  | bytes (bytes : List UInt8)
  | list (items : List Value)
  | tuple (items : List Value)
  | dict (entries : List (Value × Value))
  | joinKind (k : JoinKind)
  | options (o : Options)
  | callback (c : Callback) (origin : Origin)
  | fragment (f : Fragment) (origin : Origin)
  /-- A rendered statement with its bound values. -/
  | compiled (sql : String) (params : List (Value × Value))

/-- A piece of a statement. -/
inductive Fragment where
  /-- A name of a column or a table. -/
  | column (name : String)
  /-- A reference to a bound value. -/
  | placeholder (p : Placeholder) (value : Value)
  /-- The keyword for an absent value. -/
  | null
  /-- Parts that are written one after the other, with a space between two. -/
  | raw (parts : List Value)
  /-- An operand converted to a type. -/
  | cast (operand : Fragment) (type : Value)
  /-- A call of a function; a plain argument has become a placeholder. -/
  | function (name : Value) (args : List Fragment)
  | filter (c : Filter)
  /-- A selected column and the name it is given, if that is not `null`. -/
  | projection (column : Fragment) (label : Value)
  /-- Conditions joined by a keyword, in brackets if there are two or more. -/
  | group (c : Connective) (conditions : List Value)
  | subSelect (s : SubSelect)
  /-- Statements joined by the keyword `UNION`, which a modifier may follow. -/
  | union (members : List String) (modifier : Value) (bound : List (Value × Value))
  | join (j : Join)
  | branch (b : Branch)
  /-- The statement that a choice falls back on. -/
  | fallback (s : SubSelect)
  /-- A choice between statements, as a column with a name. -/
  | choice (name : String) (branches : List Branch) (fallback : Option SubSelect)

/-- A comparison of a left side with a right one. The operator is written only between two
sides; `before` and `after` stand around the comparison. Each of the three is left out if it
does not count as present. -/
structure Filter where
  left : Fragment
  right : Option Fragment
  operator : Value
  before : Value
  after : Value

/-- A nested statement: its text, and the values its builder had bound, at the time it was
made. -/
structure SubSelect where
  sql : String
  label : Option String
  bound : List (Value × Value)

/-- A join of the class `family`, which is rendered with the keywords of `kind`. -/
structure Join where
  family : JoinKind
  kind : Value
  table : Fragment
  label : Option String
  condition : Option Fragment

/-- A branch of a choice: a statement and the condition under which it is taken. -/
structure Branch where
  condition : Filter
  result : SubSelect

end

/-- Values under the names of their placeholders. The names are strings, except for those that
a caller writes by hand. -/
abbrev Bindings := Entries Value Value

instance : Inhabited Value := ⟨.null⟩

/-- The value of a constant, if it is evaluated at `origin`. -/
def Atom.value (origin : Origin) : Atom → Value
  | .null => .null
  | .bool b => .bool b
  | .int n => .int n
  | .float x => .float x
  | .nan => .nan origin
  | .str s => .str s
  | .bytes b => .bytes b
  | .joinKind k => .joinKind k

namespace Value

/-- Whether a value counts as present. Null, false, zero and whatever is empty do not; among
fragments, only a group without conditions is empty. -/
def isTruthy : Value → Bool
  | .null => false
  | .bool b => b
  | .int n => n ≠ 0
  | .float x => !x.isZero
  | .str s => !s.isEmpty
  | .bytes b => !b.isEmpty
  | .list items | .tuple items => !items.isEmpty
  | .dict entries => !entries.isEmpty
  | .fragment (.group _ conditions) _ => !conditions.isEmpty
  | _ => true

/-- The value, unless it is `null`. -/
def toOption : Value → Option Value
  | .null => none
  | v => some v

end Value

/-- The name of the class that a fragment belongs to. -/
def Fragment.className : Fragment → String
  | .column _ => "Column"
  | .placeholder .. => "Literal"
  | .null => "Null"
  | .raw _ => "Raw"
  | .cast .. => "Cast"
  | .function .. => "Fn"
  | .filter _ => "Where"
  | .projection .. => "Select"
  | .group .plain _ => "Joinder"
  | .group .and _ => "And"
  | .group .or _ => "Or"
  | .subSelect _ => "SubSelect"
  | .union .. => "Union"
  | .join j => j.family.className
  | .branch _ => "When"
  | .fallback _ => "Else"
  | .choice .. => "Case"

/-- The name of the type of a value, as messages give it. -/
def Value.typeName : Value → String
  | .null => "NoneType"
  | .bool _ => "bool"
  | .int _ => "int"
  | .float _ | .nan _ => "float"
  | .str _ => "str"
  | .bytes _ => "bytes"
  | .list _ => "list"
  | .tuple _ => "tuple"
  | .dict _ => "dict"
  | .joinKind _ => "JoinKind"
  | .options _ => "BuilderOptions"
  | .callback .. => "function"
  | .fragment f _ => f.className
  | .compiled .. => "CompiledSQL"

end BoundSql
