import BoundSql.Text.Hex

/-!
# Placeholders

A value never stands in a statement: a placeholder does, and the value is kept beside it. The
name of a placeholder is a tag, which says what kind of construction made it, and eight
hexadecimal digits.
-/

set_option autoImplicit false

namespace BoundSql

/-- What kind of construction a placeholder comes from. -/
inductive Tag where
  | literal
  | function
  | filter
  deriving DecidableEq, Repr

/-- The text in front of the digits. -/
def Tag.text : Tag → String
  | .literal => "lit"
  | .function => "func"
  | .filter => "where"

/-- A generated name. -/
structure Placeholder where
  tag : Tag
  digits : List (Fin 16)
  deriving DecidableEq, Repr

namespace Placeholder

/-- The count of digits in a generated name. -/
def width : Nat := 8

/-- The name, without the colon. -/
def name (p : Placeholder) : String :=
  p.tag.text ++ String.ofList (p.digits.map Text.hexDigit)

end Placeholder

/-- The text that refers to the value bound under a name. -/
def token (name : String) : String := ":" ++ name

end BoundSql
