/-!
# Directions of a join

Every direction is the keyword `JOIN` with one pair of keywords around it. A fragment class is
named after each direction, and a join remembers both: the class it was made with, and the
direction it renders, which may have been chosen separately.
-/

set_option autoImplicit false

namespace BoundSql

/-- The direction of a join. -/
inductive JoinKind where
  | plain
  | inner
  | outer
  | leftOuter
  | fullOuter
  | lateralCross
  | lateralLeft
  deriving DecidableEq, Repr

namespace JoinKind

/-- All directions. -/
def all : List JoinKind :=
  [.plain, .inner, .outer, .leftOuter, .fullOuter, .lateralCross, .lateralLeft]

theorem mem_all (k : JoinKind) : k ∈ all := by cases k <;> simp [all]

/-- The keywords in front of `JOIN`. -/
def before : JoinKind → String
  | .plain => ""
  | .inner => "INNER"
  | .outer => "OUTER"
  | .leftOuter => "LEFT OUTER"
  | .fullOuter => "FULL OUTER"
  | .lateralCross => "CROSS"
  | .lateralLeft => "LEFT"

/-- The keywords after `JOIN`. -/
def after : JoinKind → String
  | .lateralCross | .lateralLeft => "LATERAL"
  | _ => ""

/-- The name of the direction. -/
def name : JoinKind → String
  | .plain => "PLAIN"
  | .inner => "INNER"
  | .outer => "OUTER"
  | .leftOuter => "LEFT_OUTER"
  | .fullOuter => "FULL_OUTER"
  | .lateralCross => "LATERAL_CROSS"
  | .lateralLeft => "LATERAL_LEFT"

/-- The name of the class of joins that has this direction by default. -/
def className : JoinKind → String
  | .plain => "Join"
  | .inner => "InnerJoin"
  | .outer => "OuterJoin"
  | .leftOuter => "LeftOuterJoin"
  | .fullOuter => "FullOuterJoin"
  | .lateralCross => "LateralCrossJoin"
  | .lateralLeft => "LateralLeftJoin"

/-- The direction with a given name. -/
def ofName? (s : String) : Option JoinKind := all.find? (·.name == s)

end JoinKind

end BoundSql
