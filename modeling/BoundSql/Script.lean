import BoundSql.JoinKind
import BoundSql.Number.Binary64

/-!
# Scripts

The programs that build statements, as data. An expression denotes a value: a constant, a
collection, a fragment made by one of the constructors, or a callback. A callback is a list of
steps to be run on a fresh builder; it is only a text until somebody runs it, so an expression
never runs anything by itself but the constructors that take callbacks. Steps call a method of
the builder or give a name to a value.
-/

set_option autoImplicit false

namespace BoundSql

/-- A constant. -/
inductive Atom where
  | null
  | bool (b : Bool)
  | int (n : Int)
  | float (x : Binary64)
  | nan
  | str (s : String)
  | bytes (bytes : List UInt8)
  | joinKind (k : JoinKind)
  deriving DecidableEq

/-- The keyword between the conditions of a group; the plain one has none. -/
inductive Connective where
  | plain
  | and
  | or
  deriving DecidableEq, Repr

/-- The keyword itself. -/
def Connective.term : Connective → String
  | .plain => ""
  | .and => "AND"
  | .or => "OR"

/-- The constructors that a script can call. The last two make nested statements that share
the options of the builder at hand. -/
inductive Constructor where
  | column
  | literal
  | null
  | raw
  | cast
  | function
  | group (c : Connective)
  | filter
  | projection
  | subSelect
  | union
  | unionAll
  | unionDistinct
  | join (k : JoinKind)
  | branch
  | fallback
  | choice
  | asColumn
  | ownSubSelect
  | ownUnion
  deriving DecidableEq, Repr

/-- The methods of a builder that a script can call. -/
inductive Method where
  | table
  | fields
  | filter
  | join
  | limit
  | offset
  | order
  | groupBy
  | paranoid
  | select
  | delete
  | compileSelect
  | compileDelete
  | bindings
  | subSelect
  | union
  | clampLimit
  | options
  deriving DecidableEq, Repr

mutual

/-- A text that denotes a value. -/
inductive Expr where
  | atom (a : Atom)
  | list (items : List Expr)
  | tuple (items : List Expr)
  | dict (items : List (Expr × Expr))
  | options (data : Expr)
  | ref (name : String)
  | callback (c : Callback)
  | call (c : Constructor) (args : List Expr) (named : List (String × Expr))

/-- One step of a script. -/
inductive Step where
  | call (m : Method) (args : List Expr) (named : List (String × Expr))
  | bind (name : String) (value : Expr)

/-- Steps for a fresh builder. The answer is the value of `answer`, or else that of the last
step; under the name `capture` the builder stays within reach. -/
structure Callback where
  steps : List Step
  answer : Option Expr
  capture : Option String

end

end BoundSql
