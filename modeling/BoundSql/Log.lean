/-!
# Records of what a builder did

A builder reports what it renders, what it refuses and what it changes. Records below a
threshold are not kept.
-/

set_option autoImplicit false

namespace BoundSql

/-- How much a record matters. -/
inductive Level where
  | debug
  | info
  | warning
  | error
  | critical
  deriving DecidableEq, Repr

/-- The place of a level in the order. -/
def Level.rank : Level → Nat
  | .debug => 10
  | .info => 20
  | .warning => 30
  | .error => 40
  | .critical => 50

/-- One record. -/
structure Record where
  level : Level
  message : String
  deriving DecidableEq, Repr

namespace Record

/-- A statement of the given kind was rendered. -/
def rendered (statement : String) (bound : Nat) : Record :=
  ⟨.debug, "Rendered " ++ statement ++ " with " ++ Nat.repr bound ++ " bound value(s)"⟩

/-- A limit was lowered. -/
def clamped (limit max : String) : Record :=
  ⟨.info, "LIMIT " ++ limit ++ " clamped to max_limit " ++ max⟩

/-- A statement that would delete every row was refused. -/
def refusedDelete : Record :=
  ⟨.warning, "Refusing to render DELETE without a condition"⟩

end Record

end BoundSql
