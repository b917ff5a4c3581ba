import BoundSql.Value

/-!
# Calls and their arguments

A script calls constructors and methods with any arguments. Here a call is matched against the
parameters of what is called: positional arguments fill parameters in order, named ones by
name, and a missing one takes the default. What comes out is a `Construction` or a `Command`,
which has exactly the fields that its kind needs; a call that does not match has no meaning.
-/

set_option autoImplicit false

namespace BoundSql

/-- The arguments of a call. -/
structure Arguments where
  positional : List Value
  named : Entries String Value

/-- Reads parameters off the arguments of a call; fails if one is missing. -/
abbrev ArgumentReader (α : Type) : Type := StateT Arguments Option α

namespace ArgumentReader

/-- A parameter that can be given by name only. -/
def keyword? (name : String) : ArgumentReader (Option Value) := fun a =>
  match Entries.get? name a.named with
  | some v => some (some v, { a with named := a.named.filter fun e => e.1 != name })
  | none => some (none, a)

/-- A parameter that can be given by position or by name. -/
def parameter? (name : String) : ArgumentReader (Option Value) := fun a =>
  match a.positional with
  | v :: rest => some (some v, { a with positional := rest })
  | [] => keyword? name a

/-- A parameter without a default. -/
def required (name : String) : ArgumentReader Value := do
  match ← parameter? name with
  | some v => return v
  | none => failure

/-- A parameter with a default. -/
def optional (name : String) (default : Value) : ArgumentReader Value :=
  return (← parameter? name).getD default

/-- A parameter with a default that can be given by name only. -/
def keyword (name : String) (default : Value) : ArgumentReader Value :=
  return (← keyword? name).getD default

/-- All positional arguments that are left. -/
def rest : ArgumentReader (List Value) := fun a =>
  some (a.positional, { a with positional := [] })

end ArgumentReader

/-- What a reader makes of the arguments, if it uses all of them. -/
def Arguments.read? {α : Type} (a : Arguments) (r : ArgumentReader α) : Option α :=
  match r a with
  | some (x, ⟨[], []⟩) => some x
  | _ => none

/-! ## Constructions -/

/-- The making of a value, with all parameters filled. -/
inductive Construction where
  | column (name : Value)
  | literal (value : Value)
  | null
  | raw (parts : List Value)
  | cast (operand type : Value)
  | function (name : Value) (args : List Value)
  | group (c : Connective) (conditions : List Value)
  | filter (left right operator before after : Value)
  | projection (column label : Value)
  | subSelect (callback label options : Value)
  | union (callbacks modifier options : Value)
  | join (family : JoinKind) (table condition label kind : Value)
  | branch (condition result : Value)
  | fallback (result : Value)
  | choice (name branches fallback : Value)
  | asColumn (value : Value)
  | ownSubSelect (callback label : Value)
  | ownUnion (callbacks modifier : Value)

open ArgumentReader in
/-- The parameters of each constructor. -/
def Constructor.reader : Constructor → ArgumentReader Construction
  | .column => return .column (← required "name")
  | .literal => return .literal (← required "value")
  | .null => return .null
  | .raw => return .raw (← rest)
  | .cast => return .cast (← required "statement") (← required "type_name")
  | .function => return .function (← required "name") (← rest)
  | .group c => return .group c (← rest)
  | .filter =>
      return .filter (← required "left") (← optional "right" .null)
        (← optional "operator" (.str "=")) (← keyword "prefix" (.str ""))
        (← keyword "suffix" (.str ""))
  | .projection => return .projection (← required "column") (← optional "alias" .null)
  | .subSelect =>
      return .subSelect (← required "builder_fn") (← optional "name" .null)
        (← keyword "options" .null)
  | .union =>
      return .union (← required "builder_fns") (← optional "modifier" .null)
        (← keyword "options" .null)
  | .unionAll => return .union (.tuple (← rest)) (.str "ALL") .null
  | .unionDistinct => return .union (.tuple (← rest)) .null .null
  | .join family =>
      return .join family (← required "table") (← optional "condition" .null)
        (← optional "table_alias" .null) (← keyword "kind" .null)
  | .branch => return .branch (← required "condition") (← required "select")
  | .fallback => return .fallback (← required "select")
  | .choice =>
      return .choice (← required "name") (← required "when_branches")
        (← optional "else_branch" .null)
  | .asColumn => return .asColumn (← required "value")
  | .ownSubSelect => return .ownSubSelect (← required "builder_fn") (← optional "name" .null)
  | .ownUnion => return .ownUnion (← required "builder_fns") (← optional "modifier" .null)

/-- The construction that a call of a constructor asks for. -/
def Constructor.construction? (c : Constructor) (a : Arguments) : Option Construction :=
  a.read? c.reader

/-! ## Commands -/

/-- A call of a method of a builder, with all parameters filled. -/
inductive Command where
  | table (name : Value)
  | fields (fields : List Value)
  | filter (left right operator : Value)
  | join (args : List Value)
  | limit (number : Value)
  | offset (number : Value)
  | order (clauses : List Value)
  | groupBy (clauses : List Value)
  | paranoid (column : Value)
  | select (fields : List Value)
  | delete
  | compileSelect (fields : List Value)
  | compileDelete
  | bindings
  | subSelect (callback label : Value)
  | union (callbacks modifier : Value)
  | clampLimit (limit : Value)
  | options

open ArgumentReader in
/-- The parameters of each method. -/
def Method.reader : Method → ArgumentReader Command
  | .table => return .table (← required "name")
  | .fields => return .fields (← rest)
  | .filter =>
      return .filter (← required "left") (← optional "right" .null)
        (← optional "operator" (.str "="))
  | .join => return .join (← rest)
  | .limit => return .limit (← required "number")
  | .offset => return .offset (← required "number")
  | .order => return .order (← rest)
  | .groupBy => return .groupBy (← rest)
  | .paranoid => return .paranoid (← optional "field_name" .null)
  | .select => return .select (← rest)
  | .delete => return .delete
  | .compileSelect => return .compileSelect (← rest)
  | .compileDelete => return .compileDelete
  | .bindings => return .bindings
  | .subSelect => return .subSelect (← required "builder_fn") (← optional "name" .null)
  | .union => return .union (← required "builder_fns") (← optional "modifier" .null)
  | .clampLimit => return .clampLimit (← required "limit")
  | .options => return .options

/-- The command that a call of a method asks for. -/
def Method.command? (m : Method) (a : Arguments) : Option Command :=
  a.read? m.reader

example : Constructor.filter.construction? ⟨[.str "a"], [("right", .int 1)]⟩ =
    some (.filter (.str "a") (.int 1) (.str "=") (.str "") (.str "")) := by rfl

example : Constructor.null.construction? ⟨[.int 1], []⟩ = none := by rfl

end BoundSql
