import BoundSql.Options.Validation
import BoundSql.Session

/-!
# Running scripts

What constructions, commands, expressions and steps do to a session. All of them are defined
for any way of running a callback on a builder (`Invoke`), and so by recursion on the script
alone; `Callback.run` then ties the knot, with a bound on how deeply callbacks may be nested.
A callback can be reached under a name from within itself, and only then is the bound met.

`self` is always the place of the builder at hand: the one whose step is being run, innermost
first.
-/

set_option autoImplicit false

namespace BoundSql

/-- What a step answers: the builder itself, for further calls, or a value. -/
inductive Reply where
  | builder
  | value (v : Value)

/-- The name of the type of an answer, as messages give it. -/
def Reply.typeName : Reply → String
  | .builder => "QueryBuilder"
  | .value v => v.typeName

/-- A way of running a callback on the builder at a place. -/
abbrev Invoke : Type := Callback → Nat → Run Reply

/-! ## Nested statements -/

/-- The options that a value gives to a new builder; without any, the default ones. -/
def givenOptions (options : Value) : Value := options.toOption.getD (.options .default)

/-- Runs a callback on a new builder. The answer has to be the text of a statement; it comes
with the values that the builder has bound by then. -/
def runNested (invoke : Invoke) (className : String) (options callback : Value) :
    Run (String × Bindings) := do
  let nested ← Run.newBuilder (givenOptions options)
  match callback with
  | .callback c _ =>
      match ← invoke c nested with
      | .value (.str sql) => do
          let b ← Run.builder nested
          Run.note (.nested b sql)
          return (sql, b.bindings)
      | reply => throw (.misuse (.answerNotStatement className reply.typeName))
  | _ => throw .notCallable

/-- Makes a nested statement. -/
def makeSubSelect (invoke : Invoke) (callback label options : Value) : Run Fragment := do
  -- The label is looked at before the callback is run.
  let label ← Run.ofExcept label.name?
  let (sql, bound) ← runNested invoke "SubSelect" options callback
  return .subSelect ⟨sql, label, bound⟩

/-- Runs the callbacks of a union, each on a builder of its own. -/
def runMembers (invoke : Invoke) (options : Value) : List Value → Run (List (String × Bindings))
  | [] => return []
  | callback :: rest => do
      let member ← runNested invoke "Union" options callback
      return member :: (← runMembers invoke options rest)

/-- Makes a union of nested statements. -/
def makeUnion (invoke : Invoke) (callbacks modifier options : Value) : Run Fragment := do
  let members ← runMembers invoke options (← Run.ofExcept callbacks.items)
  return .union (members.map (·.1)) modifier (Entries.mergeAll (members.map (·.2)))

/-! ## Constructions -/

/-- Makes the fragment that a construction asks for. -/
def Construction.make (invoke : Invoke) (self : Nat) : Construction → Run Fragment
  | .column name => return .column (← Run.ofExcept name.name)
  | .literal v => Run.making (Fragment.ofLiteral v)
  | .null => return .null
  | .raw parts => return .raw parts
  | .cast operand type => Run.ofExcept (Fragment.ofCast operand type)
  | .function name args => Run.making (Fragment.ofFunction name args)
  | .group c conditions => return .group c conditions
  | .filter left right operator before after =>
      return .filter (← Run.making (Filter.make left right operator before after))
  | .projection target label => Run.ofExcept (Fragment.ofProjection target label)
  | .subSelect callback label options => makeSubSelect invoke callback label options
  | .union callbacks modifier options => makeUnion invoke callbacks modifier options
  | .join family table condition label kind =>
      return .join (← Run.ofExcept (Join.make family table condition label kind))
  | .branch condition result => return .branch (← Run.ofExcept (Branch.make condition result))
  | .fallback result => Run.ofExcept (Fragment.ofFallback result)
  | .choice name branches last => Run.ofExcept (Fragment.ofChoice name branches last)
  | .asColumn v => Run.ofExcept v.asColumn
  | .ownSubSelect callback label => do
      makeSubSelect invoke callback label (← Run.builder self).options
  | .ownUnion callbacks modifier => do
      makeUnion invoke callbacks modifier (← Run.builder self).options

/-- Makes the value that a construction asks for, as a new object made at `origin`. A fragment in
a position where something is named stays the object that it is. -/
def Construction.value (invoke : Invoke) (self : Nat) (origin : Origin) :
    Construction → Run Value
  | .asColumn (.fragment f known) => return .fragment f known
  | c => do
      let f ← c.make invoke self
      Run.note (.fragment f)
      return .fragment f origin

/-- Carries a construction out. -/
def Construction.run (invoke : Invoke) (self : Nat) (origin : Origin) (c : Construction) :
    Run Value := do
  Run.note (.construction c)
  c.value invoke self origin

/-! ## Commands -/

/-- Adds a filter: what is given, if that is a finished comparison, or else a comparison made from
it. -/
def addFilter (self : Nat) (given : Value) (make : Value → Making Filter) : Run Unit := do
  let c ← match given with
    | .fragment (.filter c) _ => pure c
    | given => Run.making (make given)
  Run.modifyBuilder self fun b => { b with filters := b.filters ++ [c] }

/-- The join that the arguments of a call describe: a finished one by itself, or the parts of a
new one. -/
def joinOfArguments : List Value → Except Fault Join
  | [] => .error (.misuse .joinOfNothing)
  | [.fragment (.join j) _] => .ok j
  | [_] => .error (.misuse .joinOfNoJoin)
  | [table, condition] => Join.make .plain table condition .null .null
  | [table, condition, label] => Join.make .plain table condition label .null
  | _ => .error .badArguments

/-- Sets the limit, lowered if it exceeds the greatest one; that it was lowered is recorded. What
keeps the record forms its text at once, so if there is no such text the call fails. -/
def setLimit (self : Nat) (number : Value) : Run Unit := do
  let o ← Run.ofExcept (← Run.builder self).properOptions
  let limit ← Run.ofExcept (o.clamp number)
  -- A number without an integer part, or with too long a one, has no text in a record, and then
  -- the limit stays as it was.
  if ← Run.ofExcept (o.isClamped number) then
    if ← Run.keeps .info then
      Run.record (.clamped (← Run.ofExcept number.integerText) (← Run.ofExcept limit.integerText))
  Run.modifyBuilder self fun b => { b with limit := limit.toOption }

/-- Adds fields and renders the statement that selects rows. -/
def runSelect (self : Nat) (fields : List Value) : Run String := do
  Run.editBuilder self (Builder.addFields fields)
  let b ← Run.builder self
  let sql ← Run.ofExcept b.selectText
  Run.record (.rendered "SELECT" b.bindings.length)
  return sql

/-- Renders the statement that deletes rows; a refusal is recorded. -/
def runDelete (self : Nat) : Run String := do
  let b ← Run.builder self
  if b.filters.isEmpty then Run.record .refusedDelete
  let sql ← Run.ofExcept b.deleteText
  Run.record (.rendered "DELETE" b.bindings.length)
  return sql

/-- Runs a command on the builder at hand. -/
def Command.run (invoke : Invoke) (self : Nat) : Command → Run Reply
  | .table name => do
      let table ← Run.ofExcept name.asColumn
      Run.modifyBuilder self fun b => { b with table := some table }
      return .builder
  | .fields added => do
      Run.editBuilder self (Builder.addFields added)
      return .builder
  | .filter left right operator => do
      addFilter self left fun left => Filter.make left right operator (.str "") (.str "")
      return .builder
  | .join args => do
      let j ← Run.ofExcept (joinOfArguments args)
      Run.modifyBuilder self fun b => { b with joins := b.joins ++ [j] }
      return .builder
  | .limit number => do
      setLimit self number
      return .builder
  | .offset number => do
      Run.modifyBuilder self fun b => { b with offset := number.toOption }
      return .builder
  | .order clauses => do
      Run.modifyBuilder self fun b => { b with order := b.order ++ clauses }
      return .builder
  | .groupBy clauses => do
      Run.modifyBuilder self fun b => { b with groups := b.groups ++ clauses }
      return .builder
  | .paranoid column => do
      let column ← match column with
        | .null => do
            let o ← Run.ofExcept (← Run.builder self).properOptions
            pure (.str o.paranoidColumn)
        | column => pure column
      addFilter self column fun column => .ofExcept (Filter.absent column)
      return .builder
  | .select added => return .value (.str (← runSelect self added))
  | .delete => return .value (.str (← runDelete self))
  | .compileSelect added => do
      let sql ← runSelect self added
      return .value (.compiled sql (← Run.builder self).bindings)
  | .compileDelete => do
      let sql ← runDelete self
      return .value (.compiled sql (← Run.builder self).bindings)
  | .bindings => return .value (.dict (← Run.builder self).bindings)
  | .subSelect callback label => do
      return .value (← (Construction.ownSubSelect callback label).run invoke self [])
  | .union callbacks modifier => do
      return .value (← (Construction.ownUnion callbacks modifier).run invoke self [])
  | .clampLimit number => do
      let o ← Run.ofExcept (← Run.builder self).properOptions
      return .value (← Run.ofExcept (o.clamp number))
  | .options => return .value (← Run.builder self).options

/-! ## Expressions -/

mutual

/-- The value that an expression denotes. Arguments are evaluated in order, positional ones
first. A part of an expression has the origin of the whole and its own place in it. -/
def Expr.eval (invoke : Invoke) (self : Nat) (origin : Origin) : Expr → Run Value
  | .atom a => return a.value origin
  | .list items => return .list (← Expr.evalAll invoke self origin 0 items)
  | .tuple items => return .tuple (← Expr.evalAll invoke self origin 0 items)
  | .dict items => return .dict (← Expr.evalEntries invoke self origin 0 [] items)
  | .options data => do
      let data ← data.eval invoke self (0 :: origin)
      return .options (← Run.ofExcept (Options.ofValue data))
  | .ref name => Run.named name
  | .callback c => return .callback c origin
  | .call c args named => do
      let args ← Expr.evalAll invoke self (0 :: origin) 0 args
      let named ← Expr.evalNamed invoke self (1 :: origin) 0 named
      match c.construction? ⟨args, named⟩ with
      | some construction => construction.run invoke self origin
      | none => throw .badArguments
termination_by structural e => e

/-- The values of expressions, from left to right; the first has the place `i`. -/
def Expr.evalAll (invoke : Invoke) (self : Nat) (origin : Origin) :
    (i : Nat) → List Expr → Run (List Value)
  | _, [] => return []
  | i, e :: rest => do
      let v ← e.eval invoke self (i :: origin)
      return v :: (← Expr.evalAll invoke self origin (i + 1) rest)
termination_by structural _ es => es

/-- The values of named arguments. -/
def Expr.evalNamed (invoke : Invoke) (self : Nat) (origin : Origin) :
    (i : Nat) → List (String × Expr) → Run (Entries String Value)
  | _, [] => return []
  | i, e :: rest => do
      let v ← Expr.evalNamedOne invoke self (i :: origin) e
      return v :: (← Expr.evalNamed invoke self origin (i + 1) rest)
termination_by structural _ es => es

/-- The value of one named argument. -/
def Expr.evalNamedOne (invoke : Invoke) (self : Nat) (origin : Origin) :
    String × Expr → Run (String × Value)
  | (name, e) => do return (name, ← e.eval invoke self origin)
termination_by structural e => e

/-- The entries of a map, added to the entries `acc` before them. Each is added before the next
one is evaluated, so a value that can be no key ends the evaluation there. -/
def Expr.evalEntries (invoke : Invoke) (self : Nat) (origin : Origin) :
    (i : Nat) → (acc : Bindings) → List (Expr × Expr) → Run Bindings
  | _, acc, [] => return acc
  | i, acc, e :: rest => do
      let (k, v) ← Expr.evalEntry invoke self (i :: origin) e
      if k.isKey then Expr.evalEntries invoke self origin (i + 1) (Entries.insert k v acc) rest
      else throw .notAKey
termination_by structural _ _ es => es

/-- One entry of a map, the key before the value. -/
def Expr.evalEntry (invoke : Invoke) (self : Nat) (origin : Origin) :
    Expr × Expr → Run (Value × Value)
  | (k, v) => do return (← k.eval invoke self (0 :: origin), ← v.eval invoke self (1 :: origin))
termination_by structural e => e

end

/-- The value of an expression that is no part of another one. -/
def Expr.begin (invoke : Invoke) (self : Nat) (e : Expr) : Run Value := do
  e.eval invoke self (← Run.origin)

/-! ## Steps and callbacks -/

/-- Runs one step on the builder at hand. -/
def Step.run (invoke : Invoke) (self : Nat) : Step → Run Reply
  | .call m args named => do
      let args ← args.mapM (Expr.begin invoke self)
      let named ← named.mapM fun (name, e) => return (name, ← e.begin invoke self)
      match m.command? ⟨args, named⟩ with
      | some command =>
          Run.note (.command self command)
          command.run invoke self
      | none => throw .badArguments
  | .bind name e => do
      let v ← e.begin invoke self
      Run.bindName name v
      return .value v

/-- Runs steps in order; the answer is that of the last one, or else `last`. -/
def Step.runAll (invoke : Invoke) (self : Nat) : (last : Reply) → List Step → Run Reply
  | last, [] => return last
  | _, step :: rest => do Step.runAll invoke self (← step.run invoke self) rest

/-- Runs a callback on the builder at hand, given a way of running the callbacks inside. -/
def Callback.runWith (invoke : Invoke) (c : Callback) (self : Nat) : Run Reply := do
  -- The builder is within reach from the start, so it stays so when a step fails.
  if let some name := c.capture then Run.capture name self
  let last ← Step.runAll invoke self (.value .null) c.steps
  match c.answer with
  | none => return last
  | some e => return .value (← e.begin invoke self)

/-- Runs a callback in which callbacks are nested to at most the given depth. -/
def Callback.run : (depth : Nat) → Invoke
  | 0 => fun _ _ => throw .nestedTooDeep
  | depth + 1 => Callback.runWith (Callback.run depth)

/-- The depth to which callbacks may be nested. -/
def maxDepth : Nat := 200

/-- The value that an expression denotes beside the root builder. -/
def Expr.value (e : Expr) : Run Value := e.begin (Callback.run maxDepth) Session.root

end BoundSql
