import BoundSql.Fragment.Bindings
import BoundSql.Fragment.Construction
import BoundSql.Options.Limit
import BoundSql.Text.Blank

/-!
# Builders

A builder collects what a statement consists of in one slot per clause. Rendering only reads
the slots, and nothing is ever removed from a slot that holds a list, so a builder can be
rendered, extended and rendered again.

Clauses come in a fixed order, whatever the order of the calls: fields, table, joins, filters,
groups, order, limit and offset. All filters together are one group joined by `AND`. A clause
that has nothing to show is left out.
-/

set_option autoImplicit false

namespace BoundSql

/-- The slots of a statement in the making. -/
structure Builder where
  /-- The options that the builder was made with. Values that are no options are found out
  when an option is needed. -/
  options : Value
  table : Option Fragment
  fields : List Value
  joins : List Join
  filters : List Filter
  groups : List Value
  order : List Value
  limit : Option Value
  offset : Option Value
  /-- Values that were bound by hand, beside a field. -/
  extra : Bindings

namespace Builder

/-- A builder with empty slots. -/
def empty (options : Value) : Builder :=
  ⟨options, none, [], [], [], [], [], none, none, []⟩

/-- The options of a builder that has proper ones. -/
def properOptions (b : Builder) : Except Fault Options :=
  match b.options with
  | .options o => .ok o
  | _ => .error .notOptions

/-! ## Fields -/

/-- Puts a field at the end. -/
def pushField (v : Value) (b : Builder) : Builder := { b with fields := b.fields ++ [v] }

/-- Puts a field at the end if it is present. -/
def pushField? (v : Value) (b : Builder) : Builder :=
  match v with
  | .null => b
  | v => b.pushField v

/-- The key that marks a map as a function call with values bound by hand. -/
def callKey : Value := .str "fn_call"

/-- The key of the values bound by hand. -/
def replacementsKey : Value := .str "replacements"

/-- Takes over values bound by hand; nothing is taken over from a value that counts as absent. -/
def bindExtra (given : Value) (b : Builder) : Option Fault × Builder :=
  if given.isTruthy then
    let (fault, extra) := Bindings.absorb given b.extra
    (fault, { b with extra })
  else (none, b)

/-- Adds the text of a value. -/
def pushText (v : Value) (b : Builder) : Option Fault × Builder :=
  match v.text with
  | .ok s => (none, b.pushField (.str s))
  | .error fault => (some fault, b)

/-- Adds one field. A string is a name and stands for its quoted text, a map may be a call with
values of its own, and any other value that is no fragment stands for its text. -/
def addField (v : Value) (b : Builder) : Option Fault × Builder :=
  match v with
  | .null => (none, b)
  | .str s => (none, b.pushField (.str (Identifier.quote s)))
  | .fragment f origin => (none, b.pushField (.fragment f origin))
  | .dict entries =>
      match Entries.get? callKey entries with
      | some call =>
          -- The values bound by hand come first, so they stay even where one of them fails.
          match b.bindExtra ((Entries.get? replacementsKey entries).getD .null) with
          | (none, b) => (none, b.pushField? call)
          | (some fault, b) => (some fault, b)
      | none => b.pushText (.dict entries)
  | v => b.pushText v

/-- Adds fields one after the other until one fails; those before it have been added. -/
def addFields : List Value → Builder → Option Fault × Builder
  | [], b => (none, b)
  | v :: rest, b =>
      match b.addField v with
      | (none, b) => addFields rest b
      | (some fault, b) => (some fault, b)

/-! ## Clauses -/

/-- The selected fields, or the wildcard if there are none. -/
def fieldsText (b : Builder) : Except Fault String :=
  if b.fields.isEmpty then .ok "*" else Value.textJoined ", " b.fields

/-- The clause of the table. -/
def tableClause (b : Builder) : Except Fault String :=
  match b.table with
  | none => .ok ""
  | some table => return "FROM " ++ (← table.text)

/-- The clauses of all joins. -/
def joinsClause (b : Builder) : Except Fault String :=
  return " ".intercalate (← b.joins.mapM Join.text)

/-- All filters as one condition. -/
def conditionText (b : Builder) : Except Fault String :=
  return Connective.and.joined (← b.filters.mapM Filter.text)

/-- The clause of the filters. -/
def filterClause (b : Builder) : Except Fault String :=
  if b.filters.isEmpty then .ok "" else return "WHERE " ++ (← b.conditionText)

/-- A clause of items after a keyword. -/
def listClause (keyword : String) (items : List Value) : Except Fault String :=
  if items.isEmpty then .ok "" else return keyword ++ " " ++ (← Value.textJoined ", " items)

/-- A clause of one value after a keyword. -/
def valueClause (keyword : String) (v : Option Value) : Except Fault String :=
  match v with
  | none => .ok ""
  | some v => return keyword ++ " " ++ (← v.text)

/-- The limit of the statement: the one that was set, or else the default one. -/
def effectiveLimit (b : Builder) : Except Fault (Option Value) :=
  match b.limit with
  | some limit => .ok (some limit)
  | none => return (← b.properOptions).defaultLimit.map fun n => Value.int n

/-- The parts of a statement that selects rows, in their order. -/
def selectParts (b : Builder) : Except Fault (List String) := do
  -- The options are consulted before anything is rendered, and only if no limit was set.
  let limit ← b.effectiveLimit
  return ["SELECT", ← b.fieldsText, ← b.tableClause, ← b.joinsClause, ← b.filterClause,
    ← listClause "GROUP BY" b.groups, ← listClause "ORDER BY" b.order,
    ← valueClause "LIMIT" limit, ← valueClause "OFFSET" b.offset]

/-- The parts that are not empty, trimmed at both ends of the whole. -/
def assemble (parts : List String) : String := Text.trim (joinWords parts)

/-- The statement that selects rows. -/
def selectText (b : Builder) : Except Fault String := assemble <$> b.selectParts

/-- The statement that deletes rows. It is refused without a filter. -/
def deleteText (b : Builder) : Except Fault String :=
  if b.filters.isEmpty then .error .unfilteredDelete
  else return assemble ["DELETE", ← b.tableClause, ← b.filterClause]

/-- The values bound in the statement: those bound by hand, and then those of the slots. -/
def bindings (b : Builder) : Bindings :=
  Entries.mergeAll
    [b.extra,
     Fragment.bindings? b.table,
     Value.bindingsOf b.fields,
     Entries.mergeAll (b.joins.map Join.bindings),
     Entries.mergeAll (b.filters.map Filter.bindings),
     Value.bindingsOf b.order,
     Value.bindingsOf b.groups]

/-! ## Small facts -/

@[simp] theorem addFields_nil (b : Builder) : b.addFields [] = (none, b) := rfl

theorem deleteText_of_no_filters {b : Builder} (h : b.filters = []) :
    b.deleteText = .error .unfilteredDelete := by
  simp [deleteText, h]

/-- The clause of an integer is there exactly if the integer can be written. -/
theorem valueClause_int_eq_ok_iff {keyword clause : String} {n : Int} :
    valueClause keyword (some (.int n)) = .ok clause ↔
      Decimal.Fits n ∧ clause = keyword ++ " " ++ Int.repr n := by
  show (do return keyword ++ " " ++ (← Decimal.text n)) = .ok clause ↔ _
  unfold Decimal.text
  split
  · rename_i hfits
    simp [hfits, bind, Except.bind, pure, Except.pure, eq_comm]
  · rename_i hfits
    simp [hfits, bind, Except.bind]

/-- With a filter, the statement that deletes rows has just these three parts. -/
theorem deleteText_of_filters {b : Builder} (h : b.filters ≠ []) :
    b.deleteText = (do return assemble ["DELETE", ← b.tableClause, ← b.filterClause]) := by
  simp [deleteText, h]

end Builder

end BoundSql
