import BoundSql.Proofs.Commands

/-!
# The normal form of a run on one builder

Calls on a builder can come in any order and any batches, and statements can be rendered in
between. Only what was given to each slot counts in the end, in the order in which that slot was
given it. `Clauses` is this record, one list for each slot, and `Clauses.of` reads it off the
calls of a run, each slot by itself.

`Clauses.text` and `Clauses.bindings` say what a statement with such clauses is, without a look
at any builder, and `Session.Filled` are the sessions that calls on one builder lead to. The
main result is that the builder's own answers are these two, so that they depend on nothing else.

The proof keeps an equation: after every call, the builder is the one that its clauses make up
(`Clauses.builder`). A call that returns adds to its slot what `Clauses.of` says it adds, and
nothing to the others.
-/

set_option autoImplicit false

namespace BoundSql

/-! ## What calls give to the slots -/

/-- A field as it stands in the statement, if it shows there at all. A string is a name, a map may
be a call, and whatever is no fragment else is its text. -/
def Value.asField? : Value → Option Value
  | .null => none
  | .str s => some (.str (Identifier.quote s))
  | .fragment f origin => some (.fragment f origin)
  | .dict entries =>
      match Entries.get? Builder.callKey entries with
      | some call => call.toOption
      | none => (Value.dict entries).text.toOption.map .str
  | v => v.text.toOption.map .str

/-- The values that a field brings along, bound by hand; they are taken over into a map. -/
def Value.absorbedInto (acc : Bindings) : Value → Bindings
  | .dict entries =>
      let given := (Entries.get? Builder.replacementsKey entries).getD .null
      if (Entries.get? Builder.callKey entries).isSome && given.isTruthy then
        (Bindings.absorb given acc).2
      else acc
  | _ => acc

/-- What a value names: itself, if it is a fragment, or the column of that name. -/
def Value.named? : Value → Option Fragment
  | .fragment f _ => some f
  | .str s => some (.column s)
  | _ => none

/-- A comparison that is given as such, or else the one of what `left` names with a fragment. -/
def Filter.given? (left : Value) (right : Option Fragment) (operator : Value) : Option Filter :=
  match left with
  | .fragment (.filter c) _ => some c
  | left => left.named?.map fun l => ⟨l, right, operator, .str "", .str ""⟩

/-- The condition that a value is: a fragment, or none at all. -/
def Value.conditionGiven? : Value → Option (Option Fragment)
  | .null => some none
  | .fragment f _ => some (some f)
  | _ => none

/-- The label that a value is: a text, or none at all. -/
def Value.labelGiven? : Value → Option (Option String)
  | .null => some none
  | .str s => some (some s)
  | _ => none

/-- The plain join of what `table` names. -/
def Join.plain? (table condition label : Value) : Option Join := do
  return ⟨.plain, .joinKind .plain, ← table.named?, ← label.labelGiven?, ← condition.conditionGiven?⟩

/-- A join that is given as such, or else the plain one of a table and a condition, perhaps with a
label. -/
def Join.given? : List Value → Option Join
  | [.fragment (.join j) _] => some j
  | [table, condition] => Join.plain? table condition .null
  | [table, condition, label] => Join.plain? table condition label
  | _ => none

namespace Command

/-- Whether a command runs no callback, draws no placeholder and sets no limit or offset but an
integer. A value to compare with is then a fragment or absent. -/
def isSettled : Command → Bool
  | .filter (.fragment (.filter _) _) _ _ | .filter _ .null _ | .filter _ (.fragment ..) _ => true
  | .limit (.int _) | .offset (.int _) => true
  | .filter .. | .limit _ | .offset _ | .subSelect .. | .union .. => false
  | _ => true

/-- The fields that a command adds, also where it renders a statement. -/
@[simp] def fieldsGiven : Command → List Value
  | .fields added | .select added | .compileSelect added => added
  | _ => []

@[simp] def tablesGiven : Command → List Fragment
  | .table name => name.named?.toList
  | _ => []

@[simp] def joinsGiven : Command → List Join
  | .join args => (Join.given? args).toList
  | _ => []

/-- The comparison that a command adds. What is absent is compared by `IS`, and is the column of
the options if none is given. -/
@[simp] def filtersGiven (o : Options) : Command → List Filter
  | .filter left right operator => (Filter.given? left right.fragment? operator).toList
  | .paranoid target =>
      (Filter.given? (target.toOption.getD (.str o.paranoidColumn)) (some .null)
        (.str "IS")).toList
  | _ => []

@[simp] def groupsGiven : Command → List Value
  | .groupBy clauses => clauses
  | _ => []

@[simp] def orderGiven : Command → List Value
  | .order clauses => clauses
  | _ => []

@[simp] def limitsGiven : Command → List Int
  | .limit (.int n) => [n]
  | _ => []

@[simp] def offsetsGiven : Command → List Int
  | .offset (.int n) => [n]
  | _ => []

end Command

/-- What the slots of a builder have been given, each in the order of the calls. -/
structure Clauses where
  fields : List Value
  tables : List Fragment
  joins : List Join
  filters : List Filter
  groups : List Value
  order : List Value
  limits : List Int
  offsets : List Int

namespace Clauses

/-- What a run of commands gives to each slot. -/
def of (o : Options) (ks : List Command) : Clauses where
  fields := ks.flatMap Command.fieldsGiven
  tables := ks.flatMap Command.tablesGiven
  joins := ks.flatMap Command.joinsGiven
  filters := ks.flatMap (Command.filtersGiven o)
  groups := ks.flatMap Command.groupsGiven
  order := ks.flatMap Command.orderGiven
  limits := ks.flatMap Command.limitsGiven
  offsets := ks.flatMap Command.offsetsGiven

/-- A clause of texts after a keyword; without any there is none. -/
def clause (keyword separator : String) (texts : List String) : String :=
  if texts.isEmpty then "" else keyword ++ " " ++ separator.intercalate texts

/-- All filters as one condition. -/
def condition (c : Clauses) : Fragment :=
  .group .and (c.filters.map fun f => .fragment (.filter f) [])

/-- The limit of the statement: the last one, lowered where it has to be, or the default one. -/
def limit? (o : Options) (c : Clauses) : Option Int :=
  match c.limits.getLast? with
  | some n => some (o.atMost n)
  | none => o.defaultLimit.map Int.ofNat

/-- The statement that the clauses make up. Of tables, limits and offsets the last one counts. -/
def text (o : Options) (c : Clauses) : Except Fault String := do
  let fields ← (c.fields.filterMap Value.asField?).mapM Value.text
  let table ← c.tables.getLast?.toList.mapM Fragment.text
  let joins ← c.joins.mapM Join.text
  let condition ← c.condition.text
  let groups ← c.groups.mapM Value.text
  let order ← c.order.mapM Value.text
  let limit ← (c.limit? o).toList.mapM Decimal.text
  let offset ← c.offsets.getLast?.toList.mapM Decimal.text
  let parts :=
    ["SELECT",
     if fields.isEmpty then "*" else ", ".intercalate fields,
     clause "FROM" "" table,
     " ".intercalate joins,
     if c.filters.isEmpty then "" else "WHERE " ++ condition,
     clause "GROUP BY" ", " groups,
     clause "ORDER BY" ", " order,
     clause "LIMIT" "" limit,
     clause "OFFSET" "" offset]
  return Text.trim (" ".intercalate (parts.filter fun part => !part.isEmpty))

/-- The maps that make up what is bound in that statement: the one of the values bound by hand, and
then one for each item that the clauses hold, in the order in which they are taken over. -/
def maps (c : Clauses) : List Bindings :=
  c.fields.foldl Value.absorbedInto [] ::
    (c.tables.getLast?.toList.map Fragment.bindings ++
      (c.fields.filterMap Value.asField?).map Value.bindings ++
      c.joins.map Join.bindings ++ c.filters.map Filter.bindings ++
      c.order.map Value.bindings ++ c.groups.map Value.bindings)

/-- The values bound in that statement: one merge of all these maps. -/
def bindings (c : Clauses) : Bindings := Entries.mergeAll c.maps

/-- The builder whose slots hold the clauses. -/
def builder (o : Options) (c : Clauses) : Builder where
  options := .options o
  table := c.tables.getLast?
  fields := c.fields.filterMap Value.asField?
  joins := c.joins
  filters := c.filters
  groups := c.groups
  order := c.order
  limit := c.limits.getLast?.map fun n => .int (o.atMost n)
  offset := c.offsets.getLast?.map .int
  extra := c.fields.foldl Value.absorbedInto []

end Clauses

/-- The sessions that calls on one builder lead to. The calls have returned, and beside them
anything may have been done that left the builder as it was. -/
inductive Session.Filled (o : Options) (self : Nat) : List Command → Session → Prop where
  | start {s : Session} (hself : self < s.builders.length)
      (hb : s.builder self = .empty (.options o)) : Filled o self [] s
  | call {ks : List Command} {k : Command} {s s' : Session} {invoke : Invoke} {r : Reply}
      (hs : Filled o self ks s) (hk : k.isSettled = true)
      (h : (k.run invoke self).exec s = (.ok r, s')) : Filled o self (ks ++ [k]) s'
  | elsewhere {ks : List Command} {s s' : Session} (hs : Filled o self ks s)
      (hself : self < s'.builders.length) (hb : s'.builder self = s.builder self) :
      Filled o self ks s'

/-! ## The builder that clauses make up -/

namespace Clauses

theorem renderAll_bare (items : List Value) :
    Value.renderAll .bare items = items.mapM Value.text :=
  Value.renderAll_eq_mapM .bare items

/-- A list clause depends on the texts of its items only. -/
theorem listClause_eq (keyword : String) (items : List Value) :
    Builder.listClause keyword items = clause keyword ", " <$> items.mapM Value.text := by
  cases items with
  | nil => rfl
  | cons v rest =>
    simp [Builder.listClause, Value.textJoined, renderAll_bare, List.mapM_cons, clause]

theorem fieldsText_eq (b : Builder) :
    b.fieldsText =
      (fun ts : List String => if ts.isEmpty then "*" else ", ".intercalate ts) <$>
        b.fields.mapM Value.text := by
  unfold Builder.fieldsText
  cases b.fields with
  | nil => rfl
  | cons v rest => simp [Value.textJoined, renderAll_bare, List.mapM_cons]

theorem tableClause_builder (o : Options) (c : Clauses) :
    (c.builder o).tableClause =
      clause "FROM" "" <$> c.tables.getLast?.toList.mapM Fragment.text := by
  simp only [Builder.tableClause, builder]
  cases c.tables.getLast? with
  | none => rfl
  | some f => simp [clause, List.mapM_cons]

theorem condition_text (c : Clauses) :
    c.condition.text = Connective.and.joined <$> c.filters.mapM Filter.text := by
  have texts : ∀ fs : List Filter,
      (fs.map fun f => Value.fragment (.filter f) []).mapM Value.text = fs.mapM Filter.text := by
    intro fs
    induction fs with
    | nil => rfl
    | cons f rest ih =>
      rw [List.map_cons, List.mapM_cons, List.mapM_cons, ih, Value.text_fragment]
      rfl
  show (do return Connective.and.joined (← Value.renderAll .bare _)) = _
  rw [renderAll_bare, texts, map_eq_pure_bind]

theorem filterClause_eq (b : Builder) :
    b.filterClause =
      (fun condition => if b.filters.isEmpty then "" else "WHERE " ++ condition) <$>
        b.conditionText := by
  unfold Builder.filterClause Builder.conditionText
  cases b.filters with
  | nil => rfl
  | cons f rest =>
    rw [map_eq_pure_bind]
    rfl

/-- The clause of a number is there if the number is. -/
theorem valueClause_int (keyword : String) (number : Option Int) :
    Builder.valueClause keyword (number.map Value.int) =
      clause keyword "" <$> number.toList.mapM Decimal.text := by
  cases number with
  | none => rfl
  | some n =>
    rw [Option.toList_some, List.mapM_cons, List.mapM_nil, Option.map_some, Builder.valueClause,
      Value.text, Value.render]
    cases Decimal.text n with
    | error fault => rfl
    | ok s => simp [clause]

theorem effectiveLimit_builder (o : Options) (c : Clauses) :
    (c.builder o).effectiveLimit = .ok ((c.limit? o).map Value.int) := by
  simp only [Builder.effectiveLimit, limit?, builder]
  cases c.limits.getLast? with
  | some n => rfl
  | none =>
    obtain ⟨column, defaultLimit, maxLimit⟩ := o
    cases defaultLimit <;> rfl

theorem selectText_builder (o : Options) (c : Clauses) :
    (c.builder o).selectText = c.text o := by
  have ok : ∀ {α β : Type} (x : α) (f : α → Except Fault β), (Except.ok x >>= f) = f x :=
    fun _ _ => rfl
  have hjoins : (c.builder o).joinsClause = " ".intercalate <$> c.joins.mapM Join.text := by
    rw [map_eq_pure_bind]
    rfl
  have hfilters : (c.builder o).filterClause =
      (fun condition => if c.filters.isEmpty then "" else "WHERE " ++ condition) <$>
        c.condition.text := by
    rw [filterClause_eq, condition_text, map_eq_pure_bind Connective.and.joined]
    rfl
  simp only [Builder.selectText, Builder.selectParts, effectiveLimit_builder, fieldsText_eq,
    tableClause_builder, hjoins, hfilters, listClause_eq, text]
  simp only [builder, ok, valueClause_int, map_bind, bind_map_left]
  rfl

/-- What a builder merges slot by slot is one merge of all maps in a row. -/
theorem bindings_builder (o : Options) (c : Clauses) : (c.builder o).bindings = c.bindings := by
  have htable : ∀ xs : Bindings, Entries.merge xs (Fragment.bindings? c.tables.getLast?) =
      (c.tables.getLast?.toList.map Fragment.bindings).foldl Entries.merge xs := by
    intro xs
    cases c.tables.getLast? <;> rfl
  have hslot : ∀ (xs : Bindings) (maps : List Bindings),
      Entries.merge xs (Entries.mergeAll maps) = maps.foldl Entries.merge xs := by
    intro xs maps
    rw [Entries.merge_mergeAll, Entries.merge, List.foldl_flatten]
    rfl
  have hitems : ∀ items : List Value,
      Value.bindingsOf items = Entries.mergeAll (items.map Value.bindings) := by
    intro items
    rw [Value.bindingsOf, Value.bindingsEach_eq_map]
  show List.foldl Entries.merge [] _ = List.foldl Entries.merge [] c.maps
  simp only [maps, List.foldl_cons, List.foldl_nil, List.foldl_append, builder, htable, hitems,
    hslot]

end Clauses

/-! ## A call adds to its own slot -/

theorem Value.named?_of_asColumn {v : Value} {f : Fragment} (h : v.asColumn = .ok f) :
    v.named? = some f := by
  cases v <;> cases h <;> rfl

theorem Join.plain?_of_make {table condition label : Value} {j : Join}
    (h : Join.make .plain table condition label .null = .ok j) :
    Join.plain? table condition label = some j := by
  obtain ⟨condition?, hcondition, h⟩ := Except.bind_eq_ok.mp h
  obtain ⟨t, htable, h⟩ := Except.bind_eq_ok.mp h
  obtain ⟨label?, hlabel, h⟩ := Except.bind_eq_ok.mp h
  cases h
  have hcondition : condition.conditionGiven? = some condition? := by
    cases condition <;> cases hcondition <;> rfl
  have hlabel : label.labelGiven? = some label? := by
    cases label <;> cases hlabel <;> rfl
  rw [Join.plain?, Value.named?_of_asColumn htable, hlabel, hcondition]
  rfl

theorem Join.given?_of_joinOfArguments {args : List Value} {j : Join}
    (h : joinOfArguments args = .ok j) : Join.given? args = some j := by
  unfold joinOfArguments at h
  split at h
  · cases h
  · cases h
    rfl
  · cases h
  · rw [Join.given?, Join.plain?_of_make h]
  · rw [Join.given?, Join.plain?_of_make h]
  · cases h

/-- What stands for its text is put in as that text. -/
theorem Builder.pushText_eq {v : Value} {b b' : Builder} (h : b.pushText v = (none, b'))
    (hfield : v.asField? = v.text.toOption.map .str)
    (habsorbed : v.absorbedInto b.extra = b.extra) :
    b' = { b with
      fields := b.fields ++ v.asField?.toList, extra := v.absorbedInto b.extra } := by
  rw [hfield, habsorbed]
  unfold pushText at h
  cases ht : v.text with
  | error fault =>
    rw [ht] at h
    cases h
  | ok t =>
    rw [ht] at h
    cases h
    rfl

theorem Builder.pushField?_eq (v : Value) (b : Builder) :
    b.pushField? v = { b with fields := b.fields ++ v.toOption.toList } := by
  cases v with
  | null => simp [pushField?, Value.toOption]
  | _ => rfl

theorem Builder.bindExtra_eq {given : Value} {b b' : Builder}
    (h : b.bindExtra given = (none, b')) :
    b' = { b with
      extra := if given.isTruthy then (Bindings.absorb given b.extra).2 else b.extra } := by
  unfold bindExtra at h
  split at h
  · rename_i htruthy
    rcases habsorb : Bindings.absorb given b.extra with ⟨fault, extra⟩
    rw [habsorb] at h
    cases h
    rw [if_pos htruthy]
  · rename_i htruthy
    cases h
    rw [if_neg htruthy]

theorem Builder.addField_eq {v : Value} {b b' : Builder} (h : b.addField v = (none, b')) :
    b' = { b with
      fields := b.fields ++ v.asField?.toList, extra := v.absorbedInto b.extra } := by
  cases v with
  | null =>
    cases h
    simp [Value.asField?, Value.absorbedInto]
  | str _ | fragment _ _ =>
    cases h
    rfl
  | dict entries =>
    cases hcall : Entries.get? callKey entries with
    | none =>
      rw [addField, hcall] at h
      exact pushText_eq h (by simp [Value.asField?, hcall]) (by simp [Value.absorbedInto, hcall])
    | some call =>
      rw [addField, hcall] at h
      dsimp only at h
      split at h
      · rename_i b₁ hextra
        cases h
        rw [pushField?_eq, bindExtra_eq hextra]
        simp [Value.asField?, Value.absorbedInto, hcall]
      · cases h
  | _ => exact pushText_eq h rfl rfl

theorem Builder.addFields_eq {added : List Value} {b b' : Builder}
    (h : b.addFields added = (none, b')) :
    b' = { b with
      fields := b.fields ++ added.filterMap Value.asField?
      extra := added.foldl Value.absorbedInto b.extra } := by
  induction added generalizing b with
  | nil =>
    cases h
    simp
  | cons v rest ih =>
    unfold addFields at h
    split at h
    · rename_i b₁ hv
      rw [ih h, addField_eq hv]
      cases hf : v.asField? <;> simp [hf]
    · cases h

/-- What one more command gives to the slots. -/
def Clauses.add (o : Options) (k : Command) (c : Clauses) : Clauses where
  fields := c.fields ++ k.fieldsGiven
  tables := c.tables ++ k.tablesGiven
  joins := c.joins ++ k.joinsGiven
  filters := c.filters ++ k.filtersGiven o
  groups := c.groups ++ k.groupsGiven
  order := c.order ++ k.orderGiven
  limits := c.limits ++ k.limitsGiven
  offsets := c.offsets ++ k.offsetsGiven

theorem Clauses.of_concat (o : Options) (ks : List Command) (k : Command) :
    Clauses.of o (ks ++ [k]) = (Clauses.of o ks).add o k := by
  simp [Clauses.of, Clauses.add]

theorem Clauses.builder_add (o : Options) (k : Command) (c : Clauses) :
    (c.add o k).builder o =
      { options := .options o
        table := (c.tables ++ k.tablesGiven).getLast?
        fields := (c.builder o).fields ++ k.fieldsGiven.filterMap Value.asField?
        joins := c.joins ++ k.joinsGiven
        filters := c.filters ++ k.filtersGiven o
        groups := c.groups ++ k.groupsGiven
        order := c.order ++ k.orderGiven
        limit := (c.limits ++ k.limitsGiven).getLast?.map fun n => .int (o.atMost n)
        offset := (c.offsets ++ k.offsetsGiven).getLast?.map .int
        extra := k.fieldsGiven.foldl Value.absorbedInto (c.builder o).extra } := by
  simp [Clauses.add, Clauses.builder]

/-- A comparison that draws no placeholder is made from its sides at once. -/
theorem Filter.outcome_make {left right operator before after : Value} {s : Supply}
    (hright : right = .null ∨ ∃ f origin, right = .fragment f origin) :
    Action.outcome (Filter.make left right operator before after) s =
      (left.asColumn.map fun l => ⟨l, right.fragment?, operator, before, after⟩, s) := by
  unfold Filter.make
  rw [Action.outcome_bind]
  rcases hright with rfl | ⟨f, origin, rfl⟩
  all_goals
    cases left.asColumn with
    | error fault => rfl
    | ok l => rfl

theorem Filter.outcome_absent (left : Value) (s : Supply) :
    Action.outcome (.ofExcept (Filter.absent left) : Making Filter) s =
      (left.asColumn.map fun l => ⟨l, some .null, .str "IS", .str "", .str ""⟩, s) := by
  unfold Filter.absent
  cases left.asColumn <;> rfl

theorem Command.right_of_isSettled {left right operator : Value}
    (hk : (Command.filter left right operator).isSettled = true)
    (hleft : ∀ f origin, left ≠ .fragment (.filter f) origin) :
    right = .null ∨ ∃ f origin, right = .fragment f origin := by
  cases right with
  | null => exact .inl rfl
  | fragment f origin => exact .inr ⟨f, origin, rfl⟩
  | _ =>
    unfold isSettled at hk
    split at hk
    all_goals simp_all

section Calls

open Session

variable {o : Options} {self : Nat} {c : Clauses} {s s' : Session} {r : Reply} {invoke : Invoke}

/-- The comparison that is given, or made without a placeholder, is put at the end. -/
theorem addFilter_eq_ok {given operator : Value} {make : Value → Making Filter}
    {f? : Option Fragment}
    (hmake : (∀ f origin, given ≠ .fragment (.filter f) origin) → ∀ s,
      Action.outcome (make given) s =
        (given.asColumn.map fun l => ⟨l, f?, operator, .str "", .str ""⟩, s))
    (h : (addFilter self given make).exec s = (.ok (), s')) :
    ∃ f, Filter.given? given f? operator = some f ∧
      s' = s.setBuilder self { s.builder self with filters := (s.builder self).filters ++ [f] } := by
  by_cases hg : ∃ f origin, given = .fragment (.filter f) origin
  · obtain ⟨f, origin, rfl⟩ := hg
    cases h
    exact ⟨f, rfl, rfl⟩
  · have hg' : ∀ f origin, given ≠ .fragment (.filter f) origin :=
      fun f origin hf => hg ⟨f, origin, hf⟩
    rw [exec_addFilter_of_made make s hg', hmake hg'] at h
    cases hl : given.asColumn with
    | error fault =>
      rw [hl] at h
      cases h
    | ok l =>
      rw [hl] at h
      cases h
      refine ⟨_, ?_, rfl⟩
      unfold Filter.given?
      split
      · exact absurd ⟨_, _, rfl⟩ hg
      · rw [Value.named?_of_asColumn hl]
        rfl

/-- Rendering a statement adds its fields and writes no slot else. -/
theorem builder_of_runSelect {added : List Value} {sql : String}
    (hself : self < s.builders.length) (h : (runSelect self added).exec s = (.ok sql, s')) :
    s'.builder self = { s.builder self with
      fields := (s.builder self).fields ++ added.filterMap Value.asField?
      extra := added.foldl Value.absorbedInto (s.builder self).extra } := by
  rw [exec_runSelect] at h
  rcases hadd : (s.builder self).addFields added with ⟨fault | fault, b⟩
  · rw [hadd] at h
    dsimp only at h
    split at h
    · cases h
    · cases h
    · cases h
      rw [builder_addRecord, builder_setBuilder_self hself, ← Builder.addFields_eq hadd]
  · rw [hadd] at h
    cases h

/-- A statement that deletes rows leaves the slots alone. -/
theorem builder_of_runDelete {sql : String} (h : (runDelete self).exec s = (.ok sql, s')) :
    s'.builder self = s.builder self := by
  rw [exec_runDelete] at h
  dsimp only at h
  split at h
  · cases h
  · cases h
    split <;> simp

/-- An integer limit is set to what is at work for it. -/
theorem builder_of_setLimit {n : Int} {o : Options} (hself : self < s.builders.length)
    (ho : (s.builder self).options = .options o)
    (h : (setLimit self (.int n)).exec s = (.ok (), s')) :
    s'.builder self = { s.builder self with limit := some (.int (o.atMost n)) } := by
  obtain ⟨fault, hrun⟩ | ⟨o', limit, ho', hl, t, hrun, ht⟩ := exec_setLimit self (.int n) s
  · rw [hrun] at h
    cases h
  · rw [hrun] at h
    cases h
    obtain rfl : o = o' := Value.options.inj (ho.symm.trans ho')
    rw [Options.clamp_int] at hl
    cases hl
    rcases ht with rfl | ⟨r, rfl⟩
    all_goals
      simp [builder_setBuilder_self hself, Value.toOption]

/-- **A call that returns adds to its own slot what it was given**, and nothing to the others. -/
theorem Command.builder_of_run {k : Command} (hk : k.isSettled = true)
    (hself : self < s.builders.length) (hb : s.builder self = c.builder o)
    (h : (k.run invoke self).exec s = (.ok r, s')) :
    s'.builder self = (c.add o k).builder o := by
  have hoptions : (s.builder self).properOptions = .ok o := by rw [hb]; rfl
  rw [Clauses.builder_add]
  cases k with
  | subSelect _ _ | union _ _ => cases hk
  | table name =>
    obtain ⟨f, s₁, hmade, h⟩ := Run.exec_bind_eq_ok h
    obtain ⟨hf, rfl⟩ : name.asColumn = .ok f ∧ s = s₁ := Prod.mk.inj hmade
    cases h
    simp [builder_setBuilder_self hself, hb, Value.named?_of_asColumn hf, Clauses.builder]
  | fields added =>
    obtain ⟨u, s₁, hadd, h⟩ := Run.exec_bind_eq_ok h
    cases h
    rw [Run.exec_editBuilder] at hadd
    rcases hresult : (s.builder self).addFields added with ⟨fault | fault, b⟩
    · rw [hresult] at hadd
      cases hadd
      rw [builder_setBuilder_self hself, Builder.addFields_eq hresult, hb]
      simp [Clauses.builder]
    · rw [hresult] at hadd
      cases hadd
  | filter left right operator =>
    obtain ⟨u, s₁, hadd, h⟩ := Run.exec_bind_eq_ok h
    cases h
    have hmake : (∀ f origin, left ≠ .fragment (.filter f) origin) → ∀ s,
        Action.outcome (Filter.make left right operator (.str "") (.str "")) s = _ :=
      fun hleft _ => Filter.outcome_make (right_of_isSettled hk hleft)
    obtain ⟨f, hf, rfl⟩ := addFilter_eq_ok hmake hadd
    simp [builder_setBuilder_self hself, hb, hf, Clauses.builder]
  | join args =>
    obtain ⟨j, s₁, hmade, h⟩ := Run.exec_bind_eq_ok h
    obtain ⟨hj, rfl⟩ : joinOfArguments args = .ok j ∧ s = s₁ := Prod.mk.inj hmade
    cases h
    simp [builder_setBuilder_self hself, hb, Join.given?_of_joinOfArguments hj, Clauses.builder]
  | limit number =>
    obtain ⟨u, s₁, hset, h⟩ := Run.exec_bind_eq_ok h
    cases h
    cases number with
    | int n =>
      rw [builder_of_setLimit hself (by rw [hb]; rfl) hset, hb]
      simp [Clauses.builder]
    | _ => cases hk
  | offset number =>
    cases h
    cases number with
    | int n => simp [builder_setBuilder_self hself, hb, Clauses.builder, Value.toOption]
    | _ => cases hk
  | order clauses | groupBy clauses =>
    cases h
    simp [builder_setBuilder_self hself, hb, Clauses.builder]
  | paranoid target =>
    rw [exec_paranoid (Builder.absenceTarget_of_properOptions hoptions target)] at h
    obtain ⟨u, s₁, hadd, h⟩ := Run.exec_bind_eq_ok h
    cases h
    obtain ⟨f, hf, rfl⟩ := addFilter_eq_ok (fun _ => Filter.outcome_absent _) hadd
    simp [builder_setBuilder_self hself, hb, hf, Clauses.builder]
  | select added | compileSelect added =>
    obtain ⟨sql, s₁, hrun, h⟩ := Run.exec_bind_eq_ok h
    cases h
    rw [builder_of_runSelect hself hrun, hb]
    simp [Clauses.builder]
  | delete | compileDelete =>
    obtain ⟨sql, s₁, hrun, h⟩ := Run.exec_bind_eq_ok h
    cases h
    rw [builder_of_runDelete hrun, hb]
    simp [Clauses.builder]
  | bindings | options =>
    cases h
    simp [hb, Clauses.builder]
  | clampLimit number =>
    rw [exec_clampLimit] at h
    obtain ⟨-, rfl⟩ := Prod.mk.inj h
    simp [hb, Clauses.builder]

theorem Command.length_builders {k : Command} (hk : k.isSettled = true)
    (h : (k.run invoke self).exec s = (.ok r, s')) :
    s'.builders.length = s.builders.length := by
  have hn : k.nests = false := by
    cases k with
    | subSelect _ _ | union _ _ => cases hk
    | _ => rfl
  obtain ⟨-, b, -, heq⟩ := run_changed hn (fun _ _ _ => True)
    (le_refl ((k.run invoke self).exec s).2.supply)
  rw [h] at heq
  have hlength := congrArg (fun t : Session => t.builders.length) heq
  simpa [setBuilder] using hlength

/-- Rendering without new fields shows what is there. -/
theorem exec_select_nil (invoke : Invoke) (self : Nat) (s : Session) :
    (((Command.select []).run invoke self).exec s).1 =
      (fun sql => Reply.value (.str sql)) <$> (s.builder self).selectText := by
  simp only [Command.run, Run.exec_bind, exec_runSelect, Builder.addFields_nil,
    setBuilder_builder]
  cases (s.builder self).selectText <;> rfl

end Calls

/-! ## Runs -/

/-- **After any calls the builder is the one that its clauses make up.** -/
theorem Session.Filled.builder_eq {o : Options} {self : Nat} {ks : List Command} {s : Session}
    (h : s.Filled o self ks) :
    self < s.builders.length ∧ s.builder self = (Clauses.of o ks).builder o := by
  induction h with
  | start hself hb => exact ⟨hself, hb⟩
  | call hs hk h ih =>
    rw [Clauses.of_concat]
    refine ⟨?_, Command.builder_of_run hk ih.1 ih.2 h⟩
    rw [Command.length_builders hk h]
    exact ih.1
  | elsewhere hs hself hb ih => exact ⟨hself, hb.trans ih.2⟩

/-- Calls that are made one after the other lead to such a session. -/
theorem Session.Filled.calls {o : Options} {self : Nat} {ks ks' : List Command} {s : Session}
    {invoke : Invoke} (hs : s.Filled o self ks) (hk : ∀ k ∈ ks', k.isSettled = true)
    (h : ((ks'.mapM (Command.run invoke self)).exec s).1.isOk = true) :
    ((ks'.mapM (Command.run invoke self)).exec s).2.Filled o self (ks ++ ks') := by
  induction ks' generalizing ks s with
  | nil => simpa using hs
  | cons k rest ih =>
    rw [List.mapM_cons, Run.exec_bind] at h ⊢
    rcases hrun : (k.run invoke self).exec s with ⟨fault | r, s₁⟩
    · rw [hrun] at h
      cases h
    · have hs₁ := hs.call (hk k List.mem_cons_self) hrun
      have hrest := ih hs₁ fun k hk' => hk k (List.mem_cons_of_mem _ hk')
      rw [hrun] at h
      simp only [Run.exec_bind] at h ⊢
      rcases hall : (rest.mapM (Command.run invoke self)).exec s₁ with ⟨fault | rs, s₂⟩
      · rw [hall] at h
        cases h
      · simpa [hall] using hrest (by rw [hall]; rfl)

/-- **The normal form of a run.** Whatever was called on a builder in whatever order and batches,
the statement it renders and the values it binds are those of its clauses; so two runs that gave
the same to each slot have the same answers. -/
theorem select_eq_text_of_clauses {o : Options} {self : Nat} {ks : List Command} {s : Session}
    (h : s.Filled o self ks) (invoke : Invoke) :
    (((Command.select []).run invoke self).exec s).1 =
        (fun sql => Reply.value (.str sql)) <$> (Clauses.of o ks).text o ∧
      ((Command.bindings.run invoke self).exec s).1 =
        .ok (.value (.dict (Clauses.of o ks).bindings)) ∧
      ∀ {self' : Nat} {ks' : List Command} {s' : Session} (invoke' : Invoke),
        s'.Filled o self' ks' → Clauses.of o ks' = Clauses.of o ks →
        (((Command.select []).run invoke' self').exec s').1 =
            (((Command.select []).run invoke self).exec s).1 ∧
          ((Command.bindings.run invoke' self').exec s').1 =
            ((Command.bindings.run invoke self).exec s).1 := by
  have answers : ∀ {self : Nat} {ks : List Command} {s : Session} (invoke : Invoke),
      s.Filled o self ks →
      (((Command.select []).run invoke self).exec s).1 =
          (fun sql => Reply.value (.str sql)) <$> (Clauses.of o ks).text o ∧
        ((Command.bindings.run invoke self).exec s).1 =
          .ok (.value (.dict (Clauses.of o ks).bindings)) := by
    intro self ks s invoke h
    obtain ⟨-, hb⟩ := h.builder_eq
    rw [exec_select_nil, hb, Clauses.selectText_builder]
    refine ⟨rfl, ?_⟩
    simp only [Command.run, Run.exec_bind, Run.exec_builder, hb, Clauses.bindings_builder]
    rfl
  obtain ⟨hselect, hbindings⟩ := answers invoke h
  refine ⟨hselect, hbindings, fun invoke' h' hsame => ?_⟩
  obtain ⟨hselect', hbindings'⟩ := answers invoke' h'
  rw [hselect', hbindings', hselect, hbindings, hsame]
  exact ⟨rfl, rfl⟩

/-- A call of a function with a value bound by hand. -/
def zonedCall : Value :=
  .dict [(Builder.callKey, .fragment (.raw [.str "now(:zone)"]) []),
    (Builder.replacementsKey, .dict [(.str "zone", .str "UTC")])]

/-- A comparison of two columns. -/
def taggedOn : Value :=
  .fragment (.filter ⟨.column "tags.post", some (.column "id"), .str "=", .str "", .str ""⟩) []

/-- A value behind a placeholder that was drawn before. -/
def drawnBefore : Value :=
  .fragment (.placeholder ⟨.filter, List.replicate 8 ⟨1, by decide⟩⟩ (.int 3)) []

/-- Calls out of the order of the clauses, with a table, a limit and an offset that do not last, and
with renderings in between. -/
def interleavedCalls : List Command :=
  [.order [.str "id DESC"], .table (.str "drafts"), .offset (.int 10), .limit (.int 7),
    .select [.str "id"], .join [.str "tags", taggedOn], .filter (.str "a") drawnBefore (.str "<"),
    .groupBy [.str "kind"], .fields [.null, .str "title"], .table (.str "posts"),
    .paranoid .null, .limit (.int 5), .offset (.int 20), .compileSelect [zonedCall]]

/-- Calls that give the same to each slot, in the order of the clauses and in fewer batches. -/
def orderedCalls : List Command :=
  [.fields [.str "id", .null, .str "title", zonedCall], .table (.str "drafts"),
    .table (.str "posts"), .join [.str "tags", taggedOn],
    .filter (.str "a") drawnBefore (.str "<"), .paranoid .null, .groupBy [.str "kind"],
    .order [.str "id DESC"], .limit (.int 7), .limit (.int 5), .offset (.int 10),
    .offset (.int 20)]

/-- What calls on the root builder lead to. -/
def runOf (ks : List Command) : Except Fault (List Reply) × Session :=
  (ks.mapM (Command.run (Callback.run 0) 0)).exec
    (.start Supply.counting .info (.options .default))

theorem filled_runOf {ks : List Command} (hk : ∀ k ∈ ks, k.isSettled = true)
    (h : (runOf ks).1.isOk = true) : (runOf ks).2.Filled .default 0 ks :=
  .calls (.start Nat.zero_lt_one rfl) hk h

theorem select_eq_text_of_interleaved :
    (runOf interleavedCalls).2.Filled .default 0 interleavedCalls ∧
    (runOf orderedCalls).2.Filled .default 0 orderedCalls ∧
    ∀ ks ∈ [interleavedCalls, orderedCalls],
      (((Command.select []).run (Callback.run 0) 0).exec (runOf ks).2).1 =
        .ok (.value (.str ("SELECT \"id\", \"title\", now(:zone) FROM \"posts\" " ++
          "JOIN \"tags\" ON \"tags\".\"post\" = \"id\" " ++
          "WHERE (\"a\" < :where11111111 AND \"deleted_at\" IS NULL) " ++
          "GROUP BY kind ORDER BY id DESC LIMIT 5 OFFSET 20"))) ∧
      ((Command.bindings.run (Callback.run 0) 0).exec (runOf ks).2).1 =
        .ok (.value (.dict [(.str "zone", .str "UTC"), (.str "where11111111", .int 3)])) := by
  have hfilled : (runOf interleavedCalls).2.Filled .default 0 interleavedCalls :=
    filled_runOf (by decide +kernel) (by decide +kernel)
  have hordered : (runOf orderedCalls).2.Filled .default 0 orderedCalls :=
    filled_runOf (by decide +kernel) (by decide +kernel)
  have htext : (Clauses.of .default interleavedCalls).text .default =
      .ok ("SELECT \"id\", \"title\", now(:zone) FROM \"posts\" " ++
          "JOIN \"tags\" ON \"tags\".\"post\" = \"id\" " ++
          "WHERE (\"a\" < :where11111111 AND \"deleted_at\" IS NULL) " ++
          "GROUP BY kind ORDER BY id DESC LIMIT 5 OFFSET 20") := by
    decide +kernel
  obtain ⟨hselect, hbindings, hsame⟩ := select_eq_text_of_clauses hfilled (Callback.run 0)
  obtain ⟨hselect', hbindings'⟩ := hsame (Callback.run 0) hordered rfl
  rw [htext] at hselect
  refine ⟨hfilled, hordered, List.forall_mem_cons.mpr ⟨⟨hselect, hbindings⟩, ?_⟩⟩
  exact List.forall_mem_singleton.mpr ⟨hselect'.trans hselect, hbindings'.trans hbindings⟩

end BoundSql
