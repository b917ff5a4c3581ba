import BoundSql.Proofs.Redaction

/-!
# Redaction leaves texts alone

The text of a value or a fragment is the same after redaction, fault or not, and so is everything
that messages and decisions look at: the name of a type, whether a value counts as present, what
it consists of. The map of a fragment keeps its keys and their order.

Each induction here follows the function that it is about.
-/

set_option autoImplicit false

namespace BoundSql

/-! ## What a value shows at once -/

@[simp] theorem Fragment.className_redact (f : Fragment) : f.redact.className = f.className := by
  cases f with
  | group c _ => cases c <;> rfl
  | join j =>
    obtain ⟨family, kind, table, label, condition⟩ := j
    rfl
  | _ => rfl

namespace Value

@[simp] theorem typeName_redact (v : Value) : (v.redact .plain).typeName = v.typeName := by
  cases v with
  | fragment f origin => exact f.className_redact
  | _ => rfl

@[simp] theorem isTruthy_redact (v : Value) : (v.redact .plain).isTruthy = v.isTruthy := by
  cases v with
  | list items | tuple items => cases items <;> rfl
  | dict entries => cases entries <;> rfl
  | fragment f origin =>
    cases f with
    | group c conditions => cases conditions <;> rfl
    | _ => rfl
  | _ => rfl

@[simp] theorem word?_redact (v : Value) : (v.redact .plain).word? = v.word? := by
  cases v <;> rfl

end Value

theorem joinPresent_redact (parts : List Value) :
    joinPresent (parts.map (Value.redact .plain)) = joinPresent parts := by
  have hword : (Value.word? ∘ Value.redact .plain) = Value.word? := funext Value.word?_redact
  have htruthy : (Value.isTruthy ∘ Value.redact .plain) = Value.isTruthy :=
    funext Value.isTruthy_redact
  rw [joinPresent, List.filter_map, List.mapM_map, hword, htruthy, joinPresent]

theorem unionKeyword_redact (modifier : Value) :
    unionKeyword (modifier.redact .plain) = unionKeyword modifier :=
  joinPresent_redact [.str "UNION", modifier]

theorem Join.direction_redact (j : Join) : j.redact.direction = j.direction := by
  obtain ⟨family, kind, table, label, condition⟩ := j
  cases kind <;> rfl

theorem SubSelect.text_redact (s : SubSelect) : s.redact.text = s.text := by
  obtain ⟨sql, label, bound⟩ := s
  cases label <;> rfl

/-! ## Texts -/

mutual

/-- **Redaction does not change a text.** -/
theorem Value.render_redact (form : Form) : (v : Value) →
    (v.redact .plain).render form = v.render form
  | .list items => by
    show (do
      let ts ← Value.renderAll .quoted (Value.redactEach items)
      return "[" ++ ", ".intercalate ts ++ "]") = _
    rw [Value.renderAll_redactEach .quoted items]
    rfl
  | .tuple items => by
    show (do
      let ts ← Value.renderAll .quoted (Value.redactEach items)
      return tupleText ts) = _
    rw [Value.renderAll_redactEach .quoted items]
    rfl
  | .dict entries => by
    show (do
      let ts ← Value.renderEntries (Value.redactEntries .plain entries)
      return braced (", ".intercalate ts)) = _
    rw [Value.renderEntries_redactEntries entries]
    rfl
  | .compiled sql params => by
    show (do
      let ts ← Value.renderEntries (Value.redactEntries .plain params)
      return "CompiledSQL(sql=" ++ Text.quoted sql ++ ", params="
        ++ braced (", ".intercalate ts) ++ ")") = _
    rw [Value.renderEntries_redactEntries params]
    rfl
  | .fragment f origin => by
    have htext := Fragment.text_redact f
    cases form with
    | bare =>
      show (f.redact.text >>= fun sql => pure sql) = _
      rw [htext]
      rfl
    | quoted =>
      show (do
        let sql ← f.redact.text
        return f.redact.className ++ "(" ++ Text.quoted sql ++ ")") = _
      rw [htext, f.className_redact]
      rfl
  | .null | .bool _ | .int _ | .float _ | .nan _ | .str _ | .bytes _ | .joinKind _ | .options _
  | .callback .. => rfl
termination_by structural v => v

theorem Value.renderAll_redactEach (form : Form) : (vs : List Value) →
    Value.renderAll form (Value.redactEach vs) = Value.renderAll form vs
  | [] => rfl
  | v :: rest => by
    show (do
      let t ← (v.redact .plain).render form
      let ts ← Value.renderAll form (Value.redactEach rest)
      return t :: ts) = _
    rw [Value.render_redact form v, Value.renderAll_redactEach form rest]
    rfl
termination_by structural vs => vs

theorem Value.renderEntries_redactEntries : (es : List (Value × Value)) →
    Value.renderEntries (Value.redactEntries .plain es) = Value.renderEntries es
  | [] => rfl
  | e :: rest => by
    show (do
      let t ← Value.renderEntry (Value.redactEntry .plain e)
      let ts ← Value.renderEntries (Value.redactEntries .plain rest)
      return t :: ts) = _
    rw [Value.renderEntry_redactEntry e, Value.renderEntries_redactEntries rest]
    rfl
termination_by structural es => es

theorem Value.renderEntry_redactEntry : (e : Value × Value) →
    Value.renderEntry (Value.redactEntry .plain e) = Value.renderEntry e
  | (k, v) => by
    show (do
      let t ← (k.redact .plain).render .quoted
      let u ← (v.redact .plain).render .quoted
      return t ++ ": " ++ u) = _
    rw [Value.render_redact .quoted k, Value.render_redact .quoted v]
    rfl
termination_by structural e => e

theorem Fragment.text_redact : (f : Fragment) → f.redact.text = f.text
  | .raw parts => by
    show (do
      let ts ← Value.renderAll .bare (Value.redactEach parts)
      return " ".intercalate ts) = _
    rw [Value.renderAll_redactEach .bare parts]
    rfl
  | .cast operand type => by
    show (do
      let t ← operand.redact.text
      let u ← (type.redact .plain).render .bare
      return t ++ "::" ++ u) = _
    rw [Fragment.text_redact operand, Value.render_redact .bare type]
    rfl
  | .function name args => by
    show (do
      let t ← (name.redact .plain).render .bare
      let ts ← Fragment.texts (Fragment.redactEach args)
      return t ++ "(" ++ ", ".intercalate ts ++ ")") = _
    rw [Value.render_redact .bare name, Fragment.texts_redactEach args]
    rfl
  | .filter c => Filter.text_redact c
  | .projection target label => by
    have htarget := Fragment.text_redact target
    have hlabel := Value.render_redact .bare label
    cases label with
    | null =>
      show (target.redact.text >>= fun t => pure t) = _
      rw [htarget]
      rfl
    | _ =>
      show (do
        let t ← target.redact.text
        let u ← Value.render .bare (Value.redact .plain _)
        return t ++ " as " ++ u) = _
      rw [htarget, hlabel]
      rfl
  | .group c conditions => by
    show (do
      let ts ← Value.renderAll .bare (Value.redactEach conditions)
      return c.joined ts) = _
    rw [Value.renderAll_redactEach .bare conditions]
    rfl
  | .subSelect s => congrArg Except.ok (SubSelect.text_redact s)
  | .union members modifier _ => by
    show (do
      let keyword ← unionKeyword (modifier.redact .plain)
      return (" " ++ keyword ++ " ").intercalate members) = _
    rw [unionKeyword_redact]
    rfl
  | .join j => Join.text_redact j
  | .branch b => Branch.text_redact b
  | .fallback s => congrArg (fun t => Except.ok ("ELSE " ++ t)) (SubSelect.text_redact s)
  | .choice name branches last => by
    have hbranches := Branch.texts_redactEach branches
    cases last with
    | none =>
      show (Branch.texts (Branch.redactEach branches) >>= fun ts => _) = _
      rw [hbranches]
      rfl
    | some s =>
      show (do
        let ts ← Branch.texts (Branch.redactEach branches)
        return joinWords ["CASE", " ".intercalate ts, "ELSE " ++ s.redact.text, "END AS",
          Identifier.quote name]) = _
      rw [hbranches, s.text_redact]
      rfl
  | .column _ | .placeholder .. | .null => rfl
termination_by structural f => f

theorem Fragment.texts_redactEach : (fs : List Fragment) →
    Fragment.texts (Fragment.redactEach fs) = Fragment.texts fs
  | [] => rfl
  | f :: rest => by
    show (do
      let t ← f.redact.text
      let ts ← Fragment.texts (Fragment.redactEach rest)
      return t :: ts) = _
    rw [Fragment.text_redact f, Fragment.texts_redactEach rest]
    rfl
termination_by structural fs => fs

theorem Fragment.text?_redact? : (f : Option Fragment) →
    Fragment.text? (Fragment.redact? f) = Fragment.text? f
  | none => rfl
  | some f => by
    show (do
      let t ← f.redact.text
      return some t) = _
    rw [Fragment.text_redact f]
    rfl
termination_by structural f => f

theorem Filter.text_redact : (c : Filter) → c.redact.text = c.text
  | ⟨left, right, operator, before, after⟩ => by
    show (left.redact.text >>= fun l => Fragment.text? (Fragment.redact? right) >>= fun r => _) =
      (left.text >>= fun l => Fragment.text? right >>= fun r => _)
    rw [Fragment.text_redact left, Fragment.text?_redact? right]
    congr 1
    funext l
    congr 1
    funext r
    cases r with
    | none => exact joinPresent_redact [before, .str l, after]
    | some r => exact joinPresent_redact [before, .str l, operator, .str r, after]
termination_by structural c => c

theorem Join.text_redact : (j : Join) → j.redact.text = j.text
  | ⟨family, kind, table, label, condition⟩ => by
    show (Join.direction ⟨family, kind.redact .plain, table.redact, label,
        Fragment.redact? condition⟩ >>= fun k => table.redact.text >>= fun t =>
      Fragment.text? (Fragment.redact? condition) >>= fun c => _) = _
    have hdirection : Join.direction ⟨family, kind.redact .plain, table.redact, label,
        Fragment.redact? condition⟩ = Join.direction ⟨family, kind, table, label, condition⟩ :=
      Join.direction_redact ⟨family, kind, table, label, condition⟩
    rw [hdirection, Fragment.text_redact table, Fragment.text?_redact? condition]
    rfl
termination_by structural j => j

theorem Branch.text_redact : (b : Branch) → b.redact.text = b.text
  | ⟨condition, result⟩ => by
    show (do
      let t ← condition.redact.text
      return "WHEN " ++ t ++ " THEN " ++ result.redact.text) = _
    rw [Filter.text_redact condition, SubSelect.text_redact result]
    rfl
termination_by structural b => b

theorem Branch.texts_redactEach : (bs : List Branch) →
    Branch.texts (Branch.redactEach bs) = Branch.texts bs
  | [] => rfl
  | b :: rest => by
    show (do
      let t ← b.redact.text
      let ts ← Branch.texts (Branch.redactEach rest)
      return t :: ts) = _
    rw [Branch.text_redact b, Branch.texts_redactEach rest]
    rfl
termination_by structural bs => bs

end

theorem Value.text_redact (v : Value) : (v.redact .plain).text = v.text :=
  v.render_redact .bare

theorem Value.textJoined_redact (separator : String) (vs : List Value) :
    Value.textJoined separator (vs.map (Value.redact .plain)) = Value.textJoined separator vs := by
  rw [Value.textJoined, ← Value.redactEach_eq_map, Value.renderAll_redactEach, Value.textJoined]

/-! ## Maps -/

mutual

/-- **Redaction leaves a map its keys**, in their order. -/
theorem Fragment.bindings_redact : (f : Fragment) →
    f.redact.bindings = Value.redactBound f.bindings
  | .raw parts | .group _ parts => by
    show Entries.mergeAll (Value.bindingsEach (Value.redactEach parts)) = _
    rw [Value.bindingsEach_redactEach parts, Value.mergeAll_redactBound]
    rfl
  | .cast operand _ => Fragment.bindings_redact operand
  | .function _ args => by
    show Entries.mergeAll (Fragment.bindingsEach (Fragment.redactEach args)) = _
    rw [Fragment.bindingsEach_redactEach args, Value.mergeAll_redactBound]
    rfl
  | .filter c => Filter.bindings_redact c
  | .projection target _ => Fragment.bindings_redact target
  | .join j => Join.bindings_redact j
  | .branch b => Branch.bindings_redact b
  | .choice _ branches last => by
    have hbranches := Branch.bindingsEach_redactEach branches
    have hlast : ((SubSelect.redact? last).map (·.bound)).toList =
        (last.map (·.bound)).toList.map Value.redactBound := by
      rcases last with _ | ⟨_, _, _⟩ <;> rfl
    show Entries.mergeAll (Branch.bindingsEach (Branch.redactEach branches) ++
      ((SubSelect.redact? last).map (·.bound)).toList) = _
    rw [hbranches, hlast, ← List.map_append, Value.mergeAll_redactBound]
    rfl
  | .subSelect ⟨_, _, _⟩ | .fallback ⟨_, _, _⟩ => rfl
  | .column _ | .placeholder .. | .null | .union .. => rfl
termination_by structural f => f

theorem Fragment.bindingsEach_redactEach : (fs : List Fragment) →
    Fragment.bindingsEach (Fragment.redactEach fs) =
      (Fragment.bindingsEach fs).map Value.redactBound
  | [] => rfl
  | f :: rest => by
    show f.redact.bindings :: Fragment.bindingsEach (Fragment.redactEach rest) = _
    rw [Fragment.bindings_redact f, Fragment.bindingsEach_redactEach rest]
    rfl
termination_by structural fs => fs

theorem Fragment.bindings?_redact? : (f : Option Fragment) →
    Fragment.bindings? (Fragment.redact? f) = Value.redactBound (Fragment.bindings? f)
  | none => rfl
  | some f => Fragment.bindings_redact f
termination_by structural f => f

theorem Value.bindings_redact : (v : Value) →
    (v.redact .plain).bindings = Value.redactBound v.bindings
  | .fragment f _ => Fragment.bindings_redact f
  | .null | .bool _ | .int _ | .float _ | .nan _ | .str _ | .bytes _ | .list _ | .tuple _ | .dict _
  | .joinKind _ | .options _ | .callback .. | .compiled .. => rfl
termination_by structural v => v

theorem Value.bindingsEach_redactEach : (vs : List Value) →
    Value.bindingsEach (Value.redactEach vs) = (Value.bindingsEach vs).map Value.redactBound
  | [] => rfl
  | v :: rest => by
    show (v.redact .plain).bindings :: Value.bindingsEach (Value.redactEach rest) = _
    rw [Value.bindings_redact v, Value.bindingsEach_redactEach rest]
    rfl
termination_by structural vs => vs

theorem Filter.bindings_redact : (c : Filter) →
    c.redact.bindings = Value.redactBound c.bindings
  | ⟨left, right, _, _, _⟩ => by
    show Entries.mergeAll [left.redact.bindings, Fragment.bindings? (Fragment.redact? right)] = _
    rw [Fragment.bindings_redact left, Fragment.bindings?_redact? right]
    exact Value.mergeAll_redactBound [left.bindings, Fragment.bindings? right]
termination_by structural c => c

theorem Join.bindings_redact : (j : Join) → j.redact.bindings = Value.redactBound j.bindings
  | ⟨_, _, table, _, condition⟩ => by
    show Entries.mergeAll
      [table.redact.bindings, Fragment.bindings? (Fragment.redact? condition)] = _
    rw [Fragment.bindings_redact table, Fragment.bindings?_redact? condition]
    exact Value.mergeAll_redactBound [table.bindings, Fragment.bindings? condition]
termination_by structural j => j

theorem Branch.bindings_redact : (b : Branch) →
    b.redact.bindings = Value.redactBound b.bindings
  | ⟨condition, ⟨_, _, bound⟩⟩ => by
    show Entries.mergeAll [condition.redact.bindings, Value.redactBound bound] = _
    rw [Filter.bindings_redact condition]
    exact Value.mergeAll_redactBound [condition.bindings, bound]
termination_by structural b => b

theorem Branch.bindingsEach_redactEach : (bs : List Branch) →
    Branch.bindingsEach (Branch.redactEach bs) = (Branch.bindingsEach bs).map Value.redactBound
  | [] => rfl
  | b :: rest => by
    show b.redact.bindings :: Branch.bindingsEach (Branch.redactEach rest) = _
    rw [Branch.bindings_redact b, Branch.bindingsEach_redactEach rest]
    rfl
termination_by structural bs => bs

end

theorem Value.bindingsOf_redact (vs : List Value) :
    Value.bindingsOf (vs.map (Value.redact .plain)) = Value.redactBound (Value.bindingsOf vs) := by
  rw [Value.bindingsOf, ← Value.redactEach_eq_map, Value.bindingsEach_redactEach,
    Value.mergeAll_redactBound, Value.bindingsOf]

end BoundSql
