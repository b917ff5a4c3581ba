import BoundSql.Proofs.Keywords
import BoundSql.Proofs.Trace

/-!
# What rendering returns, and how it fails

The four commands that render a statement read the slots of their builder, so what they return is
the text of the builder that they leave: of what adding the fields has left, for a statement that
selects rows, and of the builder as it was, for one that deletes rows.

A rendered piece fails because of its wording only: of values in keyword positions, or of integers
that are too long. In particular no rendering is mistaken for a refusal: that one has a cause of its
own.
-/

set_option autoImplicit false

namespace BoundSql

/-! ## Faults of a rendering -/

namespace Builder

theorem tableClause_failsUnless (b : Builder) :
    FailsUnless (Fragment.Worded? b.table) b.tableClause := by
  unfold tableClause
  cases b.table with
  | none => exact .ok _
  | some f => exact f.text_failsUnless.bind fun _ => .ok _

theorem filterClause_failsUnless (b : Builder) :
    FailsUnless (∀ c ∈ b.filters, c.Worded) b.filterClause := by
  have htexts : FailsUnless (∀ c ∈ b.filters, c.Worded) (b.filters.mapM Filter.text) :=
    .mapM _ fun c hc => c.text_failsUnless.mono fun h => h c hc
  unfold filterClause
  split
  · exact .ok _
  · exact (htexts.bind fun _ => .ok _).bind fun _ => .ok _

theorem tableClause_failsOnWording (b : Builder) : FailsOnWording b.tableClause :=
  b.tableClause_failsUnless.failsOnWording

theorem filterClause_failsOnWording (b : Builder) : FailsOnWording b.filterClause :=
  b.filterClause_failsUnless.failsOnWording

end Builder

/-! ## The parts of a statement -/

/-- The parts of a statement that selects rows are its clauses, and each of them is rendered. -/
theorem Builder.clauses_of_selectParts {b : Builder} {parts : List String}
    (h : b.selectParts = .ok parts) :
    ∃ v fields table joins filters groups order limit offset,
      b.effectiveLimit = .ok v ∧ b.fieldsText = .ok fields ∧ b.tableClause = .ok table ∧
      b.joinsClause = .ok joins ∧ b.filterClause = .ok filters ∧
      listClause "GROUP BY" b.groups = .ok groups ∧ listClause "ORDER BY" b.order = .ok order ∧
      valueClause "LIMIT" v = .ok limit ∧ valueClause "OFFSET" b.offset = .ok offset ∧
      parts = ["SELECT", fields, table, joins, filters, groups, order, limit, offset] := by
  unfold selectParts at h
  obtain ⟨v, hv, h⟩ := Except.bind_eq_ok.mp h
  obtain ⟨fields, hfields, h⟩ := Except.bind_eq_ok.mp h
  obtain ⟨table, htable, h⟩ := Except.bind_eq_ok.mp h
  obtain ⟨joins, hjoins, h⟩ := Except.bind_eq_ok.mp h
  obtain ⟨filters, hfilters, h⟩ := Except.bind_eq_ok.mp h
  obtain ⟨groups, hgroups, h⟩ := Except.bind_eq_ok.mp h
  obtain ⟨order, horder, h⟩ := Except.bind_eq_ok.mp h
  obtain ⟨limit, hlimit, h⟩ := Except.bind_eq_ok.mp h
  obtain ⟨offset, hoffset, h⟩ := Except.bind_eq_ok.mp h
  exact ⟨v, fields, table, joins, filters, groups, order, limit, offset, hv, hfields, htable,
    hjoins, hfilters, hgroups, horder, hlimit, hoffset, (Except.ok.inj h).symm⟩

/-- The condition and the limit of a statement that selects rows stand at fixed places. -/
theorem Builder.parts_of_selectText {b : Builder} {sql : String} (h : b.selectText = .ok sql) :
    ∃ parts filters limit clause, b.selectParts = .ok parts ∧ sql = assemble parts ∧
      b.filterClause = .ok filters ∧ parts[4]? = some filters ∧
      b.effectiveLimit = .ok limit ∧ valueClause "LIMIT" limit = .ok clause ∧
      parts[7]? = some clause := by
  obtain ⟨parts, hparts, rfl⟩ := Except.map_eq_ok.mp h
  obtain ⟨v, _, _, _, filters, _, _, limit, _, hv, -, -, -, hfilters, -, -, hlimit, -, rfl⟩ :=
    clauses_of_selectParts hparts
  exact ⟨_, filters, v, limit, hparts, rfl, hfilters, rfl, hv, hlimit, rfl⟩

/-! ## Commands that render -/

/-- The statement in an answer. -/
def Reply.statement? : Reply → Option String
  | .value (.str sql) | .value (.compiled sql _) => some sql
  | _ => none

namespace Command

/-- Whether a command renders the statement that selects rows. -/
def selects : Command → Bool
  | .select _ | .compileSelect _ => true
  | _ => false

/-- Whether a command renders the statement that deletes rows. -/
def deletes : Command → Bool
  | .delete | .compileDelete => true
  | _ => false

variable {invoke : Invoke} {i : Nat} {k : Command} {s s' : Session} {r : Reply}

/-- **The statement that is returned is that of the builder which is left behind.** -/
theorem statement_of_selects (hk : k.selects = true)
    (h : (k.runNoted invoke i).exec s = (.ok r, s')) :
    ∃ sql, r.statement? = some sql ∧ (s'.builder i).selectText = .ok sql := by
  have key : ∀ {added : List Value} {sql : String} {t u : Session},
      (runSelect i added).exec t = (.ok sql, u) → (u.builder i).selectText = .ok sql := by
    intro added sql t u hrun
    rw [exec_runSelect] at hrun
    dsimp only at hrun
    split at hrun
    · cases hrun
    · cases hrun
    · cases hrun
      rwa [Session.builder_addRecord]
  cases k with
  | select added =>
    obtain ⟨_, t, ht, h⟩ := Run.exec_bind_eq_ok h
    obtain ⟨sql, u, hu, h⟩ := Run.exec_bind_eq_ok h
    cases h
    exact ⟨sql, rfl, key hu⟩
  | compileSelect added =>
    obtain ⟨_, t, ht, h⟩ := Run.exec_bind_eq_ok h
    obtain ⟨sql, u, hu, h⟩ := Run.exec_bind_eq_ok h
    cases h
    exact ⟨sql, rfl, key hu⟩
  | _ => cases hk

/-- Rendering the statement that deletes rows leaves a record at most. -/
theorem exec_runDelete_eq (i : Nat) (s : Session) :
    ∃ log, (runDelete i).exec s = ((s.builder i).deleteText, { s with log }) := by
  have record : ∀ (t : Session) (r : Record), ∃ log, t.addRecord r = { t with log } := by
    intro t r
    unfold Session.addRecord
    split
    · exact ⟨_, rfl⟩
    · exact ⟨t.log, rfl⟩
  have refusal : ∃ log, (if (s.builder i).filters.isEmpty then s.addRecord .refusedDelete else s) =
      { s with log } := by
    split
    · exact record s _
    · exact ⟨s.log, rfl⟩
  obtain ⟨log, hlog⟩ := refusal
  rw [exec_runDelete]
  simp only [hlog]
  cases (s.builder i).deleteText with
  | error fault => exact ⟨log, rfl⟩
  | ok sql =>
    obtain ⟨log', hlog'⟩ := record { s with log } (.rendered "DELETE" (s.builder i).bindings.length)
    exact ⟨log', by rw [hlog']⟩

/-- The outcome of a command that deletes rows is that of rendering its builder as it is, and
nothing but the log and the history differs afterwards. -/
theorem exec_runNoted_of_deletes (hk : k.deletes = true) (invoke : Invoke) (i : Nat)
    (s : Session) :
    ∃ r log, (k.runNoted invoke i).exec s =
        (r, { s with log, history := s.history ++ [.command i k] }) ∧
      r.map Reply.statement? = some <$> (s.builder i).deleteText := by
  obtain ⟨log, hrun⟩ := exec_runDelete_eq i { s with history := s.history ++ [.command i k] }
  have hb : Session.builder { s with history := s.history ++ [.command i k] } i = s.builder i := rfl
  rw [hb] at hrun
  cases k with
  | delete =>
    simp only [runNoted, run, Run.exec_bind, Run.exec_note, hrun]
    cases (s.builder i).deleteText <;> exact ⟨_, log, rfl, rfl⟩
  | compileDelete =>
    simp only [runNoted, run, Run.exec_bind, Run.exec_note, hrun]
    cases (s.builder i).deleteText <;> exact ⟨_, log, rfl, rfl⟩
  | _ => cases hk

/-- The same for rows to delete. -/
theorem statement_of_deletes (hk : k.deletes = true)
    (h : (k.runNoted invoke i).exec s = (.ok r, s')) :
    ∃ sql, r.statement? = some sql ∧ (s'.builder i).deleteText = .ok sql := by
  obtain ⟨r', log, hexec, htext⟩ := exec_runNoted_of_deletes hk invoke i s
  rw [h] at hexec
  cases hexec
  obtain ⟨sql, hsql, hr⟩ := Except.map_eq_ok.mp htext.symm
  exact ⟨sql, hr.symm, hsql⟩

/-- Rendering runs no callbacks. -/
theorem nests_of_renders (hk : k.selects = true ∨ k.deletes = true) : k.nests = false := by
  cases k <;> first | rfl | simp [selects, deletes] at hk

end Command

end BoundSql
