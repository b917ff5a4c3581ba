import BoundSql.Proofs.Rendering

/-!
# Statements that delete rows

A statement that deletes rows is refused for a builder without a filter, and for no other. Here this
is said of runs: a builder has a filter exactly if one of the two calls that add one has returned
(`Session.Follows.filters_eq_nil_iff`), wherever the run has come to, and whatever has failed or
been refused on the way. The one step to look at is such a call: it adds a filter if it returns and
none if it fails (`Command.adds_filter`).

That a refusal is not confused with anything else rests on the faults of rendering, which are of
other kinds. What is deleted where it is not refused is what would be selected: both statements have
the same condition, since both render it from the filters alone.
-/

set_option autoImplicit false

namespace BoundSql

/-! ## Calls that add filters -/

/-- Whether a command adds a filter where it succeeds. -/
def Command.addsFilter : Command → Bool
  | .filter .. | .paranoid _ => true
  | _ => false

/-- A call that adds a filter to the builder at a place has returned. -/
def FilterAdded (L : List Happening) (i : Nat) : Prop :=
  ∃ k r, k.addsFilter = true ∧ .called i k (.ok r) ∈ L

/-- The other commands leave the filters alone. -/
theorem Command.Changes.filters_eq {issued : Placeholder → Value → Prop}
    {answered : Callback → String → Bindings → Prop} {k : Command} {b b' : Builder}
    (h : k.Changes issued answered b b') (hk : k.addsFilter = false) : b'.filters = b.filters := by
  cases h with
  | fields added | select added | compileSelect added =>
    obtain ⟨_, _, hb, -⟩ := b.fielded_addFields added
    rw [hb]
  | filter | paranoid => cases hk
  | _ => rfl

/-- The outcome goes with the filters: there is one more, or else a fault. -/
def AddsFilter {α : Type} (i : Nat) (s : Session) (out : Except Fault α × Session) : Prop :=
  (∃ x c, out.1 = .ok x ∧ (out.2.builder i).filters = (s.builder i).filters ++ [c]) ∨
    ∃ fault, out.1 = .error fault ∧ (out.2.builder i).filters = (s.builder i).filters

section Adding

variable {invoke : Invoke} {i : Nat} {s : Session}

theorem addFilter_adds (given : Value) (make : Value → Making Filter)
    (hi : i < s.builders.length) : AddsFilter i s ((addFilter i given make).exec s) := by
  have added : ∀ {t : Session} (c : Filter), t.builders = s.builders →
      ((t.setBuilder i { s.builder i with filters := (s.builder i).filters ++ [c] }).builder
        i).filters = (s.builder i).filters ++ [c] := by
    intro t c ht
    rw [Session.builder_setBuilder_self (ht ▸ hi)]
  by_cases hg : ∃ c origin, given = .fragment (.filter c) origin
  · obtain ⟨c, origin, rfl⟩ := hg
    exact .inl ⟨(), c, rfl, added c rfl⟩
  · rw [exec_addFilter_of_made make s fun c origin h => hg ⟨c, origin, h⟩]
    rcases Action.outcome (make given) s.supply with ⟨fault | c, supply⟩
    · exact .inr ⟨fault, rfl, rfl⟩
    · exact .inl ⟨(), c, rfl, added c rfl⟩

theorem AddsFilter.bind_pure {α β : Type} {m : Run α} (h : AddsFilter i s (m.exec s)) (y : β) :
    AddsFilter i s ((m >>= fun _ => pure y).exec s) := by
  rw [Run.exec_bind]
  rcases hm : m.exec s with ⟨fault | x, t⟩ <;> rw [hm] at h
  · obtain ⟨_, _, hx, -⟩ | ⟨_, hx, hb⟩ := h <;> cases hx
    exact .inr ⟨fault, rfl, hb⟩
  · obtain ⟨_, c, hx, hb⟩ | ⟨_, hx, -⟩ := h <;> cases hx
    exact .inl ⟨y, c, rfl, hb⟩

/-- **A call that adds a filter adds one if it returns, and none if it fails.** -/
theorem Command.adds_filter {k : Command} (hk : k.addsFilter = true)
    (hi : i < s.builders.length) : AddsFilter i s ((k.run invoke i).exec s) := by
  cases k with
  | filter left right operator => exact (addFilter_adds _ _ hi).bind_pure Reply.builder
  | paranoid target =>
    cases h : (s.builder i).absenceTarget target with
    | error fault =>
      rw [exec_paranoid_fault h]
      exact .inr ⟨fault, rfl, rfl⟩
    | ok column =>
      rw [exec_paranoid h]
      exact (addFilter_adds _ _ hi).bind_pure Reply.builder
  | _ => cases hk

end Adding

/-- **A builder has no filter exactly if no call that adds one has returned.** -/
theorem Session.Follows.filters_eq_nil_iff {options : Value} {L : List Happening} {s : Session}
    (h : s.Follows options L) {i : Nat} (hi : i < s.builders.length) :
    (s.builder i).filters = [] ↔ ¬ FilterAdded L i := by
  let P : List (Command × Except Fault Reply) → Builder → Prop := fun cs b =>
    b.filters = [] ↔ ∀ k r, (k, .ok r) ∈ cs → k.addsFilter = false
  have hP : P (callsAt L i) (s.builder i) := by
    refine h.induct (P := P) (fun _ => by simp [P, Builder.empty]) ?_ i hi
    intro invoke t u j k r cs hj hk hr ih
    cases hadds : k.addsFilter with
    | false =>
      obtain ⟨-, -, b, hchange, hb⟩ := runNoted_changed hk hr
      simp only [P, builder_of_set hj hb, hchange.filters_eq hadds] at ih ⊢
      refine ih.trans (forall₂_congr fun k' r' => ?_)
      rw [List.mem_append, List.mem_singleton, or_imp, iff_self_and]
      rintro - heq
      cases heq
      exact hadds
    | true =>
      have hadded : AddsFilter j { t with history := t.history ++ [.command j k] }
          (((k.run invoke j).exec { t with history := t.history ++ [.command j k] })) :=
        Command.adds_filter hadds hj
      have hstep : AddsFilter j t (r, u) := hr ▸ hadded
      obtain ⟨x, c, rfl, hfilters⟩ | ⟨fault, rfl, hfilters⟩ := hstep
      · have hmem : (k, .ok x) ∈ cs ++ [(k, Except.ok x)] :=
          List.mem_append_right _ (List.mem_singleton_self _)
        simp only [P, hfilters, List.append_eq_nil_iff, List.cons_ne_self, and_false, false_iff]
        intro hnone
        rw [hnone k x hmem] at hadds
        cases hadds
      · simp only [P, hfilters] at ih ⊢
        simpa using ih
  refine Iff.trans hP ?_
  simp only [FilterAdded, ← mem_callsAt (i := i), not_exists, not_and]
  exact forall₂_congr fun k r => ⟨fun h hk hmem => by simp [h hmem] at hk,
    fun h hmem => Bool.eq_false_iff.mpr fun hk => h hk hmem⟩

/-! ## The statement -/

/-- The statement that deletes the rows of a table, if there is one, under a condition. -/
def deletion (source : Option String) (condition : String) : String :=
  Text.trim ("DELETE" ++ source.elim "" (" FROM " ++ ·) ++ " WHERE " ++ condition)

namespace Builder

theorem filterClause_of_filters {b : Builder} (h : b.filters ≠ []) :
    b.filterClause = (return "WHERE " ++ (← b.conditionText)) := by
  simp [filterClause, h]

theorem assemble_deletion (source : Option String) (condition : String) :
    assemble ["DELETE", source.elim "" ("FROM " ++ ·), "WHERE " ++ condition] =
      deletion source condition := by
  unfold assemble joinWords deletion
  congr 1
  cases source <;> simp [← String.toList_inj]

/-- What is deleted is given by the table and the condition. -/
theorem deletion_of_deleteText {b : Builder} {sql : String} (h : b.deleteText = .ok sql) :
    b.filters ≠ [] ∧ ∃ source condition, Fragment.text? b.table = .ok source ∧
      b.conditionText = .ok condition ∧ sql = deletion source condition := by
  have hne : b.filters ≠ [] := by
    intro hf
    rw [deleteText_of_no_filters hf] at h
    cases h
  refine ⟨hne, ?_⟩
  rw [deleteText_of_filters hne, filterClause_of_filters hne] at h
  obtain ⟨clause, hclause, h⟩ := Except.bind_eq_ok.mp h
  obtain ⟨_, hwhere, h⟩ := Except.bind_eq_ok.mp h
  obtain ⟨condition, hcondition, rfl⟩ := Except.map_eq_ok.mp hwhere
  cases h
  cases htable : b.table with
  | none =>
    simp only [tableClause, htable] at hclause
    cases hclause
    exact ⟨none, condition, rfl, hcondition, assemble_deletion none condition⟩
  | some table =>
    simp only [tableClause, htable] at hclause
    obtain ⟨source, hsource, h⟩ := Except.map_eq_ok.mp hclause
    cases h
    refine ⟨some source, condition, ?_, hcondition, assemble_deletion (some source) condition⟩
    rw [Fragment.text?, hsource]
    rfl

/-- Statements that select and that delete rows have one condition, whatever else they consist
of. -/
theorem condition_of_selectText {b : Builder} {sql condition : String} (h : b.selectText = .ok sql)
    (hb : b.filters ≠ []) (hc : b.conditionText = .ok condition) :
    ∃ parts, b.selectParts = .ok parts ∧ sql = assemble parts ∧
      parts[4]? = some ("WHERE " ++ condition) := by
  obtain ⟨parts, filters, -, -, hparts, hsql, hfilters, hget, -⟩ := b.parts_of_selectText h
  rw [filterClause_of_filters hb, hc] at hfilters
  cases hfilters
  exact ⟨parts, hparts, hsql, hget⟩

end Builder

/-- The refusal is for builders without a filter. With one the statement is rendered, and rendering
has faults of other kinds. -/
theorem Builder.deleteText_refused_iff {b : Builder} :
    b.deleteText = .error .unfilteredDelete ↔ b.filters = [] := by
  refine ⟨fun hfault => ?_, Builder.deleteText_of_no_filters⟩
  by_contra hne
  rw [Builder.deleteText_of_filters hne] at hfault
  have hfails := b.tableClause_failsOnWording.bind fun table =>
    b.filterClause_failsOnWording.bind fun filters =>
      FailsOnWording.ok (Builder.assemble ["DELETE", table, filters])
  cases hfails _ hfault

/-- **Deleting is refused exactly without a filter.** Every dialogue is a list of happenings, which
leaves out none of its commands, and at every point of one, a command that deletes the rows of a
builder is refused if and only if no call that adds a filter to this builder has returned so far. A
refusal leaves all builders and the supply as they were. What is rendered otherwise is the table and
the condition of the builder; and whatever else a builder with these filters holds, the statement
that selects rows has the same condition. -/
theorem delete_refused_iff (options : Value) :
    (∀ s : Session, s.ReachedFrom options →
      ∃ L, s.Follows options L ∧ L.filterMap Happening.command? = s.commands) ∧
    ∀ {L : List Happening} {s s' : Session} {i : Nat} {k : Command} {invoke : Invoke}
      {r : Except Fault Reply}, s.Follows options L → i < s.builders.length → k.deletes = true →
      (k.runNoted invoke i).exec s = (r, s') →
      (r = .error .unfilteredDelete ↔ ¬ FilterAdded L i) ∧
      (r = .error .unfilteredDelete → s'.builders = s.builders ∧ s'.supply = s.supply) ∧
      ∀ reply, r = .ok reply → ∃ source condition,
        Fragment.text? (s.builder i).table = .ok source ∧
        (s.builder i).conditionText = .ok condition ∧
        reply.statement? = some (deletion source condition) ∧
        ∀ b : Builder, b.filters = (s.builder i).filters →
          (b.table = (s.builder i).table → b.deleteText = .ok (deletion source condition)) ∧
          ∀ sql, b.selectText = .ok sql → ∃ parts, b.selectParts = .ok parts ∧
            sql = Builder.assemble parts ∧ parts[4]? = some ("WHERE " ++ condition) := by
  refine ⟨fun s hs => hs.trace, fun {L s s' i k invoke r} hL hi hk hrun => ?_⟩
  obtain ⟨r', log, hexec, htext⟩ := Command.exec_runNoted_of_deletes hk invoke i s
  rw [hrun] at hexec
  cases hexec
  have hfilters := hL.filters_eq_nil_iff hi
  have hrefused : r = .error .unfilteredDelete ↔ (s.builder i).filters = [] := by
    rw [← Builder.deleteText_refused_iff]
    cases hb : (s.builder i).deleteText with
    | error fault =>
      rw [hb] at htext
      cases r with
      | error fault' =>
        cases htext
        simp
      | ok reply => cases htext
    | ok sql =>
      rw [hb] at htext
      obtain ⟨reply, rfl, -⟩ := Except.map_eq_ok.mp htext
      simp
  refine ⟨hrefused.trans hfilters, fun _ => ⟨rfl, rfl⟩, fun reply hreply => ?_⟩
  subst hreply
  obtain ⟨sql, hsql, hreply⟩ := Except.map_eq_ok.mp htext.symm
  obtain ⟨hne, source, condition, hsource, hcondition, rfl⟩ :=
    Builder.deletion_of_deleteText hsql
  refine ⟨source, condition, hsource, hcondition, hreply.symm, fun b hb => ⟨fun htable => ?_, ?_⟩⟩
  · have hclauses : b.tableClause = (s.builder i).tableClause ∧
        b.filterClause = (s.builder i).filterClause := by
      simp only [Builder.tableClause, Builder.filterClause, Builder.conditionText, htable, hb,
        and_self]
    rw [← hsql, Builder.deleteText_of_filters hne, Builder.deleteText_of_filters (hb ▸ hne),
      hclauses.1, hclauses.2]
  · intro sql h
    refine Builder.condition_of_selectText h (hb ▸ hne) ?_
    rw [← hcondition, Builder.conditionText, Builder.conditionText, hb]

/-- A call for a filter that fails and a refusal, before the builder is given a filter. The one of a
nested statement is given a failing one only. -/
def filteredDialogue : Session :=
  (Turn.takeAllWithin 1
    [⟨"root", .call .filter [.atom (.int 1)] []⟩,
     ⟨"root", .call .delete [] []⟩,
     ⟨"root", .call .table [.atom (.str "t")] []⟩,
     ⟨"root", .call .filter [.atom (.str "a"), .atom (.int 5)] []⟩,
     ⟨"root", .call .subSelect [.callback
        ⟨[.call .select [] [], .call .paranoid [.atom (.int 2)] []], none, some "inner"⟩] []⟩]
    (.start Supply.counting .info (.options .default))).2

theorem delete_refused_iff_filtered :
    filteredDialogue.ReachedFrom (.options .default) ∧
      ∃ L, filteredDialogue.Follows (.options .default) L ∧
        L.filterMap Happening.command? = filteredDialogue.commands ∧
        FilterAdded L 0 ∧ ¬ FilterAdded L 1 ∧
        (((Command.delete.runNoted (Callback.run 0) 0).exec filteredDialogue).1.map
          Reply.statement?) = .ok (some "DELETE FROM \"t\" WHERE \"a\" = :where00000001") ∧
        (((Command.delete.runNoted (Callback.run 0) 1).exec filteredDialogue).1.map
          Reply.statement?) = .error .unfilteredDelete := by
  have hs : filteredDialogue.ReachedFrom (.options .default) := ⟨_, _, _, _, rfl⟩
  have hdeleted : (((Command.delete.runNoted (Callback.run 0) 0).exec filteredDialogue).1.map
      Reply.statement?) = .ok (some "DELETE FROM \"t\" WHERE \"a\" = :where00000001") := by
    decide +kernel
  have hrefused : (((Command.delete.runNoted (Callback.run 0) 1).exec filteredDialogue).1.map
      Reply.statement?) = .error .unfilteredDelete := by
    decide +kernel
  obtain ⟨L, hL, hcommands⟩ := (delete_refused_iff _).1 _ hs
  have h₀ : 0 < filteredDialogue.builders.length := by decide +kernel
  have h₁ : 1 < filteredDialogue.builders.length := by decide +kernel
  refine ⟨hs, L, hL, hcommands, ?_, ?_, hdeleted, hrefused⟩
  · rcases hrun : (Command.delete.runNoted (Callback.run 0) 0).exec filteredDialogue with ⟨r, s'⟩
    by_contra hnone
    rw [hrun, (((delete_refused_iff _).2 hL h₀ rfl hrun).1).mpr hnone] at hdeleted
    cases hdeleted
  · rcases hrun : (Command.delete.runNoted (Callback.run 0) 1).exec filteredDialogue with ⟨r, s'⟩
    refine (((delete_refused_iff _).2 hL h₁ rfl hrun).1).mp ?_
    rw [hrun] at hrefused
    cases r with
    | error fault =>
      cases hrefused
      rfl
    | ok reply => cases hrefused

end BoundSql
