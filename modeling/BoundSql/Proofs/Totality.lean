import BoundSql.Proofs.Wording

/-!
# What was made can be rendered

Since nothing is ever removed from a slot, a fragment that cannot be rendered would spoil its
builder for good. This does not happen where keyword positions are given keywords: a call with
worded arguments leaves a worded builder worded, also if it fails half way
(`Command.run_preserves`), so a builder is in order however it was come to
(`Session.Follows.worded`).

Two things can still go wrong, and they are no matter of keywords. A nested builder is opened with
any value as its options, and looks at it only when it needs an option; one whose options are none
can be opened, filled and captured, but not rendered. And an integer can be too long to be written,
which is seen when it is. Worded arguments hold no such integer, but a builder has two more sources
of integers: the default limit of its options, and the greatest limit, to which a limit is lowered.
So these have to be worded as well (`made_cannot_always_be_rendered`).
-/

set_option autoImplicit false

namespace BoundSql

/-! ## Builders -/

/-- Where a field is written as it is: a fragment, and what a map says to call. The text of any
other field is taken when the field is added, and where it has none the field is not added. -/
def Value.FieldWorded : Value → Prop
  | .fragment f _ => f.Worded
  | .dict entries => ∀ call, Entries.get? Builder.callKey entries = some call → call.Worded
  | _ => True

/-- What a command is given for keyword positions are keywords or nothing, and what it stores as it
is is worded. -/
def Command.Worded : Command → Prop
  | .table name | .paranoid name => name.PartWorded
  | .fields added | .select added | .compileSelect added => ∀ v ∈ added, v.FieldWorded
  | .filter left right operator => left.PartWorded ∧ right.PartWorded ∧ operator.IsWord
  | .join args => ∀ v ∈ args, v.PartWorded
  | .order clauses | .groupBy clauses => ∀ v ∈ clauses, v.Worded
  | .limit number | .offset number => number.Worded
  | _ => True

/-- What stands in the slots of a builder is worded. A limit may be one to which the options have
lowered it. -/
structure Builder.Worded (b : Builder) : Prop where
  table : Fragment.Worded? b.table
  fields : ∀ v ∈ b.fields, v.Worded
  joins : ∀ j ∈ b.joins, j.Worded
  filters : ∀ c ∈ b.filters, c.Worded
  groups : ∀ v ∈ b.groups, v.Worded
  order : ∀ v ∈ b.order, v.Worded
  limit : b.options.Worded → ∀ v, b.limit = some v → v.Worded
  offset : ∀ v, b.offset = some v → v.Worded

namespace Builder

theorem worded_empty (options : Value) : (Builder.empty options).Worded where
  table := trivial
  fields := by simp [empty]
  joins := by simp [empty]
  filters := by simp [empty]
  groups := by simp [empty]
  order := by simp [empty]
  limit := by simp [empty]
  offset := by simp [empty]

variable {b : Builder}

theorem Worded.pushField (h : b.Worded) {v : Value} (hv : v.Worded) : (b.pushField v).Worded :=
  { h with fields := List.forall_mem_append.mpr ⟨h.fields, List.forall_mem_singleton.mpr hv⟩ }

theorem Worded.pushText (h : b.Worded) (v : Value) : (b.pushText v).2.Worded := by
  unfold Builder.pushText
  split
  · exact h.pushField trivial
  · exact h

theorem Worded.bindExtra (h : b.Worded) (given : Value) : (b.bindExtra given).2.Worded := by
  unfold Builder.bindExtra
  split
  · exact { h with }
  · exact h

theorem Worded.addField (h : b.Worded) {v : Value} (hv : v.FieldWorded) :
    (b.addField v).2.Worded := by
  cases v with
  | null => exact h
  | str s => exact h.pushField trivial
  | fragment f origin => exact h.pushField hv
  | dict entries =>
    simp only [Builder.addField]
    split
    · rename_i call hcall
      have hbound := h.bindExtra ((Entries.get? replacementsKey entries).getD .null)
      split
      · rename_i b' hb'
        rw [hb'] at hbound
        unfold Builder.pushField?
        split
        · exact hbound
        · exact hbound.pushField (hv call hcall)
      · rename_i fault b' hb'
        rw [hb'] at hbound
        exact hbound
    · exact h.pushText _
  | _ => exact h.pushText _

/-- Also fields that were added before one failed leave the builder worded. -/
theorem Worded.addFields (h : b.Worded) {added : List Value} (hadded : ∀ v ∈ added, v.FieldWorded) :
    (b.addFields added).2.Worded := by
  induction added generalizing b with
  | nil => exact h
  | cons v rest ih =>
    have hv := h.addField (hadded v List.mem_cons_self)
    unfold Builder.addFields
    split
    · rename_i b' hb'
      rw [hb'] at hv
      exact ih hv fun w hw => hadded w (List.mem_cons_of_mem _ hw)
    · rename_i fault b' hb'
      rw [hb'] at hv
      exact hv

/-! ### Rendering a worded builder -/

theorem textJoined_returns {items : List Value} (h : ∀ v ∈ items, v.Worded) (separator : String) :
    Returns (Value.textJoined separator items) := by
  have hitems := (Value.renderAll_failsUnless .bare items).returns (Value.allWorded_iff.mpr h)
  exact hitems.bind fun _ => .ok _

theorem listClause_returns {items : List Value} (h : ∀ v ∈ items, v.Worded) (keyword : String) :
    Returns (listClause keyword items) := by
  unfold listClause
  split
  · exact .ok _
  · exact (textJoined_returns h ", ").bind fun _ => .ok _

theorem valueClause_returns {v : Option Value} (h : ∀ w, v = some w → w.Worded) (keyword : String) :
    Returns (valueClause keyword v) := by
  cases v with
  | none => exact .ok _
  | some w => exact ((w.render_failsUnless .bare).returns (h w rfl)).bind fun _ => .ok _

/-- With worded options, the limit of a worded builder is worded. -/
theorem Worded.effectiveLimit_returns (h : b.Worded) {o : Options} (ho : b.options = .options o)
    (hworded : o.Worded) :
    ∃ limit, b.effectiveLimit = .ok limit ∧ ∀ v, limit = some v → v.Worded := by
  have hlimit := h.limit (by rwa [ho])
  unfold Builder.effectiveLimit
  cases hl : b.limit with
  | some limit =>
    rw [hl] at hlimit
    exact ⟨some limit, rfl, hlimit⟩
  | none =>
    rw [properOptions, ho]
    refine ⟨_, rfl, fun v hv => ?_⟩
    cases hd : o.defaultLimit with
    | none =>
      rw [hd] at hv
      cases hv
    | some n =>
      rw [hd] at hv
      cases hv
      exact hworded.defaultLimit n hd

/-- **A worded builder with worded options can be rendered.** -/
theorem Worded.selectText_returns (h : b.Worded) {o : Options} (ho : b.options = .options o)
    (hworded : o.Worded) : Returns b.selectText := by
  obtain ⟨limit, hlimit, hworded⟩ := h.effectiveLimit_returns ho hworded
  have hfields : Returns b.fieldsText := by
    unfold Builder.fieldsText
    split
    · exact .ok _
    · exact textJoined_returns h.fields ", "
  have hjoins : Returns b.joinsClause := by
    have htexts : FailsUnless (∀ j ∈ b.joins, j.Worded) (b.joins.mapM Join.text) :=
      .mapM _ fun j hj => j.text_failsUnless.mono fun h => h j hj
    exact (htexts.returns h.joins).bind fun _ => .ok _
  have htable := b.tableClause_failsUnless.returns h.table
  have hfilters := b.filterClause_failsUnless.returns h.filters
  have hparts : Returns b.selectParts := by
    unfold Builder.selectParts
    rw [hlimit]
    refine hfields.bind fun _ => htable.bind fun _ => hjoins.bind fun _ => ?_
    refine hfilters.bind fun _ => (listClause_returns h.groups _).bind fun _ => ?_
    refine (listClause_returns h.order _).bind fun _ => ?_
    exact (valueClause_returns hworded _).bind fun _ =>
      (valueClause_returns h.offset _).bind fun _ => .ok _
  obtain ⟨parts, hparts⟩ := hparts
  exact ⟨assemble parts, by rw [Builder.selectText, hparts]; rfl⟩

/-- A worded builder renders a statement that deletes rows, unless it refuses to. -/
theorem Worded.deleteText_returns (h : b.Worded) :
    Returns b.deleteText ∨ b.deleteText = .error .unfilteredDelete := by
  by_cases hnone : b.filters = []
  · exact Or.inr (deleteText_of_no_filters hnone)
  · rw [deleteText_of_filters hnone]
    have htable := b.tableClause_failsUnless.returns h.table
    have hfilters := b.filterClause_failsUnless.returns h.filters
    exact Or.inl (htable.bind fun _ => hfilters.bind fun _ => .ok _)

end Builder

/-! ## Commands keep builders worded -/

/-- A limit is stored as it is given, or else it is the greatest one. -/
theorem Options.Worded.worded_of_clamp {o : Options} {number limit : Value} (ho : o.Worded)
    (h : o.clamp number = .ok limit) (hnumber : number.Worded) : limit.Worded := by
  unfold Options.clamp at h
  split at h
  · cases h
    exact hnumber
  · rename_i greatest hgreatest
    obtain ⟨above, -, rfl⟩ := Except.map_eq_ok.mp h
    cases above with
    | true => exact ho.maxLimit greatest hgreatest
    | false => exact hnumber

theorem Value.worded_of_toOption {v w : Value} (hv : v.Worded) (h : v.toOption = some w) :
    w.Worded := by
  cases v <;> cases h <;> exact hv

theorem joinOfArguments_worded {args : List Value} {j : Join} (h : joinOfArguments args = .ok j)
    (hargs : ∀ v ∈ args, v.PartWorded) : j.Worded := by
  have make : ∀ {table condition label : Value}, table.PartWorded → condition.PartWorded →
      Join.make .plain table condition label .null = .ok j → j.Worded := by
    intro table condition label htable hcondition hmake
    have hmakes : (Construction.join .plain table condition label .null).Makes (fun _ _ => True)
        (fun _ _ _ => True) (.join j) := Join.make_makes hmake
    exact hmakes.worded ⟨htable, hcondition, Or.inl rfl⟩
  unfold joinOfArguments at h
  split at h
  · cases h
  · cases h
    exact hargs _ List.mem_cons_self (.join j) rfl
  · cases h
  · exact make (hargs _ (by simp)) (hargs _ (by simp)) h
  · exact make (hargs _ (by simp)) (hargs _ (by simp)) h
  · cases h

/-- A builder that is worded stays so. -/
def Builder.StaysWorded (b b' : Builder) : Prop := b.Worded → b'.Worded

section Commands

open Session

variable {self : Nat}

/-- Adds a comparison that is given, or that is made by the rules from worded parts. -/
theorem addFilter_staysWorded {given : Value} {make : Value → Making Filter} {c : Construction}
    (hc : c.Worded) (hgiven : given.PartWorded) (s : Session)
    (hmake : ∀ last, Action.Keeps last (fun _ => True) True (make given) fun f =>
      c.Makes last.Issued (fun _ _ _ => True) (.filter f)) :
    Changed self Builder.StaysWorded s ((addFilter self given make).exec s).2 := by
  refine addFilter_changed (P := Filter.Worded) id (le_refl _) ?_ ?_ fun f hf hb => ?_
  · rintro f origin rfl
    exact hgiven (.filter f) rfl
  · exact (hmake _).mono id fun f _ hmakes => hmakes.worded hc
  · have hfilters := List.forall_mem_append.mpr ⟨hb.filters, List.forall_mem_singleton.mpr hf⟩
    exact { hb with filters := hfilters }

theorem addAbsence_staysWorded {target : Value} (h : target.PartWorded) (s : Session) :
    Changed self Builder.StaysWorded s
      ((addFilter self target fun v => .ofExcept (Filter.absent v)).exec s).2 := by
  have habsence : (Command.absence target).Worded := by
    refine ⟨h, fun f hf => ?_, trivial, trivial, trivial⟩
    cases hf
    trivial
  exact addFilter_staysWorded habsence h s fun last =>
    .ofExcept fun _ c hc => Filter.absent_makes hc []

/-- **A call with worded arguments keeps its builder worded**, also if it fails half way. -/
theorem Command.run_staysWorded {invoke : Invoke} {k : Command} (hk : k.nests = false)
    (hworded : k.Worded) (s : Session) :
    Changed self Builder.StaysWorded s ((k.run invoke self).exec s).2 := by
  have hs : Changed self Builder.StaysWorded s s := .of_unchanged id (le_refl _) s.log
  cases k with
  | subSelect _ _ | union _ _ => cases hk
  | table name =>
    simp only [Command.run, Run.exec_bind, Run.exec_ofExcept]
    cases h : name.asColumn with
    | error fault => exact hs
    | ok f =>
      have hf := (Value.names_of_asColumn h).worded hworded
      exact .of_setBuilder fun hb => { hb with table := hf }
  | fields added =>
    rw [Command.run, exec_bind_snd fun _ _ => rfl]
    exact .of_setBuilder fun hb => hb.addFields hworded
  | select added | compileSelect added =>
    rw [Command.run, exec_bind_snd fun _ _ => rfl]
    exact runSelect_changed fun hb => hb.addFields hworded
  | delete | compileDelete =>
    rw [Command.run, exec_bind_snd fun _ _ => rfl]
    exact runDelete_changed id
  | filter left right operator =>
    obtain ⟨hleft, hright, hoperator⟩ := hworded
    have hc : (Construction.filter left right operator (.str "") (.str "")).Worded :=
      ⟨hleft, hright, hoperator, trivial, trivial⟩
    rw [Command.run, exec_bind_snd fun _ _ => rfl]
    exact addFilter_staysWorded hc hleft s fun last => Filter.make_keeps _ _ _ _ _
  | paranoid target =>
    cases h : (s.builder self).absenceTarget target with
    | error fault =>
      rw [exec_paranoid_fault h]
      exact hs
    | ok column =>
      have hcolumn : column.PartWorded := by
        obtain rfl | ⟨-, o, -, rfl⟩ := Builder.absenceTarget_eq_ok h
        · exact hworded
        · exact fun f hf => by cases hf
      rw [exec_paranoid h, exec_bind_snd fun _ _ => rfl]
      exact addAbsence_staysWorded hcolumn s
  | join args =>
    simp only [Command.run, Run.exec_bind, Run.exec_ofExcept]
    cases h : joinOfArguments args with
    | error fault => exact hs
    | ok j =>
      have hj := List.forall_mem_singleton.mpr (joinOfArguments_worded h hworded)
      refine .of_setBuilder fun hb => ?_
      exact { hb with joins := List.forall_mem_append.mpr ⟨hb.joins, hj⟩ }
  | limit number =>
    rw [Command.run, exec_bind_snd fun _ _ => rfl]
    refine setLimit_changed id fun o limit ho hclamp hb => ?_
    -- What is stored may be the greatest limit, so the options have their part in this.
    refine { hb with limit := fun hoptions v => ?_ }
    have hoptions : o.Worded := by rwa [ho] at hoptions
    exact Value.worded_of_toOption (hoptions.worded_of_clamp hclamp hworded)
  | offset number =>
    exact .of_setBuilder fun hb => { hb with offset := fun v => Value.worded_of_toOption hworded }
  | order clauses =>
    refine .of_setBuilder fun hb => ?_
    exact { hb with order := List.forall_mem_append.mpr ⟨hb.order, hworded⟩ }
  | groupBy clauses =>
    refine .of_setBuilder fun hb => ?_
    exact { hb with groups := List.forall_mem_append.mpr ⟨hb.groups, hworded⟩ }
  | bindings | options => exact hs
  | clampLimit number =>
    rw [exec_clampLimit]
    exact hs

end Commands

/-! ## Runs -/

namespace Session

/-- A command that was given to a builder is in the history. -/
theorem Trace.mem_history {s t : Session} {L : List Happening} (h : s.Trace L t) {i : Nat}
    {k : Command} {r : Except Fault Reply} (hmem : .called i k r ∈ L) :
    .command i k ∈ t.history := by
  induction h with
  | start => cases hmem
  | aside _ hgrow _ ih => exact hgrow.2.subset (ih hmem)
  | opened _ _ _ ih | inherited _ _ ih => exact ih (by simpa using hmem)
  | called _ _ hk hr ih =>
    obtain ⟨hgrow, hcommand, -⟩ := runNoted_changed hk hr
    rcases List.mem_append.mp hmem with hmem | hmem
    · exact hgrow.2.subset (ih hmem)
    · cases List.mem_singleton.mp hmem
      exact hcommand

/-- **A builder that was given worded arguments only is worded**, whichever of the calls failed. -/
theorem Follows.worded {options : Value} {L : List Happening} {s : Session}
    (h : s.Follows options L) {i : Nat} (hi : i < s.builders.length)
    (hcalls : ∀ call ∈ callsAt L i, call.1.Worded) : (s.builder i).Worded := by
  refine h.induct (P := fun cs b => (∀ call ∈ cs, call.1.Worded) → b.Worded)
    (fun options _ => Builder.worded_empty options) ?_ i hi hcalls
  intro invoke t u j k r cs hj hk hr ih hcs
  obtain ⟨hcs, hk'⟩ := List.forall_mem_append.mp hcs
  have hworded : k.Worded := hk' (k, r) List.mem_cons_self
  let noted : Session := { t with history := t.history ++ [.command j k] }
  have hrun : ((k.run invoke j).exec noted).2 = u := congrArg Prod.snd hr
  obtain ⟨-, b, hb, heq⟩ := Command.run_staysWorded hk hworded noted
  have hu : u.builders = t.builders.set j b := by
    rw [← hrun, heq]
    rfl
  rw [builder_of_set hj hu]
  exact hb (ih hcs)

end Session

/-- A call for the statement that selects rows ends as the text of the builder does, if it adds no
fields. -/
theorem Command.select_nil_outcome (invoke : Invoke) (i : Nat) (s : Session) :
    (((Command.select []).runNoted invoke i).exec s).1 =
      (s.builder i).selectText.map fun sql => .value (.str sql) := by
  let t : Session := { s with history := s.history ++ [.command i (.select [])] }
  have hrun : ((runSelect i []).exec t).1 = (s.builder i).selectText := by
    rw [exec_runSelect]
    simp only [Builder.addFields_nil, Session.setBuilder_builder]
    change _ = (t.builder i).selectText
    cases (t.builder i).selectText <;> rfl
  rw [← hrun]
  simp only [Command.runNoted, Command.run, Run.exec_bind, Run.exec_note]
  change _ = Except.map _ ((runSelect i []).exec t).1
  rcases (runSelect i []).exec t with ⟨fault | sql, u⟩ <;> rfl

section Calls

variable {i : Nat} {s : Session} (h : (s.builder i).Worded) (invoke : Invoke)

include h

/-- A worded builder with worded options returns the statement that selects rows. -/
theorem Command.select_returns {o : Options} (ho : (s.builder i).options = .options o)
    (hworded : o.Worded) :
    ∃ sql, (((Command.select []).runNoted invoke i).exec s).1 = .ok (.value (.str sql)) := by
  obtain ⟨sql, hsql⟩ := h.selectText_returns ho hworded
  exact ⟨sql, by rw [Command.select_nil_outcome, hsql]; rfl⟩

/-- A worded builder returns the statement that deletes rows, or refuses to. -/
theorem Command.delete_returns :
    (∃ sql, ((Command.delete.runNoted invoke i).exec s).1 = .ok (.value (.str sql))) ∨
      ((Command.delete.runNoted invoke i).exec s).1 = .error .unfilteredDelete := by
  obtain ⟨log, hrun⟩ := Command.exec_runDelete_eq i
    { s with history := s.history ++ [.command i .delete] }
  have hb : Session.builder { s with history := s.history ++ [.command i .delete] } i = s.builder i :=
    rfl
  rw [hb] at hrun
  simp only [Command.runNoted, Command.run, Run.exec_bind, Run.exec_note, hrun]
  rcases h.deleteText_returns with ⟨sql, hsql⟩ | hrefused
  · exact Or.inl ⟨sql, by rw [hsql]; rfl⟩
  · exact Or.inr (by rw [hrefused])

end Calls

/-- **What was made can be rendered.** A construction that was given keywords, or nothing, where it
takes keywords, worded fragments, and integers that can be written, makes a worded fragment if it
makes one, and that has a text. What it binds is a matter of its parts alone and cannot fail. Every
dialogue is a list of happenings, whose commands are those that were given, and at every point of it
a builder that was given worded arguments, by calls that returned or failed, tells what is bound,
and renders the statement that deletes rows or refuses to; and if its options are options with
limits that can be written, it renders the statement that selects rows. -/
theorem made_can_be_rendered :
    (∀ f : Fragment, f.Worded → Returns f.text) ∧
    (∀ {invoke : Invoke} {self : Nat} {origin : Origin} {c : Construction} {s s' : Session}
      {v : Value}, c.Worded → (c.run invoke self origin).exec s = (.ok v, s') →
      ∃ f o, v = .fragment f o ∧ f.Worded ∧ Returns f.text) ∧
    (∀ {options : Value} {s : Session}, s.ReachedFrom options →
      ∃ L, s.Follows options L ∧ L.filterMap Happening.command? = s.commands) ∧
    ∀ {options : Value} {L : List Happening} {s : Session} {i : Nat}, s.Follows options L →
      i < s.builders.length → (∀ call ∈ callsAt L i, call.1.Worded) → ∀ invoke : Invoke,
      (∀ o, (s.builder i).options = .options o → o.Worded →
        ∃ sql, (((Command.select []).runNoted invoke i).exec s).1 = .ok (.value (.str sql))) ∧
      ((Command.bindings.runNoted invoke i).exec s).1 =
        .ok (.value (.dict (s.builder i).bindings)) ∧
      ((∃ sql, ((Command.delete.runNoted invoke i).exec s).1 = .ok (.value (.str sql))) ∨
        ((Command.delete.runNoted invoke i).exec s).1 = .error .unfilteredDelete) := by
  refine ⟨Fragment.text_returns, ?_, fun h => h.trace, ?_⟩
  · intro invoke self origin c s s' v hc h
    obtain ⟨f, o, rfl, hf⟩ := Construction.worded_of_run h hc
    exact ⟨f, o, rfl, hf, f.text_returns hf⟩
  · intro options L s i hL hi hcalls invoke
    have hb := hL.worded hi hcalls
    exact ⟨fun o ho hworded => Command.select_returns hb invoke ho hworded, rfl,
      Command.delete_returns hb invoke⟩

/-- A filter, and fields of which the second one fails after the first one was added. -/
def stumblingDialogue : List Report × Session :=
  Turn.takeAllWithin 1
    [⟨"root", .call .filter [.atom (.str "a"), .atom (.int 5)] []⟩,
     ⟨"root", .call .fields [.atom (.str "b"), .dict [(.atom (.str "fn_call"), .atom .null),
        (.atom (.str "replacements"), .atom (.int 5))]] []⟩]
    (.start Supply.counting .debug (.options .default))

/-- Whether a command gives a filter without fragments, or fields without any. -/
def Command.isPlain : Command → Bool
  | .filter left right operator =>
      left.fragment?.isNone && right.fragment?.isNone && (operator matches .str _)
  | .fields added => added.all fun
      | .str _ => true
      | .dict entries => (Entries.get? Builder.callKey entries matches some .null)
      | _ => false
  | _ => false

theorem Command.worded_of_isPlain {k : Command} (h : k.isPlain = true) : k.Worded := by
  have plain : ∀ {v : Value}, v.fragment?.isNone = true → v.PartWorded := by
    intro v hv f hf
    rw [hf] at hv
    cases hv
  cases k with
  | filter left right operator =>
    simp only [isPlain, Bool.and_eq_true] at h
    obtain ⟨⟨hleft, hright⟩, hoperator⟩ := h
    refine ⟨plain hleft, plain hright, ?_⟩
    cases operator with
    | str s => trivial
    | _ => cases hoperator
  | fields added =>
    intro v hv
    have hv := List.all_eq_true.mp h v hv
    cases v with
    | str s => trivial
    | dict entries =>
      intro call hcall
      simp only [hcall] at hv
      cases call with
      | null => trivial
      | _ => cases hv
    | _ => cases hv
  | _ => cases h

theorem made_can_be_rendered_after_fault :
    (stumblingDialogue.1.map fun r => r.outcome.isOk) = [true, false] ∧
      stumblingDialogue.2.ReachedFrom (.options .default) ∧
      ∃ L, stumblingDialogue.2.Follows (.options .default) L ∧
        L.filterMap Happening.command? = stumblingDialogue.2.commands ∧
        (∀ call ∈ callsAt L 0, call.1.Worded) ∧
        ∃ sql, (((Command.select []).runNoted (Callback.run 0) 0).exec stumblingDialogue.2).1 =
          .ok (.value (.str sql)) := by
  have hs : stumblingDialogue.2.ReachedFrom (.options .default) := ⟨_, _, _, _, rfl⟩
  have houtcomes : (stumblingDialogue.1.map fun r => r.outcome.isOk) = [true, false] := by
    decide +kernel
  have hplain : stumblingDialogue.2.commands.all (fun c => c.2.isPlain) = true := by
    decide +kernel
  obtain ⟨L, hL, hcommands⟩ := made_can_be_rendered.2.2.1 hs
  have hlength : 0 < stumblingDialogue.2.builders.length := by decide +kernel
  have hoptions : (stumblingDialogue.2.builder 0).options = .options .default := by
    obtain ⟨_, _, htrace⟩ := hL
    exact (htrace.grows Nat.zero_lt_one).options
  have hworded : ∀ call ∈ callsAt L 0, call.1.Worded := by
    rintro ⟨k, r⟩ hcall
    have hmem : (0, k) ∈ stumblingDialogue.2.commands :=
      hcommands ▸ List.mem_filterMap.mpr ⟨_, mem_callsAt.mp hcall, rfl⟩
    exact Command.worded_of_isPlain (List.all_eq_true.mp hplain _ hmem)
  obtain ⟨hselect, -, -⟩ := made_can_be_rendered.2.2.2 hL hlength hworded (Callback.run 0)
  refine ⟨houtcomes, hs, L, hL, hcommands, hworded, hselect .default hoptions ?_⟩
  exact ⟨fun n hn => (by cases hn), fun n hn => (by cases hn)⟩

/-! ## What cannot be rendered -/

/-- A nested builder is opened with a number as its options, and is asked for its statement. -/
def strayDialogue : List Report × Session :=
  Turn.takeAllWithin 1
    [⟨"root", .bind "x" (.call .subSelect
        [.callback ⟨[], some (.atom (.str "SELECT 1")), some "n"⟩] [("options", .atom (.int 5))])⟩,
     ⟨"n", .call .select [] []⟩]
    (.start Supply.counting .debug (.options .default))

/-- The class and the text of the fragment that an event made. -/
def Event.made? : Event → Option (String × Except Fault String)
  | .fragment f => some (f.className, f.text)
  | _ => none

/-- Whether an event is other than a command with arguments. -/
def Event.isBare : Event → Bool
  | .command _ k => k.arguments.isEmpty
  | _ => true

/-- A command without arguments has nothing to be worded. -/
theorem Command.worded_of_arguments {k : Command} (h : k.arguments = []) : k.Worded := by
  cases k <;> simp_all [Command.arguments, Command.Worded]

/-- The least number that is too long to be written. -/
def Decimal.overlong : Nat := power maxDigits

theorem Decimal.not_fits_overlong : ¬ Fits overlong :=
  fun h => Nat.lt_irrefl _ ((fits_power_iff maxDigits).mp h)

section Overlong

variable {n : Int} (h : ¬ Decimal.Fits n)

include h

theorem Decimal.text_of_not_fits : Decimal.text n = .error .integerTooLong := if_neg h

/-- An integer that is too long has no text, and so the fragment around it has none. -/
theorem Fragment.text_raw_of_not_fits : (Fragment.raw [.int n]).text = .error .integerTooLong := by
  simp only [Fragment.text, Value.renderAll, Value.render, Decimal.text_of_not_fits h]
  rfl

/-- Nor has the statement of an empty builder with such a default limit. -/
theorem Builder.selectText_empty_of_not_fits {o : Options}
    (hlimit : (o.defaultLimit.map fun n => Value.int n) = some (.int n)) :
    (Builder.empty (.options o)).selectText = .error .integerTooLong := by
  have hclause : valueClause "LIMIT" (some (.int n)) = .error .integerTooLong := by
    simp only [valueClause, Value.text, Value.render, Decimal.text_of_not_fits h]
    rfl
  rw [selectText, selectParts, show (Builder.empty (.options o)).effectiveLimit =
    .ok (o.defaultLimit.map fun n => Value.int n) from rfl, hlimit]
  simp only [bind, Except.bind, hclause]
  rfl

end Overlong

/-- Options with a default limit that is too long. -/
def overlongOptions : Options := ⟨"deleted_at", some Decimal.overlong, none⟩

/-- **What was made cannot always be rendered.** First, without options there is no statement: a
nested statement has been made, and it has a text; all that its builder was given is worded; and yet
the builder cannot be rendered. Second, a fragment is made of an integer that is too long, and it
has no text. Third, nor has the statement of a builder with such an integer for its default limit.
-/
theorem made_cannot_always_be_rendered :
    ((strayDialogue.1.map fun r => r.outcome.map fun _ => ()) = [.ok (), .error .notOptions] ∧
      strayDialogue.2.history.filterMap Event.made? = [("SubSelect", .ok "(SELECT 1)")] ∧
      strayDialogue.2.ReachedFrom (.options .default) ∧
      ∃ L, strayDialogue.2.Follows (.options .default) L ∧
        L.filterMap Happening.command? = strayDialogue.2.commands ∧
        1 < strayDialogue.2.builders.length ∧ ∀ call ∈ callsAt L 1, call.1.Worded) ∧
    (∃ f s', ((Construction.raw [.int Decimal.overlong]).run (Callback.run 0) 0 []).exec
        (.start Supply.counting .debug (.options .default)) = (.ok (.fragment f []), s') ∧
      f.text = .error .integerTooLong) ∧
    (((Command.select []).runNoted (Callback.run 0) 0).exec
      (.start Supply.counting .debug (.options overlongOptions))).1 = .error .integerTooLong := by
  have hreached : strayDialogue.2.ReachedFrom (.options .default) := ⟨_, _, _, _, rfl⟩
  have hbare : strayDialogue.2.history.all Event.isBare = true := by decide +kernel
  obtain ⟨L, hL, hcommands⟩ := hreached.trace
  refine ⟨⟨by decide +kernel, by decide +kernel, hreached, L, hL, hcommands, by decide +kernel, ?_⟩,
    ⟨_, _, rfl, Fragment.text_raw_of_not_fits Decimal.not_fits_overlong⟩, ?_⟩
  · rintro ⟨k, r⟩ hcall
    obtain ⟨stream, threshold, htrace⟩ := hL
    have hk := List.all_eq_true.mp hbare _ (htrace.mem_history (mem_callsAt.mp hcall))
    exact Command.worded_of_arguments (List.isEmpty_iff.mp hk)
  · rw [Command.select_nil_outcome]
    exact congrArg (Except.map _)
      (Builder.selectText_empty_of_not_fits Decimal.not_fits_overlong rfl)

end BoundSql
