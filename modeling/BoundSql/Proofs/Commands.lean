import BoundSql.Proofs.Making
import BoundSql.Script.Evaluation

/-!
# What commands change

A command changes the builder that it is given to, and beside it only the supply and the log.
`Command.Changes` says how, with one rule for each slot; a command that reads the builder or fails
before it writes leaves it as it was.

Whatever a command puts into a slot it found in its arguments, or made itself the way a
construction would have made it: a table from a name, a comparison or a join from its parts.
`Command.Carries` names that construction, and `Command.Supplies` are the fragments from either
source. So a property of constructions becomes one of commands without a look at any command.

The two commands that make nested statements run callbacks, which can change any builder. They are
constructions in all but name, and are left out here (`Command.nests`).
-/

set_option autoImplicit false

namespace BoundSql

instance : Preorder Session where
  le s t := s.supply ≤ t.supply ∧ s.history <+: t.history
  le_refl s := ⟨le_refl _, List.prefix_refl _⟩
  le_trans _ _ _ h h' := ⟨le_trans h.1 h'.1, h.2.trans h'.2⟩

namespace Command

/-- Whether a command runs callbacks. -/
def nests : Command → Bool
  | .subSelect .. | .union .. => true
  | _ => false

/-- The arguments of a command. -/
def arguments : Command → List Value
  | .table name => [name]
  | .fields added | .select added | .compileSelect added => added
  | .filter left right operator => [left, right, operator]
  | .join args => args
  | .limit number | .offset number | .clampLimit number => [number]
  | .order clauses | .groupBy clauses => clauses
  | .paranoid target => [target]
  | .subSelect callback label => [callback, label]
  | .union callbacks modifier => [callbacks, modifier]
  | .delete | .compileDelete | .bindings | .options => []

/-- The comparison with what is absent, as a construction. -/
def absence (target : Value) : Construction :=
  .filter target (.fragment .null []) (.str "IS") (.str "") (.str "")

/-- The construction that a command carries out itself, on the builder `b`. -/
inductive Carries (b : Builder) : Command → Construction → Prop where
  | table (name : Value) : Carries b (.table name) (.asColumn name)
  | filter (left right operator : Value) :
      Carries b (.filter left right operator)
        (.filter left right operator (.str "") (.str ""))
  | paranoid (target : Value) : Carries b (.paranoid target) (absence target)
  | paranoidDefault {o : Options} (h : b.options = .options o) :
      Carries b (.paranoid .null) (absence (.str o.paranoidColumn))
  | join (table condition : Value) :
      Carries b (.join [table, condition]) (.join .plain table condition .null .null)
  | joinAs (table condition label : Value) :
      Carries b (.join [table, condition, label]) (.join .plain table condition label .null)

section Changes

variable (issued : Placeholder → Value → Prop) (answered : Callback → String → Bindings → Prop)

/-- The fragments that a command can put into a slot of the builder `b`. -/
inductive Supplies (b : Builder) (k : Command) : Fragment → Prop where
  | argument {v : Value} {f : Fragment} (hv : v ∈ k.arguments) (hf : f ∈ v.fragments) :
      Supplies b k f
  | carried {c : Construction} {f : Fragment} (hc : k.Carries b c)
      (hf : c.Makes issued answered f) : Supplies b k f

/-- How a command can change its builder, with a fault or without. -/
inductive Changes : Command → Builder → Builder → Prop where
  | unchanged (k : Command) (b : Builder) : Changes k b b
  | table {name : Value} {b : Builder} {f : Fragment}
      (h : Supplies issued answered b (.table name) f) :
      Changes (.table name) b { b with table := some f }
  | fields (added : List Value) (b : Builder) : Changes (.fields added) b (b.addFields added).2
  | select (added : List Value) (b : Builder) : Changes (.select added) b (b.addFields added).2
  | compileSelect (added : List Value) (b : Builder) :
      Changes (.compileSelect added) b (b.addFields added).2
  | filter {left right operator : Value} {b : Builder} {c : Filter}
      (h : Supplies issued answered b (.filter left right operator) (.filter c)) :
      Changes (.filter left right operator) b { b with filters := b.filters ++ [c] }
  | paranoid {target : Value} {b : Builder} {c : Filter}
      (h : Supplies issued answered b (.paranoid target) (.filter c)) :
      Changes (.paranoid target) b { b with filters := b.filters ++ [c] }
  | join {args : List Value} {b : Builder} {j : Join}
      (h : Supplies issued answered b (.join args) (.join j)) :
      Changes (.join args) b { b with joins := b.joins ++ [j] }
  | limit {number limit : Value} {b : Builder} {o : Options} (ho : b.options = .options o)
      (h : o.clamp number = .ok limit) :
      Changes (.limit number) b { b with limit := limit.toOption }
  | offset (number : Value) (b : Builder) :
      Changes (.offset number) b { b with offset := number.toOption }
  | order (clauses : List Value) (b : Builder) :
      Changes (.order clauses) b { b with order := b.order ++ clauses }
  | groupBy (clauses : List Value) (b : Builder) :
      Changes (.groupBy clauses) b { b with groups := b.groups ++ clauses }

end Changes

end Command

/-- The values in the construction are arguments of the command, texts, or one of two constants. -/
theorem Command.Carries.arguments {b : Builder} {k : Command} {c : Construction}
    (h : k.Carries b c) :
    ∀ v ∈ c.arguments, v ∈ k.arguments ∨ (∃ s, v = .str s) ∨ v = .null ∨
      v = .fragment .null [] := by
  cases h <;>
    simp [Construction.arguments, Command.arguments, Command.absence]

/-! ## Commands follow the rules -/

/-- The session `s'` differs from `s` in the supply, in the log, and in one builder, which `R`
relates. -/
def Session.Changed (self : Nat) (R : Builder → Builder → Prop) (s s' : Session) : Prop :=
  s.supply ≤ s'.supply ∧ ∃ b, R (s.builder self) b ∧
    s' = { s.setBuilder self b with supply := s'.supply, log := s'.log }

namespace Session

variable {self : Nat} {R : Builder → Builder → Prop} {s : Session}

theorem setBuilder_builder (s : Session) (i : Nat) : s.setBuilder i (s.builder i) = s := by
  have h : s.builders.set i (s.builder i) = s.builders := by
    by_cases hi : i < s.builders.length
    · simp [builder, List.getD_eq_getElem?_getD, hi]
    · exact List.set_eq_of_length_le (by omega)
  simp [setBuilder, h]

@[simp] theorem builder_addRecord (s : Session) (r : Record) (i : Nat) :
    (s.addRecord r).builder i = s.builder i := by
  unfold addRecord
  split <;> rfl

theorem setBuilder_addRecord (s : Session) (r : Record) (i : Nat) (b : Builder) :
    (s.addRecord r).setBuilder i b = (s.setBuilder i b).addRecord r := by
  unfold addRecord
  by_cases h : s.threshold.rank ≤ r.level.rank
  · simp [h, setBuilder]
  · simp [h, setBuilder]

/-- A session in which only the supply and the log differ. -/
theorem Changed.of_unchanged (h : R (s.builder self) (s.builder self)) {supply : Supply}
    (hs : s.supply ≤ supply) (log : List Record) :
    Changed self R s { s with supply, log } :=
  ⟨hs, s.builder self, h, by rw [setBuilder_builder]⟩

/-- A session in which a builder and the log differ. -/
theorem Changed.of_setBuilder {b : Builder} (h : R (s.builder self) b) :
    Changed self R s (s.setBuilder self b) :=
  ⟨le_refl _, b, h, rfl⟩

theorem Changed.addRecord {s' : Session} (h : Changed self R s s') (r : Record) :
    Changed self R s (s'.addRecord r) := by
  obtain ⟨hs, b, hR, heq⟩ := h
  unfold Session.addRecord
  split
  · exact ⟨hs, b, hR, by rw [heq]⟩
  · exact ⟨hs, b, hR, heq⟩

end Session

/-! ## What the shared steps of commands do -/

section Run

open Session

variable (self : Nat)

/-- Rendering a statement reads what adding the fields has left. -/
theorem exec_runSelect (added : List Value) (s : Session) :
    (runSelect self added).exec s =
      let s' := s.setBuilder self ((s.builder self).addFields added).2
      match ((s.builder self).addFields added).1, (s'.builder self).selectText with
      | some fault, _ => (.error fault, s')
      | none, .error fault => (.error fault, s')
      | none, .ok sql =>
          (.ok sql, s'.addRecord (.rendered "SELECT" (s'.builder self).bindings.length)) := by
  simp only [runSelect, Run.exec_bind, Run.exec_editBuilder]
  cases ((s.builder self).addFields added).1 with
  | some fault => rfl
  | none =>
    simp only [Run.exec_builder, Run.exec_ofExcept]
    cases ((s.setBuilder self ((s.builder self).addFields added).2).builder self).selectText <;>
      rfl

/-- The refusal is recorded before the statement is asked for. -/
theorem runDelete_eq (self : Nat) :
    runDelete self = Run.builder self >>= fun b =>
      (if b.filters.isEmpty then Run.record .refusedDelete else pure ()) >>= fun _ =>
        Run.ofExcept b.deleteText >>= fun sql =>
          Run.record (.rendered "DELETE" b.bindings.length) >>= fun _ => pure sql := by
  refine bind_congr fun b => ?_
  cases b.filters.isEmpty <;> rfl

/-- The statement that deletes rows is rendered from the builder as it is. -/
theorem exec_runDelete (s : Session) :
    (runDelete self).exec s =
      let b := s.builder self
      let s' := if b.filters.isEmpty then s.addRecord .refusedDelete else s
      match b.deleteText with
      | .error fault => (.error fault, s')
      | .ok sql => (.ok sql, s'.addRecord (.rendered "DELETE" b.bindings.length)) := by
  simp only [runDelete, Run.exec_bind, Run.exec_builder]
  cases (s.builder self).filters.isEmpty <;>
    cases (s.builder self).deleteText <;> rfl

theorem Builder.options_of_properOptions {b : Builder} {o : Options}
    (h : b.properOptions = .ok o) : b.options = .options o := by
  unfold Builder.properOptions at h
  split at h
  · cases h
    assumption
  · cases h

/-- **A limit is set or refused.** A refusal changes nothing, and what is set is recorded at most
once. -/
theorem exec_setLimit (number : Value) (s : Session) :
    (∃ fault, (setLimit self number).exec s = (.error fault, s)) ∨
    ∃ o limit, (s.builder self).options = .options o ∧ o.clamp number = .ok limit ∧
      ∃ s', (setLimit self number).exec s = (.ok (), s') ∧
        let t := s.setBuilder self { s.builder self with limit := limit.toOption }
        s' = t ∨ ∃ r, s' = t.addRecord r := by
  simp only [setLimit, Run.exec_bind, Run.exec_builder, Run.exec_ofExcept]
  cases ho : (s.builder self).properOptions with
  | error fault => exact .inl ⟨fault, rfl⟩
  | ok o =>
    have ho := Builder.options_of_properOptions ho
    cases hl : o.clamp number with
    | error fault => exact .inl ⟨fault, by simp only [hl]⟩
    | ok limit =>
      simp only [hl]
      cases o.isClamped number with
      | error fault => exact .inl ⟨fault, rfl⟩
      | ok clamped =>
        cases clamped with
        | false => exact .inr ⟨o, limit, ho, hl, _, rfl, .inl rfl⟩
        | true =>
          simp only [if_true, Run.exec_bind, Run.exec_keeps]
          split
          · cases number.integerText with
            | error fault => exact .inl ⟨fault, rfl⟩
            | ok t =>
              cases limit.integerText with
              | error fault => exact .inl ⟨fault, rfl⟩
              | ok u =>
                refine .inr ⟨o, limit, ho, hl, _, rfl, .inr ⟨.clamped t u, ?_⟩⟩
                simp only [builder_addRecord, setBuilder_addRecord]
          · exact .inr ⟨o, limit, ho, hl, _, rfl, .inl rfl⟩

variable {R : Builder → Builder → Prop} {self}

theorem runSelect_changed {added : List Value} {s : Session}
    (h : R (s.builder self) ((s.builder self).addFields added).2) :
    Changed self R s ((runSelect self added).exec s).2 := by
  rw [exec_runSelect]
  dsimp only
  split
  · exact .of_setBuilder h
  · exact .of_setBuilder h
  · exact .addRecord (.of_setBuilder h) _

theorem runDelete_changed {s : Session} (h : R (s.builder self) (s.builder self)) :
    Changed self R s ((runDelete self).exec s).2 := by
  have hs : Changed self R s s := .of_unchanged h (le_refl _) s.log
  have hs' : Changed self R s (if (s.builder self).filters.isEmpty then
      s.addRecord .refusedDelete else s) := by
    split
    · exact hs.addRecord _
    · exact hs
  rw [exec_runDelete]
  dsimp only
  split
  · exact hs'
  · exact hs'.addRecord _

/-- A limit that is in order is put into its slot; otherwise nothing is. -/
theorem setLimit_changed {number : Value} {s : Session} (h : R (s.builder self) (s.builder self))
    (hset : ∀ o limit, (s.builder self).options = .options o → o.clamp number = .ok limit →
      R (s.builder self) { s.builder self with limit := limit.toOption }) :
    Changed self R s ((setLimit self number).exec s).2 := by
  obtain ⟨fault, hrun⟩ | ⟨o, limit, ho, hl, s', hrun, rfl | ⟨r, rfl⟩⟩ :=
    exec_setLimit self number s <;> rw [hrun]
  · exact .of_unchanged h (le_refl _) s.log
  · exact .of_setBuilder (hset o limit ho hl)
  · exact .addRecord (.of_setBuilder (hset o limit ho hl)) r

/-- A comparison that is none yet is made first. -/
theorem exec_addFilter_of_made {given : Value} (make : Value → Making Filter) (s : Session)
    (h : ∀ c origin, given ≠ .fragment (.filter c) origin) :
    (addFilter self given make).exec s =
      match Action.outcome (make given) s.supply with
      | (.error fault, supply) => (.error fault, { s with supply })
      | (.ok c, supply) =>
          (.ok (), { s with supply }.setBuilder self
            { s.builder self with filters := (s.builder self).filters ++ [c] }) := by
  unfold addFilter
  split
  · exact absurd rfl (h _ _)
  · have hmaking : (Run.making (make given)).exec s =
        ((Action.outcome (make given) s.supply).1,
          { s with supply := (Action.outcome (make given) s.supply).2 }) := rfl
    simp only [Run.exec_bind, hmaking]
    rcases Action.outcome (make given) s.supply with ⟨fault | c, supply⟩ <;> rfl

/-- Adds a comparison that is given or made. -/
theorem addFilter_changed {given : Value} {make : Value → Making Filter} {s : Session}
    {P : Filter → Prop} {last : Supply} (h : R (s.builder self) (s.builder self))
    (hlast : ((addFilter self given make).exec s).2.supply ≤ last)
    (hgiven : ∀ c origin, given = .fragment (.filter c) origin → P c)
    (hmake : Action.Keeps last (fun _ => True) True (make given) P)
    (hR : ∀ c, P c →
      R (s.builder self) { s.builder self with filters := (s.builder self).filters ++ [c] }) :
    Changed self R s ((addFilter self given make).exec s).2 := by
  by_cases hg : ∃ c origin, given = .fragment (.filter c) origin
  · obtain ⟨c, origin, rfl⟩ := hg
    exact .of_setBuilder (hR c (hgiven c origin rfl))
  · obtain ⟨hgrow, hkeep⟩ := hmake s.supply
    rw [exec_addFilter_of_made make s (fun c origin h => hg ⟨c, origin, h⟩)] at hlast ⊢
    rcases hm : Action.outcome (make given) s.supply with ⟨fault | c, supply⟩ <;>
      simp only [hm] at hlast hgrow hkeep ⊢
    · exact .of_unchanged h hgrow s.log
    · exact ⟨hgrow, _, hR c ((hkeep trivial hlast trivial).2 c rfl), rfl⟩

end Run

theorem joinOfArguments_supplies {issued : Placeholder → Value → Prop}
    {answered : Callback → String → Bindings → Prop} {b : Builder} {args : List Value} {j : Join}
    (h : joinOfArguments args = .ok j) :
    Command.Supplies issued answered b (.join args) (.join j) := by
  unfold joinOfArguments at h
  split at h
  · cases h
  · cases h
    exact .argument List.mem_cons_self (List.mem_singleton_self _)
  · cases h
  · exact .carried (.join _ _) (Join.make_makes h)
  · exact .carried (.joinAs _ _ _) (Join.make_makes h)
  · cases h

/-- What only reads the session can be left out of a sequence when asking for the session. -/
theorem exec_bind_snd {α β : Type} {m : Run α} {f : α → Run β} {s : Session}
    (h : ∀ x s, ((f x).exec s).2 = s) : ((m >>= f).exec s).2 = (m.exec s).2 := by
  rw [Run.exec_bind]
  rcases m.exec s with ⟨fault | x, s'⟩
  · rfl
  · exact h x s'

/-- What is compared with what is absent is the given value, or else the column of the options. -/
def Builder.absenceTarget (b : Builder) : Value → Except Fault Value
  | .null => (fun o => .str o.paranoidColumn) <$> b.properOptions
  | target => .ok target

theorem Builder.absenceTarget_eq_ok {b : Builder} {target column : Value}
    (h : b.absenceTarget target = .ok column) :
    column = target ∨
      target = .null ∧ ∃ o, b.options = .options o ∧ column = .str o.paranoidColumn := by
  cases target with
  | null =>
    obtain ⟨o, ho, hcolumn⟩ := Except.map_eq_ok.mp h
    exact .inr ⟨rfl, o, options_of_properOptions ho, hcolumn.symm⟩
  | _ =>
    cases h
    exact .inl rfl

theorem Builder.absenceTarget_of_properOptions {b : Builder} {o : Options}
    (h : b.properOptions = .ok o) (target : Value) :
    b.absenceTarget target = .ok (target.toOption.getD (.str o.paranoidColumn)) := by
  cases target with
  | null =>
    rw [absenceTarget, h]
    rfl
  | _ => rfl

/-- **The comparison with what is absent** is added like any other, once it is known what to
compare. -/
theorem Command.run_paranoid (target : Value) (invoke : Invoke) (self : Nat) :
    (Command.paranoid target).run invoke self =
      Run.builder self >>= fun b => Run.ofExcept (b.absenceTarget target) >>= fun column =>
        addFilter self column (fun v => .ofExcept (Filter.absent v)) >>= fun _ =>
          pure .builder := by
  cases target with
  | null =>
    refine bind_congr fun b => ?_
    simp only [Builder.absenceTarget]
    cases b.properOptions <;> rfl
  | _ => rfl

theorem exec_paranoid {invoke : Invoke} {self : Nat} {s : Session} {target column : Value}
    (h : (s.builder self).absenceTarget target = .ok column) :
    ((Command.paranoid target).run invoke self).exec s =
      (addFilter self column (fun v => .ofExcept (Filter.absent v)) >>= fun _ =>
        pure Reply.builder).exec s := by
  simp only [Command.run_paranoid, Run.exec_bind, Run.exec_builder, Run.exec_ofExcept, h]

theorem exec_paranoid_fault {invoke : Invoke} {self : Nat} {s : Session} {target : Value}
    {fault : Fault} (h : (s.builder self).absenceTarget target = .error fault) :
    ((Command.paranoid target).run invoke self).exec s = (.error fault, s) := by
  simp only [Command.run_paranoid, Run.exec_bind, Run.exec_builder, Run.exec_ofExcept, h]

/-- The comparison with what is absent is one of the column given, or of that of the options. -/
theorem Command.carries_absence {b : Builder} {target column : Value}
    (h : b.absenceTarget target = .ok column) :
    (Command.paranoid target).Carries b (Command.absence column) := by
  obtain rfl | ⟨rfl, o, ho, rfl⟩ := Builder.absenceTarget_eq_ok h
  · exact .paranoid column
  · exact .paranoidDefault ho

/-- To ask which limit a number becomes only reads the builder. -/
theorem exec_clampLimit (number : Value) (invoke : Invoke) (self : Nat) (s : Session) :
    ((Command.clampLimit number).run invoke self).exec s =
      ((s.builder self).properOptions >>= fun o => Reply.value <$> o.clamp number, s) := by
  simp only [Command.run, Run.exec_bind, Run.exec_builder, Run.exec_ofExcept]
  cases (s.builder self).properOptions with
  | error fault => rfl
  | ok o =>
    show _ = (Reply.value <$> o.clamp number, s)
    dsimp only
    cases o.clamp number <;> rfl

/-- **A command that runs no callback changes one builder at most**, and does so by the rules. -/
theorem Command.run_changed {invoke : Invoke} {self : Nat} {k : Command} (hk : k.nests = false)
    {last : Supply} (answered : Callback → String → Bindings → Prop) {s : Session}
    (hlast : ((k.run invoke self).exec s).2.supply ≤ last) :
    Session.Changed self (k.Changes last.Issued answered) s ((k.run invoke self).exec s).2 := by
  have hs : Session.Changed self (k.Changes last.Issued answered) s s :=
    .of_unchanged (.unchanged k _) (le_refl _) s.log
  cases k with
  | subSelect _ _ | union _ _ => cases hk
  | table name =>
    simp only [Command.run, Run.exec_bind, Run.exec_ofExcept]
    cases h : name.asColumn with
    | error fault => exact hs
    | ok f =>
      have hf := Value.names_of_asColumn h
      exact .of_setBuilder (.table (.carried (.table name) (.asColumn hf)))
  | fields added =>
    rw [Command.run, exec_bind_snd fun _ _ => rfl]
    exact .of_setBuilder (.fields added _)
  | filter left right operator =>
    rw [Command.run, exec_bind_snd fun _ _ => rfl] at hlast ⊢
    refine addFilter_changed (.unchanged _ _) hlast ?_ ?_ fun c => .filter
    · rintro c origin rfl
      exact .argument List.mem_cons_self (List.mem_singleton_self _)
    · exact (Filter.make_keeps _ _ _ _ _).mono id fun c _ hc => .carried (.filter _ _ _) hc
  | join args =>
    simp only [Command.run, Run.exec_bind, Run.exec_ofExcept]
    cases h : joinOfArguments args with
    | error fault => exact hs
    | ok j => exact .of_setBuilder (.join (joinOfArguments_supplies h))
  | limit number =>
    rw [Command.run, exec_bind_snd fun _ _ => rfl]
    exact setLimit_changed (.unchanged _ _) fun o limit ho hl => .limit ho hl
  | offset number => exact .of_setBuilder (.offset number _)
  | order clauses => exact .of_setBuilder (.order clauses _)
  | groupBy clauses => exact .of_setBuilder (.groupBy clauses _)
  | paranoid target =>
    cases h : (s.builder self).absenceTarget target with
    | error fault =>
      rw [exec_paranoid_fault h]
      exact hs
    | ok column =>
      rw [exec_paranoid h, exec_bind_snd fun _ _ => rfl] at hlast ⊢
      refine addFilter_changed (.unchanged _ _) hlast ?_ ?_ fun c => .paranoid
      · rintro c origin rfl
        obtain rfl | ⟨-, o, -, hcolumn⟩ := Builder.absenceTarget_eq_ok h
        · exact .argument List.mem_cons_self (List.mem_singleton_self _)
        · cases hcolumn
      · exact .ofExcept fun _ c hc => .carried (carries_absence h) (Filter.absent_makes hc [])
  | select added =>
    rw [Command.run, exec_bind_snd fun _ _ => rfl]
    exact runSelect_changed (.select added _)
  | compileSelect added =>
    rw [Command.run, exec_bind_snd fun _ _ => rfl]
    exact runSelect_changed (.compileSelect added _)
  | delete =>
    rw [Command.run, exec_bind_snd fun _ _ => rfl]
    exact runDelete_changed (.unchanged _ _)
  | compileDelete =>
    rw [Command.run, exec_bind_snd fun _ _ => rfl]
    exact runDelete_changed (.unchanged _ _)
  | bindings | options => exact hs
  | clampLimit number =>
    rw [exec_clampLimit]
    exact hs

/-! ## Where the fragments of a builder come from -/

theorem Value.mem_fragments_of_fragment? {v : Value} {f : Fragment} (h : v.fragment? = some f) :
    f ∈ v.fragments := by
  cases v with
  | fragment g _ =>
    cases h
    exact List.mem_singleton_self f
  | _ => exact absurd h (by simp [Value.fragment?])

namespace Builder

theorem mem_children_pushField {b : Builder} {v : Value} {g : Fragment}
    (h : g ∈ (b.pushField v).children) : g ∈ b.children ∨ v.fragment? = some g := by
  simp only [children, pushField, List.filterMap_append, List.mem_append] at h ⊢
  have hv : g ∈ [v].filterMap Value.fragment? → v.fragment? = some g := by
    intro hg
    obtain ⟨w, hw, hf⟩ := List.mem_filterMap.mp hg
    rwa [List.mem_singleton.mp hw] at hf
  tauto

theorem children_bindExtra (given : Value) (b : Builder) :
    (b.bindExtra given).2.children = b.children := by
  unfold bindExtra
  split <;> rfl

/-- A field brings no fragments but those of the value that was given. -/
theorem mem_children_addField {v : Value} {b : Builder} {g : Fragment}
    (h : g ∈ (b.addField v).2.children) : g ∈ b.children ∨ g ∈ v.fragments := by
  have text : ∀ w : Value, g ∈ (b.pushText w).2.children → g ∈ b.children := by
    intro w hw
    unfold pushText at hw
    split at hw
    · exact (mem_children_pushField hw).resolve_right (by simp [Value.fragment?])
    · exact hw
  cases v with
  | null => exact Or.inl h
  | str s => exact Or.inl ((mem_children_pushField h).resolve_right (by simp [Value.fragment?]))
  | fragment f origin =>
    exact (mem_children_pushField h).imp id Value.mem_fragments_of_fragment?
  | dict entries =>
    rw [addField] at h
    split at h
    · rename_i call hcall
      have hfound : call.Every (· ∈ (Value.dict entries).fragments) :=
        Value.every_of_get? (fun _ hf => hf) hcall
      have extra : ∀ {r b'}, b.bindExtra r = b' → b'.2.children = b.children := by
        rintro r _ rfl
        exact children_bindExtra r b
      split at h
      · rename_i b' hb
        unfold pushField? at h
        split at h
        · exact Or.inl (extra hb ▸ h)
        · refine (mem_children_pushField h).imp (fun hg => extra hb ▸ hg) hfound.of_fragment?
      · rename_i hb
        exact Or.inl (extra hb ▸ h)
    · exact Or.inl (text _ h)
  | _ => exact Or.inl (text _ h)

theorem mem_children_addFields {added : List Value} {b : Builder} {g : Fragment}
    (h : g ∈ (b.addFields added).2.children) :
    g ∈ b.children ∨ ∃ v ∈ added, g ∈ v.fragments := by
  induction added generalizing b with
  | nil => exact Or.inl h
  | cons v rest ih =>
    have here : g ∈ (b.addField v).2.children →
        g ∈ b.children ∨ ∃ w ∈ v :: rest, g ∈ w.fragments := fun hg =>
      (mem_children_addField hg).imp id fun hv => ⟨v, List.mem_cons_self, hv⟩
    unfold addFields at h
    split at h
    · rename_i b' hb
      rcases ih h with hg | ⟨w, hw, hg⟩
      · exact here (by rw [hb]; exact hg)
      · exact Or.inr ⟨w, List.mem_cons_of_mem _ hw, hg⟩
    · rename_i fault b' hb
      exact here (by rw [hb]; exact h)

end Builder

/-- **A command puts into its builder only fragments that it supplies.** -/
theorem Command.Changes.mem_children {issued : Placeholder → Value → Prop}
    {answered : Callback → String → Bindings → Prop} {k : Command} {b b' : Builder}
    (h : k.Changes issued answered b b') {g : Fragment} (hg : g ∈ b'.children) :
    g ∈ b.children ∨ k.Supplies issued answered b g := by
  have added : ∀ {k : Command} {vs : List Value}, k.arguments = vs →
      g ∈ (b.addFields vs).2.children → g ∈ b.children ∨ k.Supplies issued answered b g := by
    rintro k _ rfl hg
    exact (Builder.mem_children_addFields hg).imp id fun ⟨v, hv, hf⟩ => .argument hv hf
  have given : ∀ {k : Command} {vs : List Value}, k.arguments = vs →
      g ∈ vs.filterMap Value.fragment? → k.Supplies issued answered b g := by
    rintro k _ rfl hg
    obtain ⟨v, hv, hf⟩ := List.mem_filterMap.mp hg
    exact .argument hv (Value.mem_fragments_of_fragment? hf)
  cases h with
  | unchanged => exact Or.inl hg
  | fields | select | compileSelect => exact added rfl hg
  | table hf =>
    simp only [Builder.children, List.mem_append, Option.toList_some, List.mem_singleton] at hg ⊢
    rename_i f
    by_cases hfg : g = f
    · exact Or.inr (hfg ▸ hf)
    · tauto
  | filter hc | paranoid hc =>
    simp only [Builder.children, List.map_append, List.mem_append, List.map_cons, List.map_nil,
      List.mem_singleton] at hg ⊢
    rename_i c
    by_cases hfg : g = .filter c
    · exact Or.inr (hfg ▸ hc)
    · tauto
  | join hj =>
    simp only [Builder.children, List.map_append, List.mem_append, List.map_cons, List.map_nil,
      List.mem_singleton] at hg ⊢
    rename_i j
    by_cases hfg : g = .join j
    · exact Or.inr (hfg ▸ hj)
    · tauto
  | limit | offset => exact Or.inl hg
  | order clauses | groupBy clauses =>
    simp only [Builder.children, List.filterMap_append, List.mem_append] at hg ⊢
    by_cases hnew : g ∈ clauses.filterMap Value.fragment?
    · exact Or.inr (given rfl hnew)
    · tauto

end BoundSql
