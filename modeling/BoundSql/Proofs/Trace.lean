import BoundSql.Proofs.Discipline
import BoundSql.Proofs.Traversal

/-!
# What happens in a run

A run of a script, however deep its callbacks are nested and wherever it fails, is for its builders
a list of happenings: a builder is opened, or a command is given to one and ends in some way.
`Session.Trace` says how such a list leads from one session to another. A command is carried out
just as it is defined; between two happenings anything may go on that leaves the builders alone; and
commands that make nested statements appear as what happens inside of them. A new builder stems from
the one at whose place a nested statement was asked for, and has its options, unless a construction
gave it options of its own.

Since a trace may stop anywhere, what is shown at the end of every trace holds at every point of
every run. That runs have traces is shown here once (`Session.ReachedFrom.trace`), and so is what
any command leaves of its builder (`Command.Changes.grows`). The trace of a run is a full one: its
commands are those that were entered into the history, so that none is left out.
-/

set_option autoImplicit false

namespace BoundSql

/-- Something that happens to a builder. -/
inductive Happening where
  /-- A builder was opened at `place`, on behalf of the one at `parent` if it has its options. -/
  | opened (place : Nat) (parent : Option Nat)
  /-- A command was given to the builder at `place`, and had this outcome. -/
  | called (place : Nat) (k : Command) (outcome : Except Fault Reply)

/-- Carries out a command that has been entered into the history. -/
def Command.runNoted (invoke : Invoke) (place : Nat) (k : Command) : Run Reply := do
  Run.note (.command place k)
  k.run invoke place

/-- The happenings that lead from one session to another. -/
inductive Session.Trace (s : Session) : List Happening → Session → Prop where
  | start : Trace s [] s
  | aside {L : List Happening} {t u : Session} (h : Trace s L t) (hgrow : t ≤ u)
      (hb : u.builders = t.builders) : Trace s L u
  | opened {L : List Happening} {t : Session} {c : Construction} {options : Value}
      (h : Trace s L t) (hc : .construction c ∈ t.history) (ho : c.options? = some options) :
      Trace s (L ++ [.opened t.builders.length none])
        { t with builders := t.builders ++ [.empty (givenOptions options)] }
  | inherited {L : List Happening} {t : Session} {i : Nat} (h : Trace s L t)
      (hi : i < t.builders.length) :
      Trace s (L ++ [.opened t.builders.length (some i)])
        { t with builders := t.builders ++ [.empty (givenOptions (t.builder i).options)] }
  | called {L : List Happening} {t u : Session} {invoke : Invoke} {i : Nat} {k : Command}
      {r : Except Fault Reply} (h : Trace s L t) (hi : i < t.builders.length)
      (hk : k.nests = false) (hr : (k.runNoted invoke i).exec t = (r, u)) :
      Trace s (L ++ [.called i k r]) u

/-! ## What a command leaves of its builder -/

/-- A builder has been given more, and has lost nothing that is in a list. -/
structure Builder.Grows (b b' : Builder) : Prop where
  options : b'.options = b.options
  fields : b.fields <+: b'.fields
  joins : b.joins <+: b'.joins
  filters : b.filters <+: b'.filters
  groups : b.groups <+: b'.groups
  order : b.order <+: b'.order
  extra : ∀ k ∈ Entries.keys b.extra, k ∈ Entries.keys b'.extra

namespace Builder

theorem Grows.refl (b : Builder) : b.Grows b :=
  ⟨rfl, List.prefix_refl _, List.prefix_refl _, List.prefix_refl _, List.prefix_refl _,
    List.prefix_refl _, fun _ => id⟩

theorem Grows.trans {b c d : Builder} (h : b.Grows c) (h' : c.Grows d) : b.Grows d :=
  ⟨h'.options.trans h.options, h.fields.trans h'.fields, h.joins.trans h'.joins,
    h.filters.trans h'.filters, h.groups.trans h'.groups, h.order.trans h'.order,
    fun k hk => h'.extra k (h.extra k hk)⟩

end Builder

namespace Bindings

theorem mem_keys_absorbPairs {k : Value} (items : List Value) {acc : Bindings}
    (h : k ∈ Entries.keys acc) : k ∈ Entries.keys (absorbPairs items acc).2 := by
  induction items generalizing acc with
  | nil => exact h
  | cons v rest ih =>
    unfold absorbPairs
    split
    · exact ih (Entries.mem_keys_insert_of_mem h _ _)
    · exact h

/-- Taking over the entries of a value loses no key. -/
theorem mem_keys_absorb {k : Value} (v : Value) {acc : Bindings} (h : k ∈ Entries.keys acc) :
    k ∈ Entries.keys (absorb v acc).2 := by
  unfold absorb
  split
  · exact Entries.mem_keys_merge_left h _
  · split
    · exact mem_keys_absorbPairs _ h
    · exact h

end Bindings

namespace Builder

/-- The builder differs in its fields and in what was bound by hand, and there it has grown. -/
def Fielded (b b' : Builder) : Prop :=
  ∃ added extra, b' = { b with fields := b.fields ++ added, extra } ∧
    ∀ k ∈ Entries.keys b.extra, k ∈ Entries.keys extra

theorem Fielded.refl (b : Builder) : b.Fielded b := ⟨[], b.extra, by simp, fun _ => id⟩

theorem Fielded.trans {b c d : Builder} (h : b.Fielded c) (h' : c.Fielded d) : b.Fielded d := by
  obtain ⟨added, extra, rfl, hextra⟩ := h
  obtain ⟨added', extra', rfl, hextra'⟩ := h'
  exact ⟨added ++ added', extra', by simp, fun k hk => hextra' k (hextra k hk)⟩

theorem fielded_pushField (v : Value) (b : Builder) : b.Fielded (b.pushField v) :=
  ⟨[v], b.extra, rfl, fun _ => id⟩

theorem fielded_pushText (v : Value) (b : Builder) : b.Fielded (b.pushText v).2 := by
  unfold pushText
  split
  · exact fielded_pushField _ b
  · exact .refl b

theorem fielded_bindExtra (given : Value) (b : Builder) : b.Fielded (b.bindExtra given).2 := by
  unfold bindExtra
  split
  · exact ⟨[], _, by simp, fun k hk => Bindings.mem_keys_absorb given hk⟩
  · exact .refl b

theorem fielded_addField (v : Value) (b : Builder) : b.Fielded (b.addField v).2 := by
  cases v with
  | null => exact .refl b
  | str _ | fragment _ _ => exact fielded_pushField _ b
  | dict entries =>
    rw [addField]
    split
    · rename_i call _
      have hextra := fielded_bindExtra ((Entries.get? replacementsKey entries).getD .null) b
      split
      · rename_i b' hb
        rw [hb] at hextra
        unfold pushField?
        split
        · exact hextra
        · exact hextra.trans (fielded_pushField _ b')
      · rename_i fault b' hb
        rw [hb] at hextra
        exact hextra
    · exact fielded_pushText _ b
  | _ => exact fielded_pushText _ b

/-- **Adding fields changes nothing else**, also where it fails half way. -/
theorem fielded_addFields (added : List Value) (b : Builder) :
    b.Fielded (b.addFields added).2 := by
  induction added generalizing b with
  | nil => exact .refl b
  | cons v rest ih =>
    have hv := fielded_addField v b
    unfold addFields
    split
    · rename_i b' hb
      rw [hb] at hv
      exact hv.trans (ih b')
    · rename_i fault b' hb
      rw [hb] at hv
      exact hv

theorem Fielded.grows {b b' : Builder} (h : b.Fielded b') : b.Grows b' := by
  obtain ⟨added, extra, rfl, hextra⟩ := h
  exact { Grows.refl b with fields := List.prefix_append _ _, extra := hextra }

end Builder

section Changes

variable {issued : Placeholder → Value → Prop} {answered : Callback → String → Bindings → Prop}
  {k : Command} {b b' : Builder}

/-- **A command takes nothing away** but a table, a limit or an offset. -/
theorem Command.Changes.grows (h : k.Changes issued answered b b') : b.Grows b' := by
  have hb := Builder.Grows.refl b
  cases h with
  | unchanged => exact hb
  | fields added | select added | compileSelect added => exact (b.fielded_addFields added).grows
  | table | limit | offset => exact { hb with }
  | filter | paranoid => exact { hb with filters := List.prefix_append _ _ }
  | join => exact { hb with joins := List.prefix_append _ _ }
  | order => exact { hb with order := List.prefix_append _ _ }
  | groupBy => exact { hb with groups := List.prefix_append _ _ }

end Changes

/-! ## Small facts -/

namespace Session

/-- Commands that run no callback change one builder, by the rules, and are in the history. -/
theorem runNoted_changed {invoke : Invoke} {i : Nat} {k : Command} {r : Except Fault Reply}
    {s s' : Session} (hk : k.nests = false) (h : (k.runNoted invoke i).exec s = (r, s')) :
    s ≤ s' ∧ .command i k ∈ s'.history ∧
      ∃ b, k.Changes s'.supply.Issued (fun _ _ _ => True) (s.builder i) b ∧
        s'.builders = s.builders.set i b := by
  have hrun : s' = ((k.run invoke i).exec { s with history := s.history ++ [.command i k] }).2 := by
    rw [show (k.runNoted invoke i).exec s =
      (k.run invoke i).exec { s with history := s.history ++ [.command i k] } from rfl] at h
    rw [h]
  obtain ⟨hgrow, b, hb, heq⟩ := Command.run_changed hk (fun _ _ _ => True) (le_of_eq rfl :
    ((k.run invoke i).exec { s with history := s.history ++ [.command i k] }).2.supply ≤ _)
  rw [← hrun] at hgrow hb heq
  have hhistory : s'.history = s.history ++ [.command i k] := by rw [heq]; rfl
  refine ⟨⟨hgrow, ?_⟩, ?_, b, hb, ?_⟩
  · rw [hhistory]
    exact List.prefix_append _ _
  · rw [hhistory]
    exact List.mem_append_right _ (List.mem_singleton_self _)
  · rw [heq]
    rfl

theorem builder_of_builders_eq {s t : Session} (h : t.builders = s.builders) (i : Nat) :
    t.builder i = s.builder i := by
  rw [builder, h, builder]

theorem builder_of_set {s t : Session} {i : Nat} {b : Builder} (hi : i < s.builders.length)
    (h : t.builders = s.builders.set i b) : t.builder i = b := by
  simp [builder, h, hi]

theorem builder_of_set_ne {s t : Session} {i j : Nat} {b : Builder} (hij : i ≠ j)
    (h : t.builders = s.builders.set i b) : t.builder j = s.builder j := by
  simp [builder, h, List.getElem?_set_ne hij]

theorem builder_append {s : Session} {i : Nat} (hi : i < s.builders.length) (b : Builder) :
    builder { s with builders := s.builders ++ [b] } i = s.builder i := by
  simp [builder, List.getElem?_append_left hi]

theorem builder_append_self (s : Session) (b : Builder) :
    builder { s with builders := s.builders ++ [b] } s.builders.length = b := by
  simp [builder]

namespace Trace

variable {s t u : Session} {L M : List Happening}

/-- One more command is carried out. -/
theorem call (h : s.Trace L t) {i : Nat} (hi : i < t.builders.length) (invoke : Invoke)
    {k : Command} (hk : k.nests = false) :
    s.Trace (L ++ [.called i k ((k.runNoted invoke i).exec t).1])
      ((k.runNoted invoke i).exec t).2 :=
  h.called hi hk rfl

theorem trans (h : s.Trace L t) (h' : t.Trace M u) : s.Trace (L ++ M) u := by
  induction h' with
  | start => rwa [List.append_nil]
  | aside _ hgrow hb ih => exact ih.aside hgrow hb
  | opened _ hc ho ih =>
    rw [← List.append_assoc]
    exact ih.opened hc ho
  | inherited _ hi ih =>
    rw [← List.append_assoc]
    exact ih.inherited hi
  | called _ hi hk hr ih =>
    rw [← List.append_assoc]
    exact ih.called hi hk hr

/-- Nothing that was issued or entered into the history is lost. -/
theorem le (h : s.Trace L t) : s ≤ t := by
  induction h with
  | start => exact le_refl s
  | aside _ hgrow _ ih => exact le_trans ih hgrow
  | opened _ _ _ ih | inherited _ _ ih => exact ⟨ih.1, ih.2⟩
  | called _ _ hk hr ih => exact le_trans ih (runNoted_changed hk hr).1

theorem length_le (h : s.Trace L t) : s.builders.length ≤ t.builders.length := by
  induction h with
  | start => exact Nat.le_refl _
  | aside _ _ hb ih => rwa [hb]
  | opened _ _ _ ih | inherited _ _ ih => simpa using Nat.le_succ_of_le ih
  | called _ _ hk hr ih =>
    obtain ⟨-, -, b, -, hb⟩ := runNoted_changed hk hr
    rwa [hb, List.length_set]

/-- Commands are given to builders that are there. -/
theorem place_lt (h : s.Trace L t) {i : Nat} {k : Command} {r : Except Fault Reply}
    (hmem : .called i k r ∈ L) : i < t.builders.length := by
  induction h with
  | start => cases hmem
  | aside _ _ hb ih =>
    rw [hb]
    exact ih hmem
  | opened _ _ _ ih | inherited _ _ ih =>
    simpa using Nat.lt_succ_of_lt (ih (by simpa using hmem))
  | called _ hi hk hr ih =>
    obtain ⟨-, -, b, -, hb⟩ := runNoted_changed hk hr
    rw [hb, List.length_set]
    rcases List.mem_append.mp hmem with hmem | hmem
    · exact ih hmem
    · cases List.mem_singleton.mp hmem
      exact hi

/-- **What every call keeps of its builder is kept of every builder.** -/
theorem keeps {R : Nat → Builder → Builder → Prop} (hrefl : ∀ i b, R i b b)
    (htrans : ∀ {i b c d}, R i b c → R i c d → R i b d)
    (hstep : ∀ {invoke : Invoke} {t u : Session} {i : Nat} {k : Command}
      {r : Except Fault Reply}, .called i k r ∈ L → i < t.builders.length → k.nests = false →
      (k.runNoted invoke i).exec t = (r, u) → R i (t.builder i) (u.builder i))
    (h : s.Trace L t) {i : Nat} (hi : i < s.builders.length) : R i (s.builder i) (t.builder i) := by
  induction h with
  | start => exact hrefl i _
  | aside h _ hb ih =>
    rw [builder_of_builders_eq hb]
    exact ih hstep
  | @opened _ t c options h hc ho ih =>
    have ht : i < t.builders.length := Nat.lt_of_lt_of_le hi h.length_le
    rw [builder_append ht]
    exact ih fun hmem => hstep (List.mem_append_left _ hmem)
  | @inherited _ t j h hj ih =>
    have ht : i < t.builders.length := Nat.lt_of_lt_of_le hi h.length_le
    rw [builder_append ht]
    exact ih fun hmem => hstep (List.mem_append_left _ hmem)
  | @called _ t u invoke j k r h hj hk hr ih =>
    have ih := ih fun hmem => hstep (List.mem_append_left _ hmem)
    obtain ⟨-, -, b, -, hb⟩ := runNoted_changed hk hr
    by_cases hij : j = i
    · subst hij
      exact htrans ih (hstep (List.mem_append_right _ (List.mem_singleton_self _)) hj hk hr)
    · rwa [builder_of_set_ne hij hb]

theorem grows (h : s.Trace L t) {i : Nat} (hi : i < s.builders.length) :
    (s.builder i).Grows (t.builder i) := by
  refine h.keeps (R := fun _ => Builder.Grows) (fun _ => .refl) .trans ?_ hi
  intro invoke t u i k r _ hi hk hr
  obtain ⟨-, -, b, hchange, hb⟩ := runNoted_changed hk hr
  rw [builder_of_set hi hb]
  exact hchange.grows

end Trace

/-- Every name of a builder leads to one that is there. -/
def InReach (s : Session) : Prop := ∀ e ∈ s.captured, e.2 < s.builders.length

theorem InReach.start (stream : Nat → Fin 16) (threshold : Level) (options : Value) :
    (Session.start stream threshold options).InReach := by
  intro e he
  rw [List.mem_singleton.mp he]
  exact Nat.zero_lt_one

/-- A turn is for a builder that is there. -/
theorem InReach.target_lt {s : Session} (h : s.InReach) {name : String} {i : Nat}
    (htarget : s.target name = .ok i) : i < s.builders.length := by
  unfold Session.target at htarget
  split at htarget
  · cases htarget
    obtain ⟨j, hj, -⟩ := Entries.exists_mem_of_get? ‹_›
    exact h _ hj
  · cases htarget

end Session

/-! ## Traces that leave no command out -/

/-- The command that was given, and to which builder. Commands that run callbacks do not count,
since they appear as what happens inside of them. -/
def Event.command? : Event → Option (Nat × Command)
  | .command place k => if k.nests then none else some (place, k)
  | _ => none

/-- The commands that have been given, in their order. -/
def Session.commands (s : Session) : List (Nat × Command) := s.history.filterMap Event.command?

/-- The command that a happening is, and to which builder it was given. -/
def Happening.command? : Happening → Option (Nat × Command)
  | .opened .. => none
  | .called place k _ => some (place, k)

namespace Session

variable {s t u : Session} {L M : List Happening}

theorem commands_note (s : Session) (e : Event) :
    commands { s with history := s.history ++ [e] } = s.commands ++ e.command?.toList := by
  unfold commands
  rw [List.filterMap_append]
  cases he : e.command? <;> simp [he]

/-- A command that runs no callback is entered once into the history. -/
theorem commands_runNoted {invoke : Invoke} {i : Nat} {k : Command} (hk : k.nests = false)
    (s : Session) : ((k.runNoted invoke i).exec s).2.commands = s.commands ++ [(i, k)] := by
  obtain ⟨-, b, -, heq⟩ := Command.run_changed hk (fun _ _ _ => True) (le_of_eq rfl :
    ((k.run invoke i).exec { s with history := s.history ++ [.command i k] }).2.supply ≤ _)
  have hhistory : ((k.runNoted invoke i).exec s).2.history = s.history ++ [.command i k] :=
    congrArg Session.history heq
  have hcommand : (Event.command i k).command? = some (i, k) := by simp [Event.command?, hk]
  have hcommands := s.commands_note (.command i k)
  rw [hcommand] at hcommands
  unfold commands at hcommands ⊢
  rw [hhistory]
  exact hcommands

/-- A trace that leaves no command out. -/
structure FullTrace (s : Session) (L : List Happening) (t : Session) : Prop where
  trace : s.Trace L t
  commands : t.commands = s.commands ++ L.filterMap Happening.command?

namespace FullTrace

theorem aside (hgrow : s ≤ t) (hb : t.builders = s.builders) (hc : t.commands = s.commands) :
    s.FullTrace [] t :=
  ⟨.aside .start hgrow hb, by simp [hc]⟩

/-- What changes is none of the builders' business. -/
theorem unseen (hs : t.supply = s.supply) (hb : t.builders = s.builders)
    (hh : t.history = s.history) : s.FullTrace [] t :=
  .aside ⟨le_of_eq hs.symm, hh ▸ List.prefix_refl _⟩ hb (congrArg (List.filterMap _) hh)

theorem refl (s : Session) : s.FullTrace [] s := .unseen rfl rfl rfl

theorem trans (h : s.FullTrace L t) (h' : t.FullTrace M u) : s.FullTrace (L ++ M) u := by
  refine ⟨h.trace.trans h'.trace, ?_⟩
  rw [h'.commands, h.commands, List.filterMap_append, List.append_assoc]

/-- A builder is opened on behalf of the one at hand. -/
theorem inherited {i : Nat} (hi : i < s.builders.length) :
    s.FullTrace [.opened s.builders.length (some i)]
      { s with builders := s.builders ++ [.empty (givenOptions (s.builder i).options)] } :=
  ⟨.inherited .start hi, by simp [Session.commands, Happening.command?]⟩

/-- A builder is opened with options that a construction gives it. -/
theorem opened {c : Construction} {options : Value} (hc : .construction c ∈ s.history)
    (ho : c.options? = some options) :
    s.FullTrace [.opened s.builders.length none]
      { s with builders := s.builders ++ [.empty (givenOptions options)] } :=
  ⟨.opened .start hc ho, by simp [Session.commands, Happening.command?]⟩

/-- A command is carried out. -/
theorem called {i : Nat} (hi : i < s.builders.length) (invoke : Invoke) {k : Command}
    (hk : k.nests = false) :
    s.FullTrace [.called i k ((k.runNoted invoke i).exec s).1] ((k.runNoted invoke i).exec s).2 :=
  ⟨.call .start hi invoke hk, commands_runNoted hk s⟩

end FullTrace

end Session

/-! ## Runs have traces -/

namespace Run

variable {α β : Type}

/-- An action leaves builders alone and gives no command. -/
def AsideAt (m : Run α) (s : Session) : Prop := s.FullTrace [] (m.exec s).2

/-- An action leaves the session alone. -/
theorem AsideAt.idle {m : Run α} {s : Session} (h : (m.exec s).2 = s) : m.AsideAt s := by
  unfold AsideAt
  rw [h]
  exact .refl s

theorem AsideAt.making {m : Making α} {s : Session} (h : ∀ t : Supply, t ≤ (Action.outcome m t).2) :
    (Run.making m).AsideAt s :=
  .aside ⟨h s.supply, List.prefix_refl _⟩ rfl rfl

theorem AsideAt.note {e : Event} {s : Session} (h : e.command? = none) : (Run.note e).AsideAt s := by
  refine .aside ⟨le_refl _, List.prefix_append _ _⟩ rfl ?_
  rw [Run.exec_note, Session.commands_note, h]
  exact List.append_nil _

/-- What an action does in a session is a full trace, and names keep leading to builders. -/
def TracedAt (m : Run α) (s : Session) : Prop :=
  (∃ L, s.FullTrace L (m.exec s).2) ∧ (s.InReach → (m.exec s).2.InReach)

/-- An action on the builder at a place that is there. -/
def Traced (self : Nat) (m : Run α) : Prop :=
  ∀ s : Session, self < s.builders.length → m.TracedAt s

theorem TracedAt.bind {m : Run α} {f : α → Run β} {s : Session} (hm : m.TracedAt s)
    (hf : ∀ x s', m.exec s = (.ok x, s') → (f x).TracedAt s') : (m >>= f).TracedAt s := by
  obtain ⟨⟨L, hL⟩, hreach⟩ := hm
  unfold TracedAt
  rw [exec_bind]
  rcases hr : m.exec s with ⟨fault | x, s'⟩ <;> rw [hr] at hL hreach
  · exact ⟨⟨L, hL⟩, hreach⟩
  · obtain ⟨⟨M, hM⟩, hreach'⟩ := hf x s' hr
    exact ⟨⟨L ++ M, hL.trans hM⟩, hreach' ∘ hreach⟩

/-- An action that leaves builders and their names alone. -/
theorem TracedAt.aside {m : Run α} {s : Session} (h : m.AsideAt s)
    (hc : (m.exec s).2.captured = s.captured) : m.TracedAt s := by
  refine ⟨⟨[], h⟩, fun hreach e he => ?_⟩
  rw [hc] at he
  exact Nat.lt_of_lt_of_le (hreach e he) h.trace.length_le

/-- An action that leaves the session alone. -/
theorem TracedAt.idle {m : Run α} {s : Session} (h : (m.exec s).2 = s) : m.TracedAt s :=
  .aside (.idle h) (by rw [h])

namespace Traced

variable {self : Nat}

theorem pure (x : α) : Traced self (Pure.pure x) := fun _ _ => .idle rfl

theorem throw (fault : Fault) : Traced self (MonadExcept.throw fault : Run α) :=
  fun _ _ => .idle rfl

theorem ofExcept (r : Except Fault α) : Traced self (Run.ofExcept r) := fun _ _ => .idle rfl

theorem bind {m : Run α} {f : α → Run β} (hm : Traced self m) (hf : ∀ x, Traced self (f x)) :
    Traced self (m >>= f) := by
  intro s hself
  refine (hm s hself).bind fun x s' hr => hf x s' ?_
  obtain ⟨⟨L, hL⟩, -⟩ := hm s hself
  rw [hr] at hL
  exact Nat.lt_of_lt_of_le hself hL.trace.length_le

theorem note {e : Event} (h : e.command? = none) : Traced self (Run.note e) :=
  fun _ _ => .aside (.note h) rfl

theorem named (name : String) : Traced self (Run.named name) := fun _ _ => .idle rfl

theorem bindName (name : String) (v : Value) : Traced self (Run.bindName name v) :=
  fun _ _ => .aside (.unseen rfl rfl rfl) rfl

theorem origin : Traced self Run.origin := fun _ _ => .aside (.unseen rfl rfl rfl) rfl

theorem builder (i : Nat) : Traced self (Run.builder i) := fun _ _ => .idle rfl

theorem making {m : Making α} (h : ∀ s : Supply, s ≤ (Action.outcome m s).2) :
    Traced self (Run.making m) :=
  fun _ _ => .aside (.making h) rfl

theorem capture (name : String) : Traced self (Run.capture name self) := by
  intro s hself
  refine ⟨⟨[], .unseen rfl rfl rfl⟩, fun h e he => ?_⟩
  obtain ⟨j, i⟩ := e
  rcases Entries.mem_of_mem_insert he with he | ⟨rfl, -⟩
  · exact h _ he
  · exact hself

/-- The evaluation of scripts is a trace. -/
theorem congruence : Run.Congruence fun m _ => Traced self m where
  pure := .pure
  throw := .throw
  ofExcept := .ofExcept
  origin := .origin
  named := .named
  bindName := .bindName
  bind := .bind

end Traced

end Run

/-- Every way of running a callback inside a script is a trace. -/
def Invoke.Traced (invoke : Invoke) : Prop := ∀ c i, Run.Traced i (invoke c i)

section Scripts

open Session

variable {invoke : Invoke} {self : Nat} (hi : invoke.Traced)

/-- A command that runs no callback is a happening. -/
theorem Command.runNoted_traced_of_not_nests {k : Command} (hk : k.nests = false) :
    Run.Traced self (k.runNoted invoke self) := by
  intro s hself
  refine ⟨⟨_, .called hself invoke hk⟩, fun h => ?_⟩
  obtain ⟨-, b, -, heq⟩ := Command.run_changed hk (fun _ _ _ => True) (le_of_eq rfl :
    ((k.run invoke self).exec { s with history := s.history ++ [.command self k] }).2.supply ≤ _)
  change Session.InReach ((k.run invoke self).exec _).2
  rw [heq]
  intro e he
  simpa [Session.setBuilder] using h e he

include hi

/-- A nested statement is asked for with the options of the builder at hand, or a construction
gives it options. -/
def Opens (self : Nat) (options : Value) (s : Session) : Prop :=
  (self < s.builders.length ∧ options = (s.builder self).options) ∨
    ∃ c, .construction c ∈ s.history ∧ c.options? = some options

omit hi in
theorem Opens.of_trace {options : Value} {s t : Session} {L : List Happening}
    (h : Opens self options s) (hL : s.Trace L t) : Opens self options t := by
  rcases h with ⟨hself, ho⟩ | ⟨c, hc, ho⟩
  · exact .inl ⟨Nat.lt_of_lt_of_le hself hL.length_le, by rw [(hL.grows hself).options, ho]⟩
  · exact .inr ⟨c, hL.le.2.subset hc, ho⟩

omit hi in
theorem Run.newBuilder_traced {options : Value} {s : Session} (h : Opens self options s) :
    (Run.newBuilder (givenOptions options)).TracedAt s := by
  refine ⟨?_, fun hreach e he => ?_⟩
  · rcases h with ⟨hself, rfl⟩ | ⟨c, hc, ho⟩
    · exact ⟨_, .inherited hself⟩
    · exact ⟨_, .opened hc ho⟩
  · simpa using Nat.lt_succ_of_lt (hreach e he)

theorem runNested_traced {className : String} {options callback : Value} {s : Session}
    (h : Opens self options s) : (runNested invoke className options callback).TracedAt s := by
  refine (Run.newBuilder_traced h).bind ?_
  rintro nested s' hs'
  cases hs'
  have hnested : s.builders.length < (s.builders ++ [Builder.empty (givenOptions options)]).length :=
    by simp
  cases callback with
  | callback c origin =>
    refine Run.Traced.bind (hi c s.builders.length) (fun r => ?_) _ hnested
    split
    · exact (Run.Traced.builder _).bind fun b => (Run.Traced.note rfl).bind fun _ => .pure _
    · exact .throw _
  | _ => exact .idle rfl

theorem makeSubSelect_traced {callback label options : Value} {s : Session}
    (h : Opens self options s) : (makeSubSelect invoke callback label options).TracedAt s := by
  refine Run.TracedAt.bind (.idle rfl) fun l s' hs' => ?_
  obtain rfl : s = s' := congrArg Prod.snd hs'
  exact (runNested_traced hi h).bind fun r s' _ => .idle rfl

theorem runMembers_traced {options : Value} (callbacks : List Value) {s : Session}
    (h : Opens self options s) : (runMembers invoke options callbacks).TracedAt s := by
  induction callbacks generalizing s with
  | nil => exact .idle rfl
  | cons callback rest ih =>
    have hmember : (runNested invoke "Union" options callback).TracedAt s := runNested_traced hi h
    refine hmember.bind fun member s' hs' => ?_
    obtain ⟨⟨L, hL⟩, -⟩ := hmember
    rw [hs'] at hL
    exact (ih (h.of_trace hL.trace)).bind fun members s'' _ => .idle rfl

theorem makeUnion_traced {callbacks modifier options : Value} {s : Session}
    (h : Opens self options s) : (makeUnion invoke callbacks modifier options).TracedAt s := by
  refine Run.TracedAt.bind (.idle rfl) fun cs s' hs' => ?_
  obtain rfl : s = s' := congrArg Prod.snd hs'
  exact (runMembers_traced hi cs h).bind fun members s' _ => .idle rfl

theorem Construction.make_traced {c : Construction} {s : Session} (hself : self < s.builders.length)
    (hc : .construction c ∈ s.history) : (c.make invoke self).TracedAt s := by
  cases c with
  | cast | projection | fallback | choice | asColumn | null | raw | group => exact .idle rfl
  | column | join | branch =>
    exact Run.Traced.bind (.ofExcept _) (fun _ => .pure _) s hself
  | literal v => exact Run.Traced.making (Fragment.le_ofLiteral v) s hself
  | function name args => exact Run.Traced.making (Fragment.le_ofFunction name args) s hself
  | filter left right operator before after =>
    exact Run.Traced.bind (.making (Filter.le_make left right operator before after))
      (fun c => .pure _) s hself
  | subSelect callback label options =>
    have hopens : Opens self options s := .inr ⟨_, hc, rfl⟩
    exact makeSubSelect_traced hi hopens
  | union callbacks modifier options =>
    have hopens : Opens self options s := .inr ⟨_, hc, rfl⟩
    exact makeUnion_traced hi hopens
  | ownSubSelect callback label =>
    refine Run.TracedAt.bind (.idle rfl) fun b s' hs' => ?_
    cases hs'
    exact makeSubSelect_traced hi (.inl ⟨hself, rfl⟩)
  | ownUnion callbacks modifier =>
    refine Run.TracedAt.bind (.idle rfl) fun b s' hs' => ?_
    cases hs'
    exact makeUnion_traced hi (.inl ⟨hself, rfl⟩)

theorem Construction.run_traced (c : Construction) (origin : Origin) :
    Run.Traced self (c.run invoke self origin) := by
  intro s hself
  refine (Run.Traced.note (e := .construction c) rfl s hself).bind ?_
  rintro _ s' hs'
  cases hs'
  have made : Run.TracedAt (do
        let f ← c.make invoke self
        Run.note (.fragment f)
        return Value.fragment f origin)
      { s with history := s.history ++ [.construction c] } := by
    have hmem : Event.construction c ∈ s.history ++ [.construction c] :=
      List.mem_append_right _ (List.mem_singleton_self _)
    refine Run.TracedAt.bind (Construction.make_traced (c := c) hi hself hmem) fun f s' _ => ?_
    exact .aside (.note rfl) rfl
  cases c with
  | asColumn v =>
    cases v with
    | fragment f known => exact .idle rfl
    | _ => exact made
  | _ => exact made

/-! ### Commands, steps and callbacks -/

theorem Command.runNoted_traced (k : Command) : Run.Traced self (k.runNoted invoke self) := by
  cases hk : k.nests with
  | false => exact k.runNoted_traced_of_not_nests hk
  | true =>
    have hrun : Run.Traced self (k.run invoke self) :=
      @Command.run_congr_of_nests _ Run.Traced.congruence invoke invoke self self
        (fun origin c => c.run_traced hi origin) k hk
    have hnote : (Event.command self k).command? = none := if_pos hk
    exact (Run.Traced.note hnote).bind fun _ => hrun

theorem Step.run_traced (t : Step) : Run.Traced self (t.run invoke self) :=
  @Step.run_congr _ Run.Traced.congruence invoke invoke self self
    (fun origin c => c.run_traced hi origin) (Command.runNoted_traced hi) t

theorem Callback.runWith_traced (c : Callback) : Run.Traced self (c.runWith invoke self) :=
  @Callback.runWith_congr _ Run.Traced.congruence invoke invoke self self
    (fun origin c => c.run_traced hi origin) (Command.runNoted_traced hi) .capture c

end Scripts

/-- Callbacks have traces, however deeply they are nested. -/
theorem Callback.run_traced (depth : Nat) : Invoke.Traced (Callback.run depth) := by
  induction depth with
  | zero => exact fun c i => .throw _
  | succ depth ih => exact fun c i => c.runWith_traced ih

theorem Turn.takeWithin_trace (depth : Nat) (t : Turn) {s : Session} (hs : s.InReach) :
    (∃ L, s.FullTrace L (t.takeWithin depth s).2) ∧ (t.takeWithin depth s).2.InReach := by
  unfold Turn.takeWithin
  split
  · exact ⟨⟨[], .refl s⟩, hs⟩
  · rename_i i htarget
    have hi : i < s.builders.length := hs.target_lt htarget
    -- The log is set aside during the step, which is nothing to the builders.
    obtain ⟨⟨L, hL⟩, hreach⟩ :=
      t.step.run_traced (Callback.run_traced depth) { s with log := [] } hi
    have hfront : Session.FullTrace s [] { s with log := [] } := .unseen rfl rfl rfl
    exact ⟨⟨_, (hfront.trans hL).trans (.unseen rfl rfl rfl)⟩, hreach hs⟩

theorem Turn.takeAllWithin_trace (depth : Nat) (turns : List Turn) {s : Session}
    (hs : s.InReach) : ∃ L, s.FullTrace L (Turn.takeAllWithin depth turns s).2 := by
  induction turns generalizing s with
  | nil => exact ⟨[], .refl s⟩
  | cons t rest ih =>
    obtain ⟨⟨L, hL⟩, hreach⟩ := t.takeWithin_trace depth hs
    obtain ⟨M, hM⟩ := ih hreach
    exact ⟨L ++ M, hL.trans hM⟩

/-- A point of a run that began with nothing but a root builder, and what has happened by then. -/
def Session.Follows (options : Value) (L : List Happening) (s : Session) : Prop :=
  ∃ stream threshold, (Session.start stream threshold options).Trace L s

/-- **Every dialogue has a trace**, and its commands are those of the dialogue, none left out. -/
theorem Session.ReachedFrom.trace {options : Value} {s : Session} (h : s.ReachedFrom options) :
    ∃ L, s.Follows options L ∧ L.filterMap Happening.command? = s.commands := by
  obtain ⟨stream, threshold, depth, turns, rfl⟩ := h
  obtain ⟨L, hL⟩ := Turn.takeAllWithin_trace depth turns (.start stream threshold options)
  exact ⟨L, ⟨stream, threshold, hL.trace⟩, hL.commands.symm⟩

/-! ## The calls on one builder -/

/-- The call on the builder at a place that a happening is, with its outcome. -/
def Happening.callAt? (i : Nat) : Happening → Option (Command × Except Fault Reply)
  | .opened .. => none
  | .called j k r => if j = i then some (k, r) else none

/-- The calls on the builder at a place, in their order. -/
def callsAt (L : List Happening) (i : Nat) : List (Command × Except Fault Reply) :=
  L.filterMap (Happening.callAt? i)

theorem mem_callsAt {L : List Happening} {i : Nat} {k : Command} {r : Except Fault Reply} :
    (k, r) ∈ callsAt L i ↔ .called i k r ∈ L := by
  constructor
  · intro h
    obtain ⟨happening, hmem, hcall⟩ := List.mem_filterMap.mp h
    cases happening with
    | opened => cases hcall
    | called j k' r' =>
      obtain ⟨rfl, heq⟩ := Option.ite_none_right_eq_some.mp hcall
      cases heq
      exact hmem
  · exact fun h => List.mem_filterMap.mpr ⟨_, h, if_pos rfl⟩

theorem callsAt_concat_opened (L : List Happening) (i j : Nat) (parent : Option Nat) :
    callsAt (L ++ [.opened j parent]) i = callsAt L i := by
  simp [callsAt, Happening.callAt?]

theorem callsAt_concat_self (L : List Happening) (i : Nat) (k : Command)
    (r : Except Fault Reply) : callsAt (L ++ [.called i k r]) i = callsAt L i ++ [(k, r)] := by
  simp [callsAt, Happening.callAt?]

theorem callsAt_concat_of_ne {i j : Nat} (h : j ≠ i) (L : List Happening) (k : Command)
    (r : Except Fault Reply) : callsAt (L ++ [.called j k r]) i = callsAt L i := by
  simp [callsAt, Happening.callAt?, h]

namespace Session

/-- A builder that has just been opened has had no calls. -/
theorem Trace.callsAt_length {s t : Session} {L : List Happening} (h : s.Trace L t) :
    callsAt L t.builders.length = [] := by
  rw [List.eq_nil_iff_forall_not_mem]
  rintro ⟨k, r⟩ hmem
  exact Nat.lt_irrefl _ (h.place_lt (mem_callsAt.mp hmem))

section Induct

variable {P : List (Command × Except Fault Reply) → Builder → Prop}

theorem Trace.opened_induct {s t : Session} {L : List Happening} (h : s.Trace L t)
    (hP : ∀ i < t.builders.length, P (callsAt L i) (t.builder i)) {options : Value}
    (hempty : P [] (.empty options)) (parent : Option Nat) :
    ∀ i < (t.builders ++ [Builder.empty options]).length,
      P (callsAt (L ++ [.opened t.builders.length parent]) i)
        (builder { t with builders := t.builders ++ [Builder.empty options] } i) := by
  intro i hi
  rw [callsAt_concat_opened]
  by_cases hit : i < t.builders.length
  · rw [builder_append hit]
    exact hP i hit
  · obtain rfl : i = t.builders.length := by
      rw [List.length_append, List.length_singleton] at hi
      omega
    rw [builder_append_self, h.callsAt_length]
    exact hempty

/-- **What a builder is, is up to the calls on it.** A property of empty builders that every call
keeps holds of every builder and the calls on it. -/
theorem Follows.induct (hempty : ∀ options, P [] (.empty options))
    (hstep : ∀ {invoke : Invoke} {t u : Session} {i : Nat} {k : Command}
      {r : Except Fault Reply} {cs : List (Command × Except Fault Reply)},
      i < t.builders.length → k.nests = false → (k.runNoted invoke i).exec t = (r, u) →
      P cs (t.builder i) → P (cs ++ [(k, r)]) (u.builder i))
    {options : Value} {L : List Happening} {s : Session} (h : s.Follows options L) :
    ∀ i < s.builders.length, P (callsAt L i) (s.builder i) := by
  obtain ⟨stream, threshold, h⟩ := h
  induction h with
  | start =>
    intro i hi
    obtain rfl : i = 0 := Nat.lt_one_iff.mp hi
    exact hempty options
  | aside _ _ hb ih =>
    intro i hi
    rw [builder_of_builders_eq hb]
    exact ih i (hb ▸ hi)
  | opened hL _ _ ih | inherited hL _ ih => exact hL.opened_induct ih (hempty _) _
  | @called _ t u invoke j k r _ hj hk hr ih =>
    intro i hi
    obtain ⟨-, -, b, -, hb⟩ := runNoted_changed hk hr
    rw [hb, List.length_set] at hi
    by_cases hij : j = i
    · subst hij
      rw [callsAt_concat_self]
      exact hstep hj hk hr (ih j hj)
    · rw [callsAt_concat_of_ne hij, builder_of_set_ne hij hb]
      exact ih i hi

end Induct

end Session

end BoundSql
