import BoundSql.Proofs.Calls
import BoundSql.Proofs.Clauses
import BoundSql.Proofs.Isolation

/-!
# Calls that fail, and slots that are not concerned

A call first checks and makes what it is going to store, and stores it last. So a call that fails
has stored nothing: with respect to the session in which its arguments had been evaluated, only the
log and the history are longer (`Session.Kept`). Calls for fields are the exception, and are not
treated here.

The two calls that nest statements run callbacks before they can fail, and a callback may do
anything that steps do. `Session.RunsCallbacks` are the sessions that one comes to by running
callbacks on new builders, and by nothing else; so what such a call does to a builder that was
there, its callbacks did (`Session.RunsCallbacks.builder_eq`), and the callbacks of a script do
nothing to it.

A call that returns stores into one slot. `Builder.without` blanks a slot, and two builders that are
equal without it differ in nothing else.
-/

set_option autoImplicit false

namespace BoundSql

/-! ## Slots -/

/-- The places of a builder that calls store into. -/
inductive Slot where
  | table
  | fields
  | joins
  | filters
  | groups
  | order
  | limit
  | offset
  | extra
  deriving DecidableEq, Repr

/-- The builder with one slot blanked. -/
def Builder.without (b : Builder) : Slot → Builder
  | .table => { b with table := none }
  | .fields => { b with fields := [] }
  | .joins => { b with joins := [] }
  | .filters => { b with filters := [] }
  | .groups => { b with groups := [] }
  | .order => { b with order := [] }
  | .limit => { b with limit := none }
  | .offset => { b with offset := none }
  | .extra => { b with extra := [] }

/-- The one slot that a command stores into; one that adds fields may store into two. -/
def Command.slot? : Command → Option Slot
  | .table _ => some .table
  | .filter .. | .paranoid _ => some .filters
  | .join _ => some .joins
  | .limit _ => some .limit
  | .offset _ => some .offset
  | .order _ => some .order
  | .groupBy _ => some .groups
  | _ => none

/-- **A command touches its own slot only.** -/
theorem Command.Changes.without {issued : Placeholder → Value → Prop}
    {answered : Callback → String → Bindings → Prop} {k : Command} {b b' : Builder}
    (h : k.Changes issued answered b b') {slot : Slot} (hslot : k.slot? = some slot) :
    b'.without slot = b.without slot := by
  cases h with
  | unchanged => rfl
  | fields | select | compileSelect => cases hslot
  | table | filter | paranoid | join | limit | offset | order | groupBy =>
    cases hslot
    rfl

/-! ## Methods and the commands they ask for -/

namespace Method

/-- Whether all positional arguments of a method are fields. -/
def takesFields : Method → Bool
  | .fields | .select | .compileSelect => true
  | _ => false

/-- Whether a method takes callbacks. -/
def nests : Method → Bool
  | .subSelect | .union => true
  | _ => false

/-- The slot that a call of the method stores into. -/
def slot? : Method → Option Slot
  | .table => some .table
  | .filter | .paranoid => some .filters
  | .join => some .joins
  | .limit => some .limit
  | .offset => some .offset
  | .order => some .order
  | .groupBy => some .groups
  | _ => none

/-- A command that a method asks for is one of its kind. -/
structure AsksFor (m : Method) (k : Command) : Prop where
  nests : k.nests = m.nests
  slot : k.slot? = m.slot?
  fields : m.takesFields = false → k.fieldsGiven = []

theorem asksFor_of_reader (m : Method) :
    ArgumentReader.Reads (fun _ => True) m.reader m.AsksFor := by
  cases m with
  | table | limit | offset | clampLimit =>
    exact .bind (.required _) fun _ _ => .pure ⟨rfl, rfl, fun _ => rfl⟩
  | join | order | groupBy => exact .bind .rest fun _ _ => .pure ⟨rfl, rfl, fun _ => rfl⟩
  | fields | select | compileSelect =>
    refine .bind .rest fun _ _ => .pure ⟨rfl, rfl, fun h => ?_⟩
    cases h
  | filter =>
    exact .bind (.required _) fun _ _ => .bind (.optional _ trivial) fun _ _ =>
      .bind (.optional _ trivial) fun _ _ => .pure ⟨rfl, rfl, fun _ => rfl⟩
  | paranoid => exact .bind (.optional _ trivial) fun _ _ => .pure ⟨rfl, rfl, fun _ => rfl⟩
  | subSelect | union =>
    exact .bind (.required _) fun _ _ => .bind (.optional _ trivial) fun _ _ =>
      .pure ⟨rfl, rfl, fun _ => rfl⟩
  | delete | compileDelete | bindings | options => exact .pure ⟨rfl, rfl, fun _ => rfl⟩

theorem asksFor {m : Method} {a : Arguments} {k : Command} (h : m.command? a = some k) :
    m.AsksFor k :=
  m.asksFor_of_reader.read? ⟨fun _ _ => trivial, fun _ _ => trivial⟩ h

/-- Without positional arguments there are no fields. -/
theorem fieldsGiven_eq_nil {m : Method} {a : Arguments} {k : Command}
    (h : m.command? a = some k) (hfields : m.takesFields = true → a.positional = []) :
    k.fieldsGiven = [] := by
  by_cases hm : m.takesFields = true
  · obtain ⟨positional, named⟩ := a
    obtain rfl : positional = [] := hfields hm
    cases m with
    | fields | select | compileSelect =>
      simp only [command?, Arguments.read?] at h
      split at h
      · rename_i x hx
        cases hx
        cases h
        rfl
      · cases h
    | _ => cases hm
  · exact (asksFor h).fields (Bool.eq_false_iff.mpr hm)

/-- Calls the method on the builder at hand, once its arguments are evaluated. -/
def call (invoke : Invoke) (self : Nat) (m : Method) (a : Arguments) : Run Reply :=
  match m.command? a with
  | some k => k.runNoted invoke self
  | none => throw .badArguments

end Method

/-- Evaluates the arguments of a call, the positional ones first. -/
def Arguments.evaluate (invoke : Invoke) (self : Nat) (args : List Expr)
    (named : List (String × Expr)) : Run Arguments := do
  let positional ← args.mapM (Expr.begin invoke self)
  let named ← named.mapM fun (name, e) => return (name, ← e.begin invoke self)
  return ⟨positional, named⟩

/-- **A step that is a call evaluates the arguments first**, and then calls the method. -/
theorem Step.run_call (invoke : Invoke) (self : Nat) (m : Method) (args : List Expr)
    (named : List (String × Expr)) :
    (Step.call m args named).run invoke self =
      Arguments.evaluate invoke self args named >>= m.call invoke self := by
  simp only [Step.run, Arguments.evaluate, bind_assoc, pure_bind]
  rfl

/-! ## What a failing command leaves -/

namespace Session

/-- The session `t` is `s` with more in the log and in the history. -/
def Kept (s t : Session) : Prop :=
  ∃ records events, t = { s with log := s.log ++ records, history := s.history ++ events }

namespace Kept

variable {s t u : Session}

theorem refl (s : Session) : s.Kept s := ⟨[], [], by simp⟩

theorem trans (h : s.Kept t) (h' : t.Kept u) : s.Kept u := by
  obtain ⟨records, events, rfl⟩ := h
  obtain ⟨records', events', rfl⟩ := h'
  exact ⟨records ++ records', events ++ events', by simp⟩

theorem addRecord (s : Session) (r : Record) : s.Kept (s.addRecord r) := by
  unfold Session.addRecord
  split
  · exact ⟨[r], [], by simp⟩
  · exact .refl s

theorem note (s : Session) (e : Event) : s.Kept { s with history := s.history ++ [e] } :=
  ⟨[], [e], by simp⟩

/-- All builders are what they were. -/
theorem builders_eq (h : s.Kept t) : t.builders = s.builders := by
  obtain ⟨records, events, rfl⟩ := h
  rfl

end Kept

end Session

section Faults

open Session

variable {invoke : Invoke} {self : Nat} {s s' : Session} {fault : Fault}

/-- A comparison fails at its left side, before anything is drawn for the right one. -/
theorem Filter.outcome_make_fault {left right operator before after : Value}
    {supply supply' : Supply}
    (h : Action.outcome (Filter.make left right operator before after) supply =
      (.error fault, supply')) : supply' = supply := by
  unfold Filter.make at h
  rw [Action.outcome_bind] at h
  cases hl : left.asColumn with
  | error fault' =>
    rw [hl] at h
    cases h
    rfl
  | ok l =>
    rw [hl] at h
    change Action.outcome (right.asOperand? .filter >>= _) supply = _ at h
    cases right <;> cases h

/-- What is not added has not been made. -/
theorem addFilter_fault {given : Value} {make : Value → Making Filter}
    (h : (addFilter self given make).exec s = (.error fault, s'))
    (hmake : ∀ supply supply', Action.outcome (make given) supply = (.error fault, supply') →
      supply' = supply) : s' = s := by
  by_cases hg : ∃ c origin, given = .fragment (.filter c) origin
  · obtain ⟨c, origin, rfl⟩ := hg
    cases h
  · rw [exec_addFilter_of_made make s (fun c origin h => hg ⟨c, origin, h⟩)] at h
    rcases hm : Action.outcome (make given) s.supply with ⟨fault' | c, supply⟩ <;> rw [hm] at h
    · cases h
      rw [hmake _ _ hm]
    · cases h

theorem runDelete_fault (h : (runDelete self).exec s = (.error fault, s')) : s.Kept s' := by
  have hrefused : s.Kept (if (s.builder self).filters.isEmpty then
      s.addRecord .refusedDelete else s) := by
    split
    · exact .addRecord s _
    · exact .refl s
  rw [exec_runDelete] at h
  dsimp only at h
  split at h <;> cases h
  exact hrefused

/-- A rendering that adds no fields has nothing to take back. -/
theorem runSelect_fault (h : (runSelect self []).exec s = (.error fault, s')) : s' = s := by
  rw [exec_runSelect] at h
  simp only [Builder.addFields_nil, setBuilder_builder] at h
  cases hsql : (s.builder self).selectText <;> rw [hsql] at h <;> cases h
  rfl

/-- **A command that fails without running callbacks has stored nothing**, unless it adds fields. -/
theorem Command.run_fault {k : Command} (hk : k.nests = false) (hfields : k.fieldsGiven = [])
    (h : (k.run invoke self).exec s = (.error fault, s')) : s.Kept s' := by
  -- The last action of each command returns, so the fault is that of an action before it.
  have before : ∀ {α : Type} {m : Run α} {f : α → Reply},
      (m >>= fun x => pure (f x)).exec s = (.error fault, s') → m.exec s = (.error fault, s') := by
    intro α m f h
    obtain h | ⟨x, t, -, h⟩ := Run.exec_bind_eq_error h
    · exact h
    · cases h
  cases k with
  | subSelect _ _ | union _ _ => cases hk
  | offset _ | order _ | groupBy _ | bindings | options => cases h
  | table name =>
    simp only [Command.run, Run.exec_bind, Run.exec_ofExcept] at h
    cases hname : name.asColumn <;> rw [hname] at h <;> cases h
    exact .refl s
  | join args =>
    simp only [Command.run, Run.exec_bind, Run.exec_ofExcept] at h
    cases hjoin : joinOfArguments args <;> rw [hjoin] at h <;> cases h
    exact .refl s
  | limit number =>
    obtain ⟨fault', hrun⟩ | ⟨_, _, -, -, _, hrun, -⟩ := exec_setLimit self number s <;>
      rw [before h] at hrun <;> cases hrun
    exact .refl s
  | clampLimit number =>
    rw [exec_clampLimit] at h
    obtain ⟨-, rfl⟩ := Prod.mk.inj h
    exact .refl s
  | filter left right operator =>
    rw [addFilter_fault (before h) fun _ _ => Filter.outcome_make_fault]
    exact .refl s
  | paranoid target =>
    cases hcolumn : (s.builder self).absenceTarget target with
    | error fault' =>
      rw [exec_paranoid_fault hcolumn] at h
      cases h
      exact .refl s
    | ok column =>
      rw [exec_paranoid hcolumn] at h
      rw [addFilter_fault (before h) fun _ _ habsent => (congrArg Prod.snd habsent).symm]
      exact .refl s
  | delete => exact runDelete_fault (before h)
  | compileDelete =>
    obtain h | ⟨sql, t, -, h⟩ := Run.exec_bind_eq_error h
    · exact runDelete_fault h
    · cases h
  | fields added =>
    obtain rfl : added = [] := hfields
    cases h
  | select added =>
    obtain rfl : added = [] := hfields
    rw [runSelect_fault (before h)]
    exact .refl s
  | compileSelect added =>
    obtain rfl : added = [] := hfields
    obtain h | ⟨sql, t, -, h⟩ := Run.exec_bind_eq_error h
    · rw [runSelect_fault h]
      exact .refl s
    · cases h

end Faults

/-! ## What callbacks leave -/

/-- The sessions that one comes to by running callbacks, each on a new builder. A builder is also
opened for what turns out to be no callback. -/
inductive Session.RunsCallbacks (invoke : Invoke) (s : Session) : Session → Prop where
  | start : RunsCallbacks invoke s s
  | noted {t : Session} (h : RunsCallbacks invoke s t) (e : Event) :
      RunsCallbacks invoke s { t with history := t.history ++ [e] }
  | opened {t : Session} (h : RunsCallbacks invoke s t) (options : Value) :
      RunsCallbacks invoke s { t with builders := t.builders ++ [.empty options] }
  | called {t : Session} (h : RunsCallbacks invoke s t) (options : Value) (c : Callback) :
      RunsCallbacks invoke s
        ((invoke c t.builders.length).exec
          { t with builders := t.builders ++ [.empty options] }).2

namespace Session.RunsCallbacks

variable {invoke : Invoke} {s t u : Session}

theorem trans (h : s.RunsCallbacks invoke t) (h' : t.RunsCallbacks invoke u) :
    s.RunsCallbacks invoke u := by
  induction h' with
  | start => exact h
  | noted _ e ih => exact ih.noted e
  | opened _ options ih => exact ih.opened options
  | called _ options c ih => exact ih.called options c

/-- **What callbacks leave alone stays as it was.** -/
theorem builder_eq (h : s.RunsCallbacks invoke t) {n : Nat} {J : Nat → Prop}
    (hi : invoke.Leaves n J) (hn : n ≤ s.builders.length) :
    n ≤ t.builders.length ∧ ∀ j < n, J j → t.builder j = s.builder j := by
  have open_keeps : ∀ {v : Session} (options : Value), n ≤ v.builders.length →
      n ≤ (v.builders ++ [Builder.empty options]).length ∧
        ∀ j < n, Session.builder { v with builders := v.builders ++ [.empty options] } j =
          v.builder j := by
    intro v options hv
    refine ⟨?_, fun j hj => builder_append (Nat.lt_of_lt_of_le hj hv) _⟩
    rw [List.length_append]
    exact Nat.le_add_right_of_le hv
  induction h with
  | start => exact ⟨hn, fun _ _ _ => rfl⟩
  | noted _ e ih => exact ih
  | opened _ options ih =>
    obtain ⟨hlength, hopen⟩ := open_keeps options ih.1
    exact ⟨hlength, fun j hj hJ => (hopen j hj).trans (ih.2 j hj hJ)⟩
  | @called v _ options c ih =>
    obtain ⟨hlength, hopen⟩ := open_keeps options ih.1
    obtain ⟨hlength', hsame⟩ :=
      hi c _ ih.1 { v with builders := v.builders ++ [.empty options] } hlength
    exact ⟨hlength', fun j hj hJ =>
      (hsame j hj hJ).trans ((hopen j hj).trans (ih.2 j hj hJ))⟩

end Session.RunsCallbacks

/-- The action runs callbacks, and does nothing else to the session. -/
def Run.OnlyCalls {α : Type} (invoke : Invoke) (m : Run α) : Prop :=
  ∀ s : Session, s.RunsCallbacks invoke (m.exec s).2

namespace Run.OnlyCalls

variable {α β : Type} {invoke : Invoke}

theorem pure (x : α) : OnlyCalls invoke (Pure.pure x) := fun _ => .start

theorem throw (fault : Fault) : OnlyCalls invoke (MonadExcept.throw fault : Run α) :=
  fun _ => .start

theorem ofExcept (r : Except Fault α) : OnlyCalls invoke (Run.ofExcept r) := fun _ => .start

theorem builder (i : Nat) : OnlyCalls invoke (Run.builder i) := fun _ => .start

theorem note (e : Event) : OnlyCalls invoke (Run.note e) := fun _ => .noted .start e

theorem bind {m : Run α} {f : α → Run β} (hm : OnlyCalls invoke m)
    (hf : ∀ x, OnlyCalls invoke (f x)) : OnlyCalls invoke (m >>= f) := by
  intro s
  have hs := hm s
  rw [exec_bind]
  rcases hr : m.exec s with ⟨fault | x, t⟩ <;> rw [hr] at hs
  · exact hs
  · exact hs.trans (hf x t)

/-- A builder that is opened for a callback, which is run at once. -/
theorem newBuilder {options : Value} {c : Callback} {f : Nat → Reply → Run α}
    (hf : ∀ i r, OnlyCalls invoke (f i r)) :
    OnlyCalls invoke (Run.newBuilder (givenOptions options) >>= fun i => invoke c i >>= f i) := by
  intro s
  have hstart : s.RunsCallbacks invoke s := .start
  have hcalled := hstart.called (givenOptions options) c
  rw [exec_bind, exec_newBuilder]
  dsimp only
  rw [exec_bind]
  rcases hr : (invoke c s.builders.length).exec
    { s with builders := s.builders ++ [.empty (givenOptions options)] } with ⟨fault | r, t⟩ <;>
    rw [hr] at hcalled
  · exact hcalled
  · exact hcalled.trans (hf _ r t)

theorem runNested (className : String) (options callback : Value) :
    OnlyCalls invoke (BoundSql.runNested invoke className options callback) := by
  cases callback with
  | callback c origin =>
    refine OnlyCalls.newBuilder fun i r => ?_
    split
    · exact (OnlyCalls.builder i).bind fun _ => (OnlyCalls.note _).bind fun _ => .pure _
    · exact .throw _
  | _ => exact fun s => .opened .start (givenOptions options)

theorem makeSubSelect (callback label options : Value) :
    OnlyCalls invoke (BoundSql.makeSubSelect invoke callback label options) :=
  (OnlyCalls.ofExcept _).bind fun _ => (runNested "SubSelect" options callback).bind fun _ => .pure _

theorem runMembers (options : Value) (callbacks : List Value) :
    OnlyCalls invoke (BoundSql.runMembers invoke options callbacks) := by
  induction callbacks with
  | nil => exact .pure _
  | cons callback rest ih =>
    exact (runNested "Union" options callback).bind fun _ => ih.bind fun _ => .pure _

theorem makeUnion (callbacks modifier options : Value) :
    OnlyCalls invoke (BoundSql.makeUnion invoke callbacks modifier options) :=
  (OnlyCalls.ofExcept _).bind fun items => (runMembers options items).bind fun _ => .pure _

end Run.OnlyCalls

/-- **A command that nests statements does nothing but run callbacks.** -/
theorem Command.run_onlyCalls {k : Command} (hk : k.nests = true) (invoke : Invoke) (self : Nat) :
    Run.OnlyCalls invoke (k.run invoke self) := by
  -- What is asked for and what is made are noted before and after.
  have noted : ∀ (c : Construction) {m : Run Fragment}, Run.OnlyCalls invoke m →
      Run.OnlyCalls invoke (do
        Run.note (.construction c)
        let f ← m
        Run.note (.fragment f)
        return Value.fragment f []) := fun c _ hm =>
    (Run.OnlyCalls.note (.construction c)).bind fun _ =>
      hm.bind fun f => (Run.OnlyCalls.note (.fragment f)).bind fun _ => .pure _
  cases k with
  | subSelect callback label =>
    refine (noted (.ownSubSelect callback label) ?_).bind fun v => .pure (Reply.value v)
    exact (Run.OnlyCalls.builder self).bind fun b => .makeSubSelect callback label b.options
  | union callbacks modifier =>
    refine (noted (.ownUnion callbacks modifier) ?_).bind fun v => .pure (Reply.value v)
    exact (Run.OnlyCalls.builder self).bind fun b => .makeUnion callbacks modifier b.options
  | _ => cases hk

/-! ## Calls -/

section Calls

variable {invoke : Invoke} {self : Nat} {m : Method} {a : Arguments} {s s' : Session}
  {fault : Fault}

/-- **A call that fails has stored nothing.** -/
theorem Method.call_fault (hm : m.nests = false)
    (hfields : m.takesFields = true → a.positional = [])
    (h : (m.call invoke self a).exec s = (.error fault, s')) : s.Kept s' := by
  unfold Method.call at h
  cases hk : m.command? a with
  | none =>
    rw [hk] at h
    cases h
    exact .refl s
  | some k =>
    rw [hk] at h
    have hnests : k.nests = false := (Method.asksFor hk).nests.trans hm
    have hrun := Command.run_fault (s := { s with history := s.history ++ [.command self k] })
      hnests (Method.fieldsGiven_eq_nil hk hfields) h
    exact (Session.Kept.note s (.command self k)).trans hrun

/-- **A call that nests statements runs callbacks**, whether it fails or not. -/
theorem Method.call_onlyCalls (hm : m.nests = true) (a : Arguments) :
    Run.OnlyCalls invoke (m.call invoke self a) := by
  unfold Method.call
  cases hk : m.command? a with
  | none => exact .throw _
  | some k =>
    have hnests : k.nests = true := (Method.asksFor hk).nests.trans hm
    exact (Run.OnlyCalls.note _).bind fun _ => Command.run_onlyCalls hnests invoke self

/-- **A call touches its own slot only.** -/
theorem Method.call_slot {slot : Slot} (hslot : m.slot? = some slot)
    {r : Except Fault Reply} (h : (m.call invoke self a).exec s = (r, s')) :
    ∃ b, b.without slot = (s.builder self).without slot ∧
      s'.builders = s.builders.set self b := by
  unfold Method.call at h
  cases hk : m.command? a with
  | none =>
    rw [hk] at h
    cases h
    refine ⟨s.builder self, rfl, ?_⟩
    exact (congrArg Session.builders (s.setBuilder_builder self)).symm
  | some k =>
    rw [hk] at h
    have hasks := Method.asksFor hk
    have hnests : k.nests = false := by
      rw [hasks.nests]
      cases m <;> first | rfl | cases hslot
    obtain ⟨-, -, b, hchanges, hb⟩ := Session.runNoted_changed hnests h
    exact ⟨b, hchanges.without (hasks.slot.trans hslot), hb⟩

end Calls

/-- **A call that fails leaves its builder as it was.** With respect to the session in which its
arguments had been evaluated, a call that fails has only written to the log and to the history. One
that nests statements has also run callbacks, on builders of their own; whatever builder these leave
alone is as it was, and the callbacks of a script leave alone all that were there. A call that adds
fields is not included, unless it is given none. A call that returns and that has a slot of its own
has changed this slot of this builder at most. -/
theorem failing_calls_store_nothing {invoke : Invoke} {self : Nat} {m : Method} {args : List Expr}
    {named : List (String × Expr)} {s s₁ s₂ : Session} {a : Arguments} {r : Except Fault Reply}
    (heval : (Arguments.evaluate invoke self args named).exec s = (.ok a, s₁))
    (hrun : ((Step.call m args named).run invoke self).exec s = (r, s₂)) :
    (∀ fault, r = .error fault → (m.takesFields = true → a.positional = []) →
      (m.nests = false → s₁.Kept s₂) ∧
      (m.nests = true → s₁.RunsCallbacks invoke s₂) ∧
      (∀ J : Nat → Prop, invoke.Leaves s₁.builders.length J →
        ∀ i < s₁.builders.length, J i → s₂.builder i = s₁.builder i) ∧
      (∀ depth, invoke = Callback.run depth →
        ∀ i < s₁.builders.length, s₂.builder i = s₁.builder i)) ∧
    (∀ slot, m.slot? = some slot →
      ∃ b, b.without slot = (s₁.builder self).without slot ∧
        s₂.builders = s₁.builders.set self b) := by
  have hcall : (m.call invoke self a).exec s₁ = (r, s₂) := by
    rw [Step.run_call, Run.exec_bind, heval] at hrun
    exact hrun
  refine ⟨?_, fun slot hslot => Method.call_slot hslot hcall⟩
  rintro fault rfl hfields
  have hkept : m.nests = false → s₁.Kept s₂ := fun hm => Method.call_fault hm hfields hcall
  have hcalls : m.nests = true → s₁.RunsCallbacks invoke s₂ := by
    intro hm
    have honly : Run.OnlyCalls invoke (m.call invoke self a) := Method.call_onlyCalls hm a
    have hs := honly s₁
    rwa [hcall] at hs
  have hleaves : ∀ J : Nat → Prop, invoke.Leaves s₁.builders.length J →
      ∀ i < s₁.builders.length, J i → s₂.builder i = s₁.builder i := by
    intro J hi i hlt hJ
    cases hm : m.nests with
    | false => exact Session.builder_of_builders_eq (hkept hm).builders_eq i
    | true => exact ((hcalls hm).builder_eq hi (Nat.le_refl _)).2 i hlt hJ
  refine ⟨hkept, hcalls, hleaves, ?_⟩
  rintro depth rfl i hlt
  exact hleaves _ (Callback.run_leaves _ depth) i hlt hlt

/-- A session with a new builder whose refusals are recorded. -/
def watchedSession : Session := .start Supply.counting .warning (.options .default)

/-- A callback that draws a placeholder, and answers with no statement. -/
def wordlessCallback : Callback :=
  ⟨[.call .filter [.atom (.str "c"), .atom (.int 8)] []], some (.atom .null), none⟩

/-- A call that is made first of all. -/
def firstCall (m : Method) (args : List Expr) : Except Fault Reply × Session :=
  ((Step.call m args []).run (Callback.run 1) 0).exec watchedSession

/-- A refused statement is recorded, a nested one that fails has drawn a placeholder and left a
builder behind, and a filter is put into its slot. -/
theorem failing_calls_store_nothing_refused :
    (watchedSession.Kept (firstCall .delete []).2 ∧
      (firstCall .delete []).2.log = [.refusedDelete]) ∧
    ((firstCall .subSelect [.callback wordlessCallback]).2.builder 0 = watchedSession.builder 0 ∧
      (firstCall .subSelect [.callback wordlessCallback]).2.supply.position = 8 ∧
      (firstCall .subSelect [.callback wordlessCallback]).2.builders.length = 2) ∧
    ∃ b, b.without .filters = (watchedSession.builder 0).without .filters ∧
      (firstCall .filter [.atom (.str "c"), .atom (.int 8)]).2.builders = [b] ∧
      b.filters.length = 1 := by
  refine ⟨?_, ?_, ?_⟩
  · have heval : (Arguments.evaluate (Callback.run 1) 0 [] []).exec watchedSession =
        (.ok ⟨[], []⟩, watchedSession) := rfl
    have hrun : firstCall .delete [] = (.error .unfilteredDelete, (firstCall .delete []).2) := rfl
    have hfault := (failing_calls_store_nothing heval hrun).1 _ rfl fun h => by cases h
    exact ⟨hfault.1 rfl, rfl⟩
  · have heval : (Arguments.evaluate (Callback.run 1) 0 [.callback wordlessCallback] []).exec
        watchedSession =
        (.ok ⟨[.callback wordlessCallback [0]], []⟩, { watchedSession with begun := 1 }) := rfl
    have hanswer : (firstCall .subSelect [.callback wordlessCallback]).1.map (fun _ => ()) =
        .error (.misuse (.answerNotStatement "SubSelect" "NoneType")) := by decide +kernel
    have hkept : (firstCall .subSelect [.callback wordlessCallback]).2.builder 0 =
        watchedSession.builder 0 := by
      cases hr : (firstCall .subSelect [.callback wordlessCallback]).1 with
      | ok r =>
        rw [hr] at hanswer
        cases hanswer
      | error fault =>
        have hrun := (Prod.eta (firstCall .subSelect [.callback wordlessCallback])).symm
        have hfault := (failing_calls_store_nothing heval hrun).1 fault hr fun h => by cases h
        exact hfault.2.2.2 1 rfl 0 Nat.zero_lt_one
    exact ⟨hkept, by decide +kernel, by decide +kernel⟩
  · have heval : (Arguments.evaluate (Callback.run 1) 0 [.atom (.str "c"), .atom (.int 8)] []).exec
        watchedSession = (.ok ⟨[.str "c", .int 8], []⟩, { watchedSession with begun := 2 }) := rfl
    have hrun := (Prod.eta (firstCall .filter [.atom (.str "c"), .atom (.int 8)])).symm
    obtain ⟨b, hslots, hb⟩ := (failing_calls_store_nothing heval hrun).2 .filters rfl
    have hfilters : ((firstCall .filter [.atom (.str "c"), .atom (.int 8)]).2.builder 0).filters.length
        = 1 := by decide +kernel
    refine ⟨b, hslots, hb, ?_⟩
    unfold Session.builder at hfilters
    rw [hb] at hfilters
    exact hfilters

end BoundSql
