import BoundSql.Proofs.Calls
import BoundSql.Script.Turn

/-!
# Disciplines

Many promises about fragments are of one kind: if the parts of a fragment keep the promise then so
does the fragment, provided that the construction was in order; and what is promised of a builder
follows from what is promised of the fragments in its slots. A `Discipline` is such a promise. Its
laws (`Discipline.Lawful`) speak of one construction and of one command at a time, by the rules of
`Construction.Makes` and `Command.Changes`.

What one gets for the laws is said about whole dialogues, however callbacks are nested and whatever
fails on the way: **every fragment that was ever made and every builder keeps the promise**
(`Discipline.Lawful.holds`). The proof runs a script and carries one invariant
along, `Discipline.Holds`: all builders are fine, and so are all values with a name.

The laws may use what is known about the dialogue *in the end*, by way of its last session: which
placeholders were issued for what, and what the history tells.
-/

set_option autoImplicit false

namespace BoundSql

/-- Whether the last step of a callback renders the statement of its builder, as the answer. -/
def Callback.endsInSelect (c : Callback) : Bool :=
  c.answer.isNone && match c.steps.getLast? with
    | some (.call .select _ _) => true
    | _ => false

/-- The options that a construction opens new builders with, if it is given any. -/
def Construction.options? : Construction → Option Value
  | .subSelect _ _ options | .union _ _ options => some options
  | _ => none

/-- A promise about the fragments of a run. -/
structure Discipline where
  /-- What is promised of a fragment. -/
  good : Fragment → Prop
  /-- What is promised of a builder, beside that the fragments in its slots are good. -/
  proper : Builder → Prop
  /-- The constructions that are in order. -/
  allows : Construction → Prop

namespace Discipline

variable (D : Discipline) (last : Session)

/-- A builder keeps the promise, and so do the fragments in its slots. -/
structure Fine (b : Builder) : Prop where
  proper : D.proper b
  children : ∀ g ∈ b.children, D.good g

/-- A callback answered with `sql` when its builder was fine and had bound `bound`. -/
def Answered (c : Callback) (sql : String) (bound : Bindings) : Prop :=
  ∃ b, .nested b sql ∈ last.history ∧ bound = b.bindings ∧ D.Fine b ∧
    (c.endsInSelect = true → b.selectText = .ok sql)

/-- What is promised of an event. -/
def Accepts : Event → Prop
  | .construction _ => True
  | .fragment f => D.good f
  | .command _ k => ∀ v ∈ k.arguments, v.Every D.good
  | .nested b _ => D.Fine b

/-- The promise, kept by everything in a session. -/
structure Holds (s : Session) : Prop where
  builders : ∀ i, D.Fine (s.builder i)
  named : ∀ e ∈ s.named, e.2.Every D.good
  history : ∀ e ∈ s.history, D.Accepts e

/-- What has to be shown of one construction and of one command. -/
structure Lawful : Prop where
  null : D.good .null
  asked : ∀ {c}, .construction c ∈ last.history → D.allows c
  carried : ∀ {i k b c}, .command i k ∈ last.history → D.Fine b → k.Carries b c → D.allows c
  made : ∀ {c f}, D.allows c → (∀ v ∈ c.arguments, v.Every D.good) →
    c.Makes last.supply.Issued (D.Answered last) f → D.good f
  fresh : D.proper (.empty (.options .default))
  opened : ∀ {c o}, D.allows c → c.options? = some o → D.proper (.empty (givenOptions o))
  inherited : ∀ {b}, D.Fine b → D.proper (.empty (givenOptions b.options))
  changed : ∀ {i k b b'}, .command i k ∈ last.history → D.Fine b →
    k.Changes last.supply.Issued (D.Answered last) b b' → D.proper b'

end Discipline

/-! ## What actions on a session keep -/

section Actions

open BoundSql.Action

variable {D : Discipline} {last : Session} {P : Prop} {α : Type}

theorem Discipline.fine_empty {options : Value} (h : D.proper (.empty options)) :
    D.Fine (.empty options) :=
  ⟨h, by simp [Builder.children, Builder.empty]⟩

/-- A new builder is fine, and so are those that were there. -/
theorem Discipline.fine_append {s : Session} (hs : ∀ i, D.Fine (s.builder i)) {options : Value}
    (fresh : D.proper (.empty (.options .default))) (h : D.proper (.empty options)) (i : Nat) :
    D.Fine (Session.builder { s with builders := s.builders ++ [.empty options] } i) := by
  change D.Fine ((s.builders ++ [Builder.empty options]).getD i _)
  rw [List.getD_eq_getElem?_getD]
  rcases Nat.lt_trichotomy i s.builders.length with hi | rfl | hi
  · rw [List.getElem?_append_left hi, ← List.getD_eq_getElem?_getD]
    exact hs i
  · simpa using fine_empty h
  · rw [List.getElem?_eq_none (by simp; omega)]
    exact fine_empty fresh

theorem Discipline.Holds.setBuilder {s : Session} (h : D.Holds s) {i : Nat} {b : Builder}
    (hb : D.Fine b) : D.Holds (s.setBuilder i b) := by
  refine ⟨fun j => ?_, h.named, h.history⟩
  by_cases hij : i = j
  · subst hij
    by_cases hi : i < s.builders.length
    · rwa [Session.builder_setBuilder_self hi]
    · have hs : s.setBuilder i b = s := by
        simp [Session.setBuilder, List.set_eq_of_length_le (Nat.le_of_not_lt hi)]
      rw [hs]
      exact h.builders i
  · exact (Session.builder_setBuilder_of_ne hij s b) ▸ h.builders j

namespace Run

theorem making_keeps {m : Making α} {Q : α → Prop}
    (h : Keeps last.supply (fun _ => True) P m Q) : Keeps last D.Holds P (Run.making m) Q := by
  intro s
  obtain ⟨hgrow, hkeep⟩ := h s.supply
  refine ⟨⟨hgrow, List.prefix_refl _⟩, fun hP hlast hI => ⟨⟨hI.builders, hI.named, hI.history⟩, ?_⟩⟩
  exact (hkeep hP hlast.1 trivial).2

theorem builder_keeps (i : Nat) : Keeps last D.Holds P (Run.builder i) D.Fine := by
  intro s
  refine ⟨le_refl s, fun _ _ hI => ⟨hI, fun b hb => ?_⟩⟩
  cases hb
  exact hI.builders i

theorem newBuilder_keeps {options : Value} (fresh : D.proper (.empty (.options .default)))
    (h : P → D.proper (.empty options)) :
    Keeps last D.Holds P (Run.newBuilder options) fun _ => True := by
  intro s
  exact ⟨⟨le_refl _, List.prefix_refl _⟩, fun hP _ hI =>
    ⟨⟨Discipline.fine_append hI.builders fresh (h hP), hI.named, hI.history⟩, fun _ _ => trivial⟩⟩

theorem capture_keeps (name : String) (i : Nat) :
    Keeps last D.Holds P (Run.capture name i) fun _ => True := by
  intro s
  exact ⟨⟨le_refl _, List.prefix_refl _⟩, fun _ _ hI =>
    ⟨⟨hI.builders, hI.named, hI.history⟩, fun _ _ => trivial⟩⟩

theorem origin_keeps : Keeps last D.Holds P Run.origin fun _ => True := by
  intro s
  exact ⟨⟨le_refl _, List.prefix_refl _⟩, fun _ _ hI =>
    ⟨⟨hI.builders, hI.named, hI.history⟩, fun _ _ => trivial⟩⟩

theorem bindName_keeps {name : String} {v : Value} (h : P → v.Every D.good) :
    Keeps last D.Holds P (Run.bindName name v) fun _ => True := by
  intro s
  refine ⟨⟨le_refl _, List.prefix_refl _⟩, fun hP _ hI =>
    ⟨⟨hI.builders, fun e he => ?_, hI.history⟩, fun _ _ => trivial⟩⟩
  obtain ⟨j, w⟩ := e
  rcases Entries.mem_of_mem_insert he with he | ⟨rfl, -⟩
  · exact hI.named _ he
  · exact h hP

theorem named_keeps (name : String) :
    Keeps last D.Holds P (Run.named name) fun v => v.Every D.good := by
  intro s
  refine ⟨le_refl s, fun _ _ hI => ⟨hI, fun v hv => ?_⟩⟩
  obtain ⟨j, hj, -⟩ : ∃ j, (j, v) ∈ s.named ∧ (j == name) = true := by
    refine Entries.exists_mem_of_get? ?_
    change ((Run.named name).exec s).1 = _ at hv
    rw [Run.exec_named] at hv
    dsimp only at hv
    split at hv
    · cases hv
      assumption
    · cases hv
  exact hI.named _ hj

/-- What is entered into the history is there in the end. -/
theorem note_keeps {e : Event} (h : P → D.Accepts e) :
    Keeps last D.Holds P (Run.note e) fun _ => e ∈ last.history := by
  intro s
  refine ⟨⟨le_refl _, List.prefix_append _ _⟩, fun hP hlast hI => ⟨⟨hI.builders, hI.named, ?_⟩, ?_⟩⟩
  · intro e' he'
    rcases List.mem_append.mp he' with he' | he'
    · exact hI.history e' he'
    · exact List.mem_singleton.mp he' ▸ h hP
  · intro _ _
    exact hlast.2.subset (List.mem_append_right _ (List.mem_singleton_self e))

end Run

end Actions

/-! ## Constructions -/

/-- A way of running callbacks that keeps the promise. A callback whose last step renders the
statement of its builder answers with that statement. -/
structure Invoke.Sound (D : Discipline) (last : Session) (invoke : Invoke) : Prop where
  keeps : ∀ c i, Action.Keeps last D.Holds True (invoke c i) fun _ => True
  select : ∀ c i s sql s', c.endsInSelect = true →
    (invoke c i).exec s = (.ok (.value (.str sql)), s') → (s'.builder i).selectText = .ok sql

section Scripts

open BoundSql.Action

variable {D : Discipline} {last : Session} {invoke : Invoke} {P : Prop}

variable (hD : D.Lawful last) (hi : invoke.Sound D last)

include hD hi

theorem runNested_keeps {className : String} {options callback : Value}
    (h : P → D.proper (.empty (givenOptions options))) :
    Keeps last D.Holds P (runNested invoke className options callback)
      (callback.Answers (D.Answered last)) := by
  refine (Run.newBuilder_keeps hD.fresh h).bind fun nested => ?_
  cases callback with
  | callback c origin =>
    intro s
    refine Keeps.bind_at ((hi.keeps c nested).mono (fun _ => trivial) (fun _ _ => id) s) ?_
    -- Whatever else the answer is, it is refused.
    rintro (_ | v) s' hcall
    · exact Keeps.throw _ s'
    · cases v with
      | str sql =>
        -- What is noted is the builder as the callback has left it.
        have hselect : c.endsInSelect = true → (s'.builder nested).selectText = .ok sql :=
          fun hc => hi.select c nested s sql s' hc hcall
        refine Keeps.bind_at (Run.builder_keeps nested s') ?_
        rintro b _ ⟨⟩
        exact (Run.note_keeps fun h => h.2).bind (fun _ => .pure fun h =>
          .intro origin ⟨_, h.2, rfl, h.1.2, hselect⟩) s'
      | _ => exact Keeps.throw _ s'
  | _ => exact .throw _

theorem makeSubSelect_keeps {callback label options : Value}
    (h : P → D.proper (.empty (givenOptions options))) :
    Keeps last D.Holds P (makeSubSelect invoke callback label options) fun f =>
      ∃ l sql bound, label.name? = .ok l ∧ callback.Answers (D.Answered last) (sql, bound) ∧
        f = .subSelect ⟨sql, l, bound⟩ := by
  refine (Keeps.ofExcept (Q := fun l => label.name? = .ok l) fun _ _ => id).bind fun l => ?_
  refine (runNested_keeps hD hi fun hP => h hP.1).bind fun r => .pure fun hr => ?_
  exact ⟨l, r.1, r.2, hr.1.2, hr.2, rfl⟩

theorem runMembers_keeps {options : Value} (h : P → D.proper (.empty (givenOptions options)))
    (callbacks : List Value) :
    Keeps last D.Holds P (runMembers invoke options callbacks)
      (List.Forall₂ (Value.Answers (D.Answered last)) callbacks) := by
  induction callbacks with
  | nil => exact .pure fun _ => .nil
  | cons callback rest ih =>
    refine (runNested_keeps hD hi h).bind fun member => ?_
    refine (ih.mono And.left fun _ _ => id).bind fun members => .pure fun hr => ?_
    exact .cons hr.1.2 hr.2

theorem makeUnion_keeps {callbacks modifier options : Value}
    (h : P → D.proper (.empty (givenOptions options))) :
    Keeps last D.Holds P (makeUnion invoke callbacks modifier options) fun f =>
      ∃ cs members, callbacks.items = .ok cs ∧
        List.Forall₂ (Value.Answers (D.Answered last)) cs members ∧
        f = .union (members.map (·.1)) modifier (Entries.mergeAll (members.map (·.2))) := by
  refine (Keeps.ofExcept (Q := fun cs => callbacks.items = .ok cs) fun _ _ => id).bind fun cs => ?_
  refine (runMembers_keeps hD hi (fun hP => h hP.1) cs).bind fun members => .pure fun hr => ?_
  exact ⟨cs, members, hr.1.2, hr.2, rfl⟩

/-- **Constructions follow the rules**, also those that run callbacks. -/
theorem Construction.make_keeps {self : Nat} {c : Construction}
    (hc : P → .construction c ∈ last.history) :
    Keeps last D.Holds P (c.make invoke self) (c.Makes last.supply.Issued (D.Answered last)) := by
  cases c with
  | column name =>
    refine (Keeps.ofExcept fun _ _ => Value.eq_str_of_name).bind fun s => .pure fun h => ?_
    exact h.2 ▸ .column s
  | literal v => exact Run.making_keeps (Fragment.ofLiteral_keeps v)
  | null => exact .pure fun _ => .null
  | raw parts => exact .pure fun _ => .raw parts
  | cast operand type => exact .ofExcept fun _ _ => Fragment.ofCast_makes
  | function name args => exact Run.making_keeps (Fragment.ofFunction_keeps name args)
  | group c conditions => exact .pure fun _ => .group c conditions
  | filter left right operator before after =>
    refine (Run.making_keeps (Filter.make_keeps _ _ _ _ _)).bind fun c => .pure fun h => h.2
  | projection target label => exact .ofExcept fun _ _ => Fragment.ofProjection_makes
  | subSelect callback label options =>
    refine (makeSubSelect_keeps hD hi fun hP => hD.opened (hD.asked (hc hP)) rfl).mono id ?_
    rintro _ _ ⟨l, sql, bound, hl, h, rfl⟩
    exact .subSelect options hl h
  | union callbacks modifier options =>
    refine (makeUnion_keeps hD hi fun hP => hD.opened (hD.asked (hc hP)) rfl).mono id ?_
    rintro _ _ ⟨cs, members, hcs, h, rfl⟩
    exact .union modifier options hcs h
  | join family table condition label kind =>
    exact (Keeps.ofExcept fun _ _ => Join.make_makes).bind fun j => .pure fun h => h.2
  | branch condition result =>
    exact (Keeps.ofExcept fun _ _ => Branch.make_makes).bind fun b => .pure fun h => h.2
  | fallback result => exact .ofExcept fun _ _ => Fragment.ofFallback_makes
  | choice name branches last => exact .ofExcept fun _ _ => Fragment.ofChoice_makes
  | asColumn v => exact .ofExcept fun _ _ h => .asColumn (Value.names_of_asColumn h)
  | ownSubSelect callback label =>
    refine (Run.builder_keeps self).bind fun b => ?_
    refine (makeSubSelect_keeps hD hi fun h => hD.inherited h.2).mono id ?_
    rintro _ _ ⟨l, sql, bound, hl, h, rfl⟩
    exact .ownSubSelect hl h
  | ownUnion callbacks modifier =>
    refine (Run.builder_keeps self).bind fun b => ?_
    refine (makeUnion_keeps hD hi fun h => hD.inherited h.2).mono id ?_
    rintro _ _ ⟨cs, members, hcs, h, rfl⟩
    exact .ownUnion modifier hcs h

/-- What a construction ends with is good. -/
theorem Construction.run_keeps {self : Nat} {origin : Origin} {c : Construction}
    (hargs : P → ∀ v ∈ c.arguments, v.Every D.good) :
    Keeps last D.Holds P (c.run invoke self origin) fun v => v.Every D.good := by
  refine (Run.note_keeps (e := .construction c) fun _ => trivial).bind fun _ => ?_
  have made : Keeps last D.Holds (P ∧ Event.construction c ∈ last.history)
      (do
        let f ← c.make invoke self
        Run.note (.fragment f)
        return Value.fragment f origin) fun v => v.Every D.good := by
    refine (Construction.make_keeps hD hi And.right).bind fun f => ?_
    have hgood : (P ∧ Event.construction c ∈ last.history) ∧
        c.Makes last.supply.Issued (D.Answered last) f → D.good f :=
      fun h => hD.made (hD.asked h.1.2) (hargs h.1.1) h.2
    refine (Run.note_keeps hgood).bind fun _ => .pure fun h => ?_
    exact Value.every_fragment.mpr (hgood h.1)
  cases c with
  | asColumn v =>
    cases v with
    | fragment f known => exact .pure fun h => hargs h.1 _ List.mem_cons_self
    | _ => exact made
  | _ => exact made

/-! ## Commands -/

omit hi in
/-- What a command puts into a builder is good. -/
theorem Discipline.Lawful.good_of_supplies {self : Nat} {k : Command} {b : Builder}
    (hk : .command self k ∈ last.history) (hargs : ∀ v ∈ k.arguments, v.Every D.good)
    (hb : D.Fine b) {f : Fragment}
    (h : k.Supplies last.supply.Issued (D.Answered last) b f) : D.good f := by
  cases h with
  | argument hv hf => exact hargs _ hv f hf
  | @carried c _ hc hf =>
    refine hD.made (hD.carried hk hb hc) (fun v hv => ?_) hf
    rcases hc.arguments v hv with hv | ⟨s, rfl⟩ | rfl | rfl
    · exact hargs v hv
    · exact Value.every_str s
    · exact Value.every_null
    · exact Value.every_fragment.mpr hD.null

omit hi in
/-- A command leaves its builder fine. -/
theorem Discipline.Lawful.fine_of_changes {self : Nat} {k : Command} {b b' : Builder}
    (hk : .command self k ∈ last.history) (hargs : ∀ v ∈ k.arguments, v.Every D.good)
    (hb : D.Fine b) (h : k.Changes last.supply.Issued (D.Answered last) b b') : D.Fine b' := by
  refine ⟨hD.changed hk hb h, fun g hg => ?_⟩
  rcases h.mem_children hg with hg | hg
  · exact hb.children g hg
  · exact hD.good_of_supplies hk hargs hb hg

theorem Command.run_keeps {self : Nat} {k : Command}
    (hk : P → .command self k ∈ last.history) (hargs : P → ∀ v ∈ k.arguments, v.Every D.good) :
    Keeps last D.Holds P (k.run invoke self) fun _ => True := by
  by_cases hn : k.nests = true
  · cases k with
    | subSelect callback label =>
      exact (Construction.run_keeps hD hi hargs).bind fun _ => .pure fun _ => trivial
    | union callbacks modifier =>
      exact (Construction.run_keeps hD hi hargs).bind fun _ => .pure fun _ => trivial
    | _ => cases hn
  · intro s
    have hn : k.nests = false := by simpa using hn
    change s ≤ ((k.run invoke self).exec s).2 ∧ (P → ((k.run invoke self).exec s).2 ≤ last →
      D.Holds s → D.Holds ((k.run invoke self).exec s).2 ∧ _)
    constructor
    · obtain ⟨hgrow, b, -, heq⟩ := run_changed hn (fun _ _ _ => True)
        (le_refl ((k.run invoke self).exec s).2.supply)
      refine ⟨hgrow, ?_⟩
      rw [heq]
      exact List.prefix_refl _
    · intro hP hlast hI
      obtain ⟨-, b, hb, heq⟩ := run_changed hn (D.Answered last) hlast.1
      have hset := hI.setBuilder (i := self)
        (hD.fine_of_changes (hk hP) (hargs hP) (hI.builders self) hb)
      rw [heq]
      exact ⟨⟨hset.builders, hset.named, hset.history⟩, fun _ _ => trivial⟩

/-! ## Expressions -/

-- The linter does not look through the mutual recursion.
set_option linter.unusedSectionVars false in
mutual

/-- The value of an expression holds good fragments only. -/
theorem Expr.eval_keeps {P : Prop} (self : Nat) (origin : Origin) : (e : Expr) →
    Keeps last D.Holds P (e.eval invoke self origin) fun v => v.Every D.good
  | .atom a => .pure fun _ => Value.every_atom a origin
  | .list items =>
    (Expr.evalAll_keeps self origin 0 items).bind fun _ => .pure fun h => Value.every_list.mpr h.2
  | .tuple items =>
    (Expr.evalAll_keeps self origin 0 items).bind fun _ => .pure fun h => Value.every_tuple.mpr h.2
  | .dict items =>
    (Expr.evalEntries_keeps self origin 0 [] (by simp) items).bind fun _ => .pure fun h => h.2
  | .options data =>
    (data.eval_keeps self (0 :: origin)).bind fun _ =>
      (Keeps.ofExcept (Q := fun _ => True) fun _ _ _ => trivial).bind fun o =>
        .pure fun _ => Value.every_options o
  | .ref name => Run.named_keeps name
  | .callback c => .pure fun _ => Value.every_callback c origin
  | .call c args named => by
    refine (Expr.evalAll_keeps self (0 :: origin) 0 args).bind fun vs => ?_
    refine (Expr.evalNamed_keeps self (1 :: origin) 0 named).bind fun es => ?_
    cases hc : c.construction? ⟨vs, es⟩ with
    | none => exact .throw _
    | some k =>
      refine Construction.run_keeps hD hi fun h => ?_
      exact (c.reads_arguments Value.every_null Value.every_str
        fun _ => Value.every_tuple.mpr).read? ⟨h.1.2, h.2⟩ hc
termination_by structural e => e

theorem Expr.evalAll_keeps {P : Prop} (self : Nat) (origin : Origin) : (i : Nat) → (es : List Expr) →
    Keeps last D.Holds P (Expr.evalAll invoke self origin i es) fun vs => ∀ v ∈ vs, v.Every D.good
  | _, [] => .pure fun _ => by simp
  | i, e :: rest => by
    refine (e.eval_keeps self (i :: origin)).bind fun v => ?_
    refine (Expr.evalAll_keeps self origin (i + 1) rest).bind fun vs => .pure fun h => ?_
    exact List.forall_mem_cons.mpr ⟨h.1.2, h.2⟩
termination_by structural _ es => es

theorem Expr.evalNamed_keeps {P : Prop} (self : Nat) (origin : Origin) :
    (i : Nat) → (es : List (String × Expr)) →
    Keeps last D.Holds P (Expr.evalNamed invoke self origin i es)
      fun vs => ∀ v ∈ vs, v.2.Every D.good
  | _, [] => .pure fun _ => by simp
  | i, e :: rest => by
    refine (Expr.evalNamedOne_keeps self (i :: origin) e).bind fun v => ?_
    refine (Expr.evalNamed_keeps self origin (i + 1) rest).bind fun vs => .pure fun h => ?_
    exact List.forall_mem_cons.mpr ⟨h.1.2, h.2⟩
termination_by structural _ es => es

theorem Expr.evalNamedOne_keeps {P : Prop} (self : Nat) (origin : Origin) : (e : String × Expr) →
    Keeps last D.Holds P (Expr.evalNamedOne invoke self origin e) fun v => v.2.Every D.good
  | (_, e) => (e.eval_keeps self origin).bind fun _ => .pure fun h => h.2
termination_by structural e => e

theorem Expr.evalEntries_keeps {P : Prop} (self : Nat) (origin : Origin) :
    (i : Nat) → (acc : Bindings) → (P → (Value.dict acc).Every D.good) →
    (es : List (Expr × Expr)) →
    Keeps last D.Holds P (Expr.evalEntries invoke self origin i acc es)
      fun b => (Value.dict b).Every D.good
  | _, _, hacc, [] => .pure hacc
  | i, acc, hacc, e :: rest => by
    refine (Expr.evalEntry_keeps self (i :: origin) e).bind fun (k, v) => ?_
    dsimp only
    split
    · exact Expr.evalEntries_keeps self origin (i + 1) _
        (fun h => Value.every_insert h.2.1 h.2.2 (hacc h.1)) rest
    · exact .throw _
termination_by structural _ _ _ es => es

theorem Expr.evalEntry_keeps {P : Prop} (self : Nat) (origin : Origin) : (e : Expr × Expr) →
    Keeps last D.Holds P (Expr.evalEntry invoke self origin e)
      fun kv => kv.1.Every D.good ∧ kv.2.Every D.good
  | (k, v) => (k.eval_keeps self (0 :: origin)).bind fun _ =>
    (v.eval_keeps self (1 :: origin)).bind fun _ => .pure fun h => ⟨h.1.2, h.2⟩
termination_by structural e => e

end

theorem Expr.begin_keeps (self : Nat) (e : Expr) :
    Keeps last D.Holds P (e.begin invoke self) fun v => v.Every D.good :=
  Run.origin_keeps.bind fun origin => Expr.eval_keeps hD hi self origin e

/-! ## Steps and callbacks -/

theorem Step.run_keeps (self : Nat) (t : Step) :
    Keeps last D.Holds P (t.run invoke self) fun _ => True := by
  cases t with
  | call m args named =>
    refine (Keeps.mapM_all args fun e _ => e.begin_keeps hD hi self).bind fun vs => ?_
    refine (Keeps.mapM_all (Q := fun v => v.2.Every D.good) named fun e _ => ?_).bind fun es => ?_
    · exact (e.2.begin_keeps hD hi self).bind fun v => .pure And.right
    cases hk : m.command? ⟨vs, es⟩ with
    | none => exact .throw _
    | some k =>
      have hargs : (P ∧ ∀ v ∈ vs, v.Every D.good) ∧ (∀ v ∈ es, v.2.Every D.good) →
          ∀ v ∈ k.arguments, v.Every D.good := fun h =>
        (m.reads_arguments Value.every_null Value.every_str).read? ⟨h.1.2, h.2⟩ hk
      refine (Run.note_keeps (e := .command self k) hargs).bind fun _ => ?_
      exact Command.run_keeps hD hi And.right fun h => hargs h.1
  | bind name e =>
    exact (e.begin_keeps hD hi self).bind fun v =>
      (Run.bindName_keeps And.right).bind fun _ => .pure fun _ => trivial

theorem Step.runAll_keeps (self : Nat) (r : Reply) (steps : List Step) :
    Keeps last D.Holds P (Step.runAll invoke self r steps) fun _ => True := by
  induction steps generalizing r with
  | nil => exact .pure fun _ => trivial
  | cons t rest ih =>
    exact (t.run_keeps hD hi self).bind fun r => (ih r).mono And.left fun _ _ => id

theorem Callback.runWith_keeps (c : Callback) (self : Nat) :
    Keeps last D.Holds P (c.runWith invoke self) fun _ => True := by
  obtain ⟨steps, answer, capture⟩ := c
  have body : ∀ {P : Prop}, Keeps last D.Holds P
      (Callback.runWith invoke ⟨steps, answer, none⟩ self) fun _ => True := by
    intro P
    refine (Step.runAll_keeps hD hi self _ _).bind fun r => ?_
    cases answer with
    | none => exact .pure fun _ => trivial
    | some e => exact (e.begin_keeps hD hi self).bind fun v => .pure fun _ => trivial
  cases capture with
  | none => exact body
  | some name => exact (Run.capture_keeps name self).bind fun _ => body

end Scripts

/-! ## The answer of a callback that ends with its own statement -/

section Select

variable {invoke : Invoke} {self : Nat}

/-- The statement that a command renders is that of the builder as it is afterwards. -/
theorem runSelect_selectText {added : List Value} {s s' : Session} {sql : String}
    (h : (runSelect self added).exec s = (.ok sql, s')) : (s'.builder self).selectText = .ok sql := by
  rw [exec_runSelect] at h
  dsimp only at h
  split at h
  · cases h
  · cases h
  · rename_i hsql
    cases h
    rw [Session.builder_addRecord]
    exact hsql

theorem Step.run_select {args : List Expr} {named : List (String × Expr)} {s s' : Session}
    {r : Reply} (h : ((Step.call .select args named).run invoke self).exec s = (.ok r, s')) :
    ∃ sql, r = .value (.str sql) ∧ (s'.builder self).selectText = .ok sql := by
  obtain ⟨vs, s₁, -, h⟩ := Run.exec_bind_eq_ok h
  obtain ⟨es, s₂, -, h⟩ := Run.exec_bind_eq_ok h
  cases hk : Method.select.command? ⟨vs, es⟩ with
  | none =>
    rw [hk] at h
    cases h
  | some k =>
    rw [hk] at h
    have hreads : ArgumentReader.Reads (fun _ => True) Method.select.reader
        fun k => ∃ added, k = .select added := .bind .rest fun vs _ => .pure ⟨vs, rfl⟩
    obtain ⟨added, rfl⟩ := hreads.read? ⟨by simp, by simp⟩ hk
    obtain ⟨_, s₃, -, h⟩ := Run.exec_bind_eq_ok h
    obtain ⟨sql, s₄, hsql, h⟩ := Run.exec_bind_eq_ok h
    cases h
    exact ⟨sql, rfl, runSelect_selectText hsql⟩

theorem Step.runAll_select {steps : List Step} {args : List Expr} {named : List (String × Expr)}
    (hlast : steps.getLast? = some (.call .select args named)) {r : Reply} {s s' : Session}
    {answer : Reply} (h : (Step.runAll invoke self r steps).exec s = (.ok answer, s')) :
    ∃ sql, answer = .value (.str sql) ∧ (s'.builder self).selectText = .ok sql := by
  induction steps generalizing r s with
  | nil => cases hlast
  | cons t rest ih =>
    obtain ⟨r', s₁, ht, h⟩ := Run.exec_bind_eq_ok h
    cases rest with
    | nil =>
      cases h
      rw [List.getLast?_singleton, Option.some.injEq] at hlast
      exact Step.run_select (hlast ▸ ht)
    | cons t' rest => exact ih (by rwa [List.getLast?_cons_cons] at hlast) h

theorem Callback.runWith_select {c : Callback} (hc : c.endsInSelect = true) {s s' : Session}
    {r : Reply} (h : (c.runWith invoke self).exec s = (.ok r, s')) :
    ∃ sql, r = .value (.str sql) ∧ (s'.builder self).selectText = .ok sql := by
  obtain ⟨steps, answer, capture⟩ := c
  simp only [Callback.endsInSelect, Bool.and_eq_true, Option.isNone_iff_eq_none] at hc
  obtain ⟨rfl, hlast⟩ := hc
  split at hlast
  · rename_i args named hsteps
    have body : ∀ {s : Session},
        (Callback.runWith invoke ⟨steps, none, none⟩ self).exec s = (.ok r, s') →
        ∃ sql, r = .value (.str sql) ∧ (s'.builder self).selectText = .ok sql := by
      intro s h
      obtain ⟨r', s₁, hall, h⟩ := Run.exec_bind_eq_ok h
      cases h
      exact Step.runAll_select hsteps hall
    cases capture with
    | none => exact body h
    | some name =>
      obtain ⟨_, _, -, h⟩ := Run.exec_bind_eq_ok h
      exact body h
  · cases hlast

end Select

/-- Callbacks keep the promise, however deeply they are nested. -/
theorem Callback.run_sound {D : Discipline} {last : Session} (hD : D.Lawful last) (depth : Nat) :
    (Callback.run depth).Sound D last := by
  induction depth with
  | zero => exact ⟨fun c i => .throw _, fun c i s sql s' _ h => by cases h⟩
  | succ depth ih =>
    refine ⟨fun c i => c.runWith_keeps hD ih i, fun c i s sql s' hc h => ?_⟩
    obtain ⟨t, ht, hsql⟩ := Callback.runWith_select hc h
    cases ht
    exact hsql

/-! ## Dialogues -/

section Dialogues

variable {D : Discipline} {last : Session} (hD : D.Lawful last)

include hD

theorem Turn.takeWithin_keeps (depth : Nat) (t : Turn) (s : Session) :
    s ≤ (t.takeWithin depth s).2 ∧
      ((t.takeWithin depth s).2 ≤ last → D.Holds s → D.Holds (t.takeWithin depth s).2) := by
  unfold Turn.takeWithin
  cases s.target t.target with
  | error fault => exact ⟨le_refl s, fun _ hI => hI⟩
  | ok i =>
    -- The log is set aside during the step, and nothing that is promised depends on it.
    obtain ⟨hgrow, hkeep⟩ := t.step.run_keeps hD (Callback.run_sound hD depth) (P := True) i
      { s with log := [] }
    refine ⟨hgrow, fun hlast hI => ?_⟩
    obtain ⟨h, -⟩ := hkeep trivial hlast ⟨hI.builders, hI.named, hI.history⟩
    exact ⟨h.builders, h.named, h.history⟩

theorem Turn.takeAllWithin_keeps (depth : Nat) (turns : List Turn) (s : Session) :
    s ≤ (Turn.takeAllWithin depth turns s).2 ∧
      ((Turn.takeAllWithin depth turns s).2 ≤ last → D.Holds s →
        D.Holds (Turn.takeAllWithin depth turns s).2) := by
  induction turns generalizing s with
  | nil => exact ⟨le_refl s, fun _ hI => hI⟩
  | cons t rest ih =>
    obtain ⟨hgrow, hkeep⟩ := Turn.takeWithin_keeps hD depth t s
    obtain ⟨hgrow', hkeep'⟩ := ih (t.takeWithin depth s).2
    refine ⟨le_trans hgrow hgrow', fun hlast hI => hkeep' hlast ?_⟩
    exact hkeep (le_trans hgrow' hlast) hI

end Dialogues

/-- The builders of a session: those at hand now, and those of nested statements as they were when
the callback answered. -/
inductive Session.HasBuilder (s : Session) : Builder → Prop where
  | now (i : Nat) : HasBuilder s (s.builder i)
  | nested {b : Builder} {sql : String} (h : .nested b sql ∈ s.history) : HasBuilder s b

theorem Discipline.Holds.fine {D : Discipline} {s : Session} (h : D.Holds s) {b : Builder}
    (hb : s.HasBuilder b) : D.Fine b := by
  cases hb with
  | now i => exact h.builders i
  | nested hb => exact h.history _ hb

/-- A session at the end of some dialogue, with a root builder that has the given options. -/
def Session.ReachedFrom (options : Value) (s : Session) : Prop :=
  ∃ stream threshold depth turns,
    (Turn.takeAllWithin depth turns (.start stream threshold options)).2 = s

/-- **What a discipline promises holds of all fragments and builders of a dialogue.** -/
theorem Discipline.Lawful.holds {D : Discipline} {options : Value} {s : Session}
    (hD : D.Lawful s) (hs : s.ReachedFrom options) (ho : D.proper (.empty options)) :
    D.Holds s := by
  obtain ⟨stream, threshold, depth, turns, rfl⟩ := hs
  refine (Turn.takeAllWithin_keeps hD depth turns _).2 (le_refl _) ⟨fun i => ?_, ?_, ?_⟩
  · cases i with
    | zero => exact fine_empty ho
    | succ i => exact fine_empty hD.fresh
  · exact fun e he => by cases he
  · exact fun e he => by cases he

/-- The promise of nothing. -/
def Discipline.void : Discipline := ⟨fun _ => True, fun _ => True, fun _ => True⟩

theorem Discipline.void_lawful (last : Session) : Discipline.void.Lawful last :=
  ⟨trivial, fun _ => trivial, fun _ _ _ => trivial, fun _ _ _ => trivial, trivial,
    fun _ _ => trivial, fun _ => trivial, fun _ _ _ => trivial⟩

theorem Discipline.void_fine (b : Builder) : Discipline.void.Fine b :=
  ⟨trivial, fun _ _ => trivial⟩

theorem Discipline.void_holds (s : Session) : Discipline.void.Holds s := by
  refine ⟨fun i => void_fine _, fun _ _ _ _ => trivial, fun e _ => ?_⟩
  cases e with
  | construction | fragment => trivial
  | command => exact fun _ _ _ _ => trivial
  | nested => exact void_fine _

end BoundSql
