import BoundSql.Proofs.Nesting
import BoundSql.Proofs.NonInterference

/-!
# Looking at a builder is not noticed

Some calls only render a builder or tell what it binds. Such a call is a step like any other, is
entered into the history and may be recorded, and rendering may fail; yet whoever makes one between
the steps of a script, and does not care for the answer, leaves the script to run as before.

A `Watcher` says which looks are taken, at which builders, and when: it is asked before every turn,
before every step and before every answer, also inside of callbacks, and may decide by all that has
happened so far. The run of a script under a watcher is the run of the script, with these looks and
without their answers or faults (`Callback.runWatched`). What the two runs have in common is said by
`Session.Unnoticed`: all but the log and the history is equal, and there nothing is missing or
changed, but looks and their records have come in between.

Most of the argument is that actions neither read the log nor the history, which `Run.Hosted` says
already: a session may be taken out of both and be put back.
-/

set_option autoImplicit false

namespace BoundSql

/-! ## Lists with something in between -/

/-- The second list is the first one with items that satisfy `P` in between. -/
inductive Interspersed {α : Type} (P : α → Prop) : List α → List α → Prop where
  | nil : Interspersed P [] []
  | keep (x : α) {xs ys : List α} (h : Interspersed P xs ys) : Interspersed P (x :: xs) (x :: ys)
  | extra {x : α} (hx : P x) {xs ys : List α} (h : Interspersed P xs ys) :
      Interspersed P xs (x :: ys)

namespace Interspersed

variable {α β : Type} {P : α → Prop} {xs ys xs' ys' zs : List α}

theorem refl (xs : List α) : Interspersed P xs xs := by
  induction xs with
  | nil => exact .nil
  | cons x xs ih => exact .keep x ih

theorem append (h : Interspersed P xs ys) (h' : Interspersed P xs' ys') :
    Interspersed P (xs ++ xs') (ys ++ ys') := by
  induction h with
  | nil => exact h'
  | keep x _ ih => exact .keep x ih
  | extra hx _ ih => exact .extra hx ih

theorem of_forall (h : ∀ z ∈ zs, P z) : Interspersed P [] zs := by
  induction zs with
  | nil => exact .nil
  | cons z zs ih =>
    obtain ⟨hz, hzs⟩ := List.forall_mem_cons.mp h
    exact .extra hz (ih hzs)

theorem append_extra (h : Interspersed P xs ys) (hz : ∀ z ∈ zs, P z) :
    Interspersed P xs (ys ++ zs) := by
  have happend := h.append (of_forall hz)
  rwa [List.append_nil] at happend

/-- What does not count the items in between finds the same in both lists. -/
theorem filterMap_eq {f : α → Option β} (h : Interspersed P xs ys) (hf : ∀ x, P x → f x = none) :
    ys.filterMap f = xs.filterMap f := by
  induction h with
  | nil => rfl
  | keep x _ ih => rw [List.filterMap_cons, List.filterMap_cons, ih]
  | extra hx _ ih => rw [List.filterMap_cons_none (hf _ hx), ih]

end Interspersed

/-! ## Looks -/

/-- A call that only renders a builder or tells what it binds. -/
inductive Look where
  | select
  | compileSelect
  | delete
  | compileDelete
  | bindings

/-- A record that rendering leaves. -/
def Record.OfRendering (r : Record) : Prop :=
  r = .refusedDelete ∨ ∃ statement bound, r = .rendered statement bound

namespace Look

/-- The look as a command. -/
def command : Look → Command
  | .select => .select []
  | .compileSelect => .compileSelect []
  | .delete => .delete
  | .compileDelete => .compileDelete
  | .bindings => .bindings

/-- The look as a step of a script. -/
def step : Look → Step
  | .select => .call .select [] []
  | .compileSelect => .call .compileSelect [] []
  | .delete => .call .delete [] []
  | .compileDelete => .call .compileDelete [] []
  | .bindings => .call .bindings [] []

/-- What a look at a builder brings. -/
def answer : Look → Builder → Except Fault Reply
  | .select, b => b.selectText.map fun sql => .value (.str sql)
  | .compileSelect, b => b.selectText.map fun sql => .value (.compiled sql b.bindings)
  | .delete, b => b.deleteText.map fun sql => .value (.str sql)
  | .compileDelete, b => b.deleteText.map fun sql => .value (.compiled sql b.bindings)
  | .bindings, b => .ok (.value (.dict b.bindings))

end Look

/-- The history has a look at the builder at a place. -/
def Event.IsLook (e : Event) : Prop := ∃ place look, e = .command place (Look.command look)

/-- Two sessions differ by records of renderings. -/
def Session.Recorded (s t : Session) : Prop :=
  ∃ records : List Record, (∀ r ∈ records, r.OfRendering) ∧
    t = { s with log := s.log ++ records }

namespace Session

variable {s t u : Session}

theorem Recorded.refl (s : Session) : s.Recorded s := ⟨[], by simp, by simp⟩

theorem Recorded.trans (h : s.Recorded t) (h' : t.Recorded u) : s.Recorded u := by
  obtain ⟨rs, hrs, rfl⟩ := h
  obtain ⟨rs', hrs', rfl⟩ := h'
  exact ⟨rs ++ rs', List.forall_mem_append.mpr ⟨hrs, hrs'⟩, by simp⟩

theorem Recorded.addRecord {r : Record} (hr : r.OfRendering) (s : Session) :
    s.Recorded (s.addRecord r) := by
  unfold Session.addRecord
  split
  · exact ⟨[r], by simpa using hr, rfl⟩
  · exact .refl s

end Session

namespace Run

variable {α β : Type} {place : Nat} {m : Run α} {f : Builder → Except Fault α}

/-- The action tells something of the builder at a place, and leaves nothing but records. -/
def Tells (place : Nat) (m : Run α) (f : Builder → Except Fault α) : Prop :=
  ∀ s, (m.exec s).1 = f (s.builder place) ∧ s.Recorded (m.exec s).2

theorem Tells.map (h : Tells place m f) (g : α → β) :
    Tells place (do return g (← m)) fun b => (f b).map g := by
  intro s
  obtain ⟨hr, hs⟩ := h s
  dsimp only
  rw [exec_bind, ← hr]
  rcases hm : m.exec s with ⟨fault | x, t⟩ <;> rw [hm] at hs <;> exact ⟨rfl, hs⟩

/-- The builder may be looked at once more. -/
theorem Tells.map_builder (h : Tells place m f) (g : α → Builder → β) :
    Tells place (do
      let x ← m
      return g x (← Run.builder place)) fun b => (f b).map fun x => g x b := by
  intro s
  obtain ⟨hr, hs⟩ := h s
  dsimp only
  rw [exec_bind, ← hr]
  rcases hm : m.exec s with ⟨fault | x, t⟩ <;> rw [hm] at hs
  · exact ⟨rfl, hs⟩
  · refine ⟨?_, hs⟩
    obtain ⟨records, -, rfl⟩ := hs
    rfl

end Run

theorem runSelect_tells (place : Nat) : (runSelect place []).Tells place Builder.selectText := by
  intro s
  rw [exec_runSelect]
  simp only [Builder.addFields_nil, Session.setBuilder_builder]
  cases (s.builder place).selectText with
  | error fault => exact ⟨rfl, .refl s⟩
  | ok sql => exact ⟨rfl, .addRecord (.inr ⟨_, _, rfl⟩) s⟩

theorem runDelete_tells (place : Nat) : (runDelete place).Tells place Builder.deleteText := by
  intro s
  have refusal : s.Recorded
      (if (s.builder place).filters.isEmpty then s.addRecord .refusedDelete else s) := by
    split
    · exact .addRecord (.inl rfl) s
    · exact .refl s
  rw [exec_runDelete]
  dsimp only
  cases (s.builder place).deleteText with
  | error fault => exact ⟨rfl, refusal⟩
  | ok sql => exact ⟨rfl, refusal.trans (.addRecord (.inr ⟨_, _, rfl⟩) _)⟩

/-- **A look tells what the builder is, and leaves nothing but records.** -/
theorem Look.run_tells (look : Look) (invoke : Invoke) (place : Nat) :
    (look.command.run invoke place).Tells place look.answer := by
  cases look with
  | select => exact (runSelect_tells place).map _
  | compileSelect => exact (runSelect_tells place).map_builder _
  | delete => exact (runDelete_tells place).map _
  | compileDelete => exact (runDelete_tells place).map_builder _
  | bindings => exact fun s => ⟨rfl, .refl s⟩

/-- A look as a step of a script is the command that it is. -/
theorem Look.exec_step (look : Look) (invoke : Invoke) (place : Nat) (s : Session) :
    (look.step.run invoke place).exec s = (look.command.runNoted invoke place).exec s := by
  cases look <;> rfl

theorem Look.answer_step (look : Look) (invoke : Invoke) (place : Nat) (s : Session) :
    ((look.step.run invoke place).exec s).1 = look.answer (s.builder place) := by
  rw [look.exec_step]
  exact (look.run_tells invoke place
    { s with history := s.history ++ [.command place look.command] }).1

/-! ## Sessions that were looked at -/

namespace Session

/-- The session after a look at the builder at a place, whatever comes of it. -/
def look (s : Session) (taken : Nat × Look) : Session :=
  ((taken.2.step.run (Callback.run 0) taken.1).exec s).2

/-- The second session is the first one, but for looks that were taken meanwhile. -/
structure Unnoticed (s t : Session) : Prop where
  same : t = { s with log := t.log, history := t.history }
  log : Interspersed Record.OfRendering s.log t.log
  history : Interspersed Event.IsLook s.history t.history

variable {s t : Session}

theorem Unnoticed.refl (s : Session) : s.Unnoticed s := ⟨rfl, .refl _, .refl _⟩

theorem Unnoticed.builder (h : s.Unnoticed t) (i : Nat) : t.builder i = s.builder i := by
  rw [h.same]
  rfl

theorem Unnoticed.fragments (h : s.Unnoticed t) : t.fragments = s.fragments := by
  refine h.history.filterMap_eq ?_
  rintro _ ⟨place, look, rfl⟩
  rfl

/-- **A look is not noticed.** -/
theorem Unnoticed.look (h : s.Unnoticed t) (taken : Nat × Look) : s.Unnoticed (t.look taken) := by
  obtain ⟨place, look⟩ := taken
  have hlook : t.look (place, look) = ((look.command.run (Callback.run 0) place).exec
      { t with history := t.history ++ [.command place look.command] }).2 :=
    congrArg Prod.snd (look.exec_step (Callback.run 0) place t)
  obtain ⟨-, records, hrecords, ht⟩ := look.run_tells (Callback.run 0) place
    { t with history := t.history ++ [.command place look.command] }
  rw [hlook, ht]
  refine ⟨?_, h.log.append_extra hrecords, h.history.append_extra ?_⟩
  · conv_lhs => rw [h.same]
  · exact fun e he => ⟨place, look, List.mem_singleton.mp he⟩

theorem Unnoticed.looks (h : s.Unnoticed t) (taken : List (Nat × Look)) :
    s.Unnoticed (taken.foldl Session.look t) := by
  induction taken generalizing t with
  | nil => exact h
  | cons first rest ih => exact ih (h.look first)

end Session

/-! ## Watched runs -/

/-- Which looks are taken, at which builders: asked with the place of the builder at hand, the steps
that are still to be run on it, and the session. -/
abbrev Watcher : Type := Nat → List Step → Session → List (Nat × Look)

/-- Takes the looks that the watcher wants now. -/
def Watcher.watch (w : Watcher) (self : Nat) (steps : List Step) : Run Unit :=
  ExceptT.mk fun s => (.ok (), (w self steps s).foldl Session.look s)

/-- Runs steps in order under a watcher. -/
def Step.runAllWatched (w : Watcher) (invoke : Invoke) (self : Nat) :
    (last : Reply) → List Step → Run Reply
  | last, [] => do
      w.watch self []
      return last
  | _, step :: rest => do
      w.watch self (step :: rest)
      Step.runAllWatched w invoke self (← step.run invoke self) rest

/-- Runs a callback under a watcher, given a way of running the callbacks inside. -/
def Callback.runWithWatched (w : Watcher) (invoke : Invoke) (c : Callback) (self : Nat) :
    Run Reply := do
  if let some name := c.capture then Run.capture name self
  let last ← Step.runAllWatched w invoke self (.value .null) c.steps
  match c.answer with
  | none => return last
  | some e => return .value (← e.begin invoke self)

/-- Runs a callback under a watcher, and so all callbacks inside. -/
def Callback.runWatched (w : Watcher) : (depth : Nat) → Invoke
  | 0 => fun _ _ => throw .nestedTooDeep
  | depth + 1 => Callback.runWithWatched w (Callback.runWatched w depth)

/-- Takes one turn under a watcher. -/
def Turn.takeWatched (w : Watcher) (depth : Nat) (t : Turn) (s : Session) : Report × Session :=
  let s := (w Session.root [t.step] s).foldl Session.look s
  match s.target t.target with
  | .error fault =>
      let b := s.builder Session.root
      (⟨.error fault, [], b.selectText, b.bindings⟩, s)
  | .ok i =>
      let (outcome, log, s) := s.withLog (t.step.run (Callback.runWatched w depth) i)
      let b := s.builder i
      (⟨outcome, log, b.selectText, b.bindings⟩, s)

/-- Takes turns in order under a watcher. -/
def Turn.takeAllWatched (w : Watcher) (depth : Nat) :
    List Turn → Session → List Report × Session
  | [], s => ([], s)
  | t :: rest, s =>
      let (report, s) := t.takeWatched w depth s
      let (reports, s) := takeAllWatched w depth rest s
      (report :: reports, s)

/-! ## Actions that do not notice -/

/-- Two actions do the same, in sessions that are the same but for looks. -/
def Run.Undisturbed {α : Type} (m m' : Run α) : Prop :=
  Action.Agree Session.Unnoticed m m' Eq

namespace Session

/-- The builders of a session and what they are made with, as a session of its own. -/
def bare (s : Session) : Session := { s with captured := [], log := [], history := [] }

/-- The rest of a session. -/
def past (s : Session) : Session := { s with builders := [] }

theorem hosts_bare (s : Session) : s.past.Hosts s.bare s := by
  refine ⟨?_, List.nodup_nil⟩
  simp [host, past, bare]

/-- What is hosted by sessions that are the same but for looks is so. -/
theorem Unnoticed.host {s t u : Session} (h : s.Unnoticed t) :
    (s.past.host u).Unnoticed (t.past.host u) := by
  refine ⟨?_, h.log.append (.refl _), h.history.append (.refl _)⟩
  unfold Session.host past
  rw [h.same]

end Session

namespace Run.Undisturbed

variable {α β : Type}

/-- **An action that does the same beside others reads neither the log nor the history.** -/
theorem of_hosted {m : Run α} (h : ∀ s : Session, s.builders = [] → Run.Hosted s m m) :
    Undisturbed m m := by
  intro s t hst
  have hbare : t.bare = s.bare := by
    rw [hst.same]
    rfl
  obtain ⟨hr, hs, -⟩ := h s.past rfl s.bare s s.hosts_bare
  obtain ⟨hr', ht, -⟩ := h t.past rfl s.bare t (hbare ▸ t.hosts_bare)
  rw [hs, ht]
  exact ⟨.of_eq (hr.eq.symm.trans hr'.eq), hst.host⟩

theorem pure (x : α) : Undisturbed (Pure.pure x) (Pure.pure x) := Action.Agree.pure rfl

theorem throw (fault : Fault) :
    Undisturbed (MonadExcept.throw fault : Run α) (MonadExcept.throw fault) :=
  Action.Agree.throw fault

theorem ofExcept (r : Except Fault α) : Undisturbed (Run.ofExcept r) (Run.ofExcept r) :=
  Action.Agree.ofExcept (.of_eq rfl)

theorem making (m : Making α) : Undisturbed (Run.making m) (Run.making m) :=
  of_hosted fun _ _ => .making m

theorem named (name : String) : Undisturbed (Run.named name) (Run.named name) :=
  of_hosted fun _ _ => .named name

theorem bindName (name : String) (v : Value) :
    Undisturbed (Run.bindName name v) (Run.bindName name v) :=
  of_hosted fun _ _ => .bindName name v

theorem origin : Undisturbed Run.origin Run.origin := of_hosted fun _ _ => .origin

theorem builder (i : Nat) : Undisturbed (Run.builder i) (Run.builder i) :=
  of_hosted fun s hs => by simpa [hs] using Run.Hosted.builder (s := s) i

theorem capture (name : String) (i : Nat) : Undisturbed (Run.capture name i) (Run.capture name i) :=
  of_hosted fun s hs => by simpa [hs] using Run.Hosted.capture (s := s) name i

theorem note (e : Event) : Undisturbed (Run.note e) (Run.note e) := by
  refine of_hosted fun s hs => ?_
  have shift : e.shift s.builders.length = e := by
    rw [hs]
    cases e <;> simp [Event.shift]
  simpa [shift] using Run.Hosted.note (s := s) e

theorem newBuilder (options : Value) :
    Undisturbed (Run.newBuilder options) (Run.newBuilder options) := by
  intro s t h
  have hbuilders : t.builders = s.builders := by rw [h.same]
  refine ⟨.of_eq (congrArg (fun bs => Except.ok (List.length bs)) hbuilders.symm), ?_, h.log,
    h.history⟩
  change ({ t with builders := t.builders ++ [.empty options] } : Session) = _
  conv_lhs => rw [hbuilders, h.same]
  rfl

theorem bind {m m' : Run α} {f f' : α → Run β} (hm : Undisturbed m m')
    (hf : ∀ x, Undisturbed (f x) (f' x)) : Undisturbed (m >>= f) (m' >>= f') :=
  Action.Agree.bind hm fun x _ h => h ▸ hf x

/-- What scripts consist of is undisturbed. -/
theorem congruence : Run.Congruence Undisturbed where
  pure := .pure
  throw := .throw
  ofExcept := .ofExcept
  origin := .origin
  named := .named
  bindName := .bindName
  bind := .bind

/-- The watcher takes looks in the second session only. -/
theorem watch {m m' : Run α} (h : Undisturbed m m') (w : Watcher) (self : Nat)
    (steps : List Step) : Undisturbed m (w.watch self steps >>= fun _ => m') :=
  fun s _ hst => h s _ (hst.looks _)

end Run.Undisturbed

/-- Callbacks that are run in two ways do the same. -/
def Invoke.Undisturbed (invoke invoke' : Invoke) : Prop :=
  ∀ c i, Run.Undisturbed (invoke c i) (invoke' c i)

section Scripts

variable {invoke invoke' : Invoke} {self : Nat}

/-- A command that runs no callback does not depend on how callbacks are run. -/
theorem Command.run_of_not_nests {k : Command} (hk : k.nests = false) (invoke invoke' : Invoke) :
    k.run invoke self = k.run invoke' self := by
  cases k <;> first | rfl | cases hk

theorem Command.run_undisturbed_of_not_nests {k : Command} (hk : k.nests = false) :
    Run.Undisturbed (k.run invoke self) (k.run invoke' self) := by
  rw [k.run_of_not_nests hk invoke (Callback.run 0), k.run_of_not_nests hk invoke' (Callback.run 0)]
  refine .of_hosted fun s hs => ?_
  have hosted := k.run_hosted (Callback.run_hosted s 0) self
  rwa [hs, List.length_nil, Nat.zero_add] at hosted

variable (hi : invoke.Undisturbed invoke')
include hi

/-! ### Nested statements -/

theorem runNested_undisturbed (className : String) (options callback : Value) :
    Run.Undisturbed (runNested invoke className options callback)
      (runNested invoke' className options callback) := by
  refine (Run.Undisturbed.newBuilder _).bind fun i => ?_
  cases callback with
  | callback c origin =>
    refine (hi c i).bind fun r => ?_
    cases r with
    | builder => exact .throw _
    | value v =>
      cases v with
      | str sql =>
        exact (Run.Undisturbed.builder i).bind fun _ =>
          (Run.Undisturbed.note _).bind fun _ => .pure _
      | _ => exact .throw _
  | _ => exact .throw _

/-! ### Constructions and commands -/

theorem Invoke.Undisturbed.parts : Run.Parts Run.Undisturbed invoke invoke' self self where
  making := .making
  asked _ := .note _
  made _ := .note _
  builder := .builder self
  nested := runNested_undisturbed hi

theorem Construction.run_undisturbed (origin : Origin) (c : Construction) :
    Run.Undisturbed (c.run invoke self origin) (c.run invoke' self origin) :=
  c.run_congr Run.Undisturbed.congruence hi.parts origin

theorem Command.run_undisturbed (k : Command) :
    Run.Undisturbed (k.run invoke self) (k.run invoke' self) := by
  cases hk : k.nests with
  | false => exact k.run_undisturbed_of_not_nests hk
  | true => exact k.run_congr_of_nests Run.Undisturbed.congruence (Construction.run_undisturbed hi) hk

/-! ### Steps and callbacks -/

/-- **A step does the same under a watcher**, if its callbacks do. -/
theorem Step.run_undisturbed (t : Step) :
    Run.Undisturbed (t.run invoke self) (t.run invoke' self) :=
  t.run_congr Run.Undisturbed.congruence (Construction.run_undisturbed hi)
    fun k => (Run.Undisturbed.note _).bind fun _ => k.run_undisturbed hi

theorem Step.runAll_undisturbed (w : Watcher) (r : Reply) (steps : List Step) :
    Run.Undisturbed (Step.runAll invoke self r steps)
      (Step.runAllWatched w invoke' self r steps) := by
  induction steps generalizing r with
  | nil => exact (Run.Undisturbed.pure r).watch w self []
  | cons t rest ih => exact ((t.run_undisturbed hi).bind ih).watch w self (t :: rest)

theorem Callback.runWith_undisturbed (w : Watcher) (c : Callback) :
    Run.Undisturbed (c.runWith invoke self) (c.runWithWatched w invoke' self) := by
  obtain ⟨steps, answer, capture⟩ := c
  have body : Run.Undisturbed (Callback.runWith invoke ⟨steps, answer, none⟩ self)
      (Callback.runWithWatched w invoke' ⟨steps, answer, none⟩ self) := by
    refine (Step.runAll_undisturbed hi w _ steps).bind fun r => ?_
    cases answer with
    | none => exact .pure _
    | some e =>
      have begin : Run.Undisturbed (e.begin invoke self) (e.begin invoke' self) :=
        e.begin_congr Run.Undisturbed.congruence (Construction.run_undisturbed hi)
      exact begin.bind fun _ => .pure _
  cases capture with
  | none => exact body
  | some name => exact (Run.Undisturbed.capture name self).bind fun _ => body

end Scripts

/-- **A callback does the same under a watcher**, however deeply callbacks are nested. -/
theorem Callback.run_undisturbed (w : Watcher) (depth : Nat) :
    Invoke.Undisturbed (Callback.run depth) (Callback.runWatched w depth) := by
  induction depth with
  | zero => exact fun c i => .throw _
  | succ depth ih => exact fun c i => c.runWith_undisturbed ih w

/-! ## Dialogues -/

/-- Two turns bring the same, but for records of renderings. -/
structure Report.Unnoticed (r r' : Report) : Prop where
  outcome : r'.outcome = r.outcome
  log : Interspersed Record.OfRendering r.log r'.log
  sql : r'.sql = r.sql
  bound : r'.bound = r.bound

theorem Session.Unnoticed.withLog {m m' : Run Reply} (hm : Run.Undisturbed m m') {s s' : Session}
    (h : s.Unnoticed s') :
    (s'.withLog m').1 = (s.withLog m).1 ∧
      Interspersed Record.OfRendering (s.withLog m).2.1 (s'.withLog m').2.1 ∧
      (s.withLog m).2.2.Unnoticed (s'.withLog m').2.2 := by
  have hempty : Session.Unnoticed { s with log := [] } { s' with log := [] } := by
    refine ⟨?_, .nil, h.history⟩
    conv_lhs => rw [h.same]
  obtain ⟨hr, ht⟩ := hm _ _ hempty
  refine ⟨hr.eq.symm, ht.log, ?_, h.log.append ht.log, ht.history⟩
  change ({ (m'.exec { s' with log := [] }).2 with
    log := s'.log ++ (m'.exec { s' with log := [] }).2.log } : Session) = _
  conv_lhs => rw [show (m'.exec { s' with log := [] }).2 = _ from ht.same]
  rfl

theorem Turn.takeWithin_unnoticed (w : Watcher) (depth : Nat) (t : Turn) {s s' : Session}
    (h : s.Unnoticed s') :
    (t.takeWithin depth s).1.Unnoticed (t.takeWatched w depth s').1 ∧
      (t.takeWithin depth s).2.Unnoticed (t.takeWatched w depth s').2 := by
  have hlooks := h.looks (w Session.root [t.step] s')
  unfold Turn.takeWithin Turn.takeWatched
  dsimp only
  generalize (w Session.root [t.step] s').foldl Session.look s' = s' at hlooks
  have htarget : s'.target t.target = s.target t.target := by
    rw [hlooks.same]
    rfl
  rw [htarget]
  cases s.target t.target with
  | error fault =>
    have hb : s'.builder Session.root = s.builder Session.root := hlooks.builder _
    exact ⟨⟨rfl, .nil, congrArg Builder.selectText hb, congrArg Builder.bindings hb⟩, hlooks⟩
  | ok i =>
    have step : Run.Undisturbed (t.step.run (Callback.run depth) i)
        (t.step.run (Callback.runWatched w depth) i) :=
      t.step.run_undisturbed (Callback.run_undisturbed w depth)
    obtain ⟨hr, hlog, hs⟩ := hlooks.withLog step
    have hb := hs.builder i
    exact ⟨⟨hr, hlog, congrArg Builder.selectText hb, congrArg Builder.bindings hb⟩, hs⟩

theorem Turn.takeAllWithin_unnoticed (w : Watcher) (depth : Nat) (turns : List Turn)
    {s s' : Session} (h : s.Unnoticed s') :
    List.Forall₂ Report.Unnoticed (Turn.takeAllWithin depth turns s).1
        (Turn.takeAllWatched w depth turns s').1 ∧
      (Turn.takeAllWithin depth turns s).2.Unnoticed
        (Turn.takeAllWatched w depth turns s').2 := by
  induction turns generalizing s s' with
  | nil => exact ⟨.nil, h⟩
  | cons t rest ih =>
    obtain ⟨hreport, hnext⟩ := t.takeWithin_unnoticed w depth h
    obtain ⟨hreports, hlast⟩ := ih hnext
    exact ⟨.cons hreport hreports, hlast⟩

/-- **Looking is not noticed.** Every step does the same whether or not looks are taken meanwhile,
at whatever builders, and so does every dialogue: it brings the same outcomes, texts and maps, and
leaves the same builders, values, fragments and placeholders. In particular a look tells the same
after any other one. -/
theorem looking_unnoticed (w : Watcher) (depth : Nat) :
    (∀ (step : Step) (self : Nat),
      Run.Undisturbed (step.run (Callback.run depth) self)
        (step.run (Callback.runWatched w depth) self)) ∧
    (∀ (s : Session) (taken : Nat × Look) (look : Look) (place : Nat),
      ((look.step.run (Callback.run depth) place).exec (s.look taken)).1 =
        ((look.step.run (Callback.run depth) place).exec s).1) ∧
    ∀ {stream : Nat → Fin 16} {threshold : Level} {options : Value} {turns : List Turn}
      {reports reports' : List Report} {s s' : Session},
      Turn.takeAllWithin depth turns (.start stream threshold options) = (reports, s) →
      Turn.takeAllWatched w depth turns (.start stream threshold options) = (reports', s') →
      List.Forall₂ Report.Unnoticed reports reports' ∧ s.Unnoticed s' ∧
        s'.fragments = s.fragments := by
  refine ⟨fun step self => step.run_undisturbed (Callback.run_undisturbed w depth),
    fun s taken look place => ?_, ?_⟩
  · rw [look.answer_step, look.answer_step, ((Session.Unnoticed.refl s).look taken).builder]
  · intro stream threshold options turns reports reports' s s' hs hs'
    obtain ⟨hreports, hlast⟩ :=
      Turn.takeAllWithin_unnoticed w depth turns (.refl (.start stream threshold options))
    rw [hs, hs'] at hreports hlast
    exact ⟨hreports, hlast, hlast.fragments⟩

/-- Looks at the root builder and at the first nested one, at every occasion. A statement that
deletes rows is refused each time. -/
def curiousWatcher : Watcher := fun _ _ _ => [(0, .delete), (0, .compileSelect), (1, .bindings)]

/-- A turn that nests a statement. -/
def overlookedTurn : Turn :=
  ⟨"root", .call .fields [.call .subSelect [.callback
    ⟨[.call .filter [.atom (.str "c"), .atom (.int 8)] [], .call .select [] []], none, none⟩]
    []] []⟩

/-- What it brings, by itself and under the watcher. -/
def overlookedRun : List Report × Session :=
  Turn.takeAllWithin 2 [overlookedTurn] (.start Supply.counting .debug (.options .default))
def overlookedWatched : List Report × Session :=
  Turn.takeAllWatched curiousWatcher 2 [overlookedTurn]
    (.start Supply.counting .debug (.options .default))

/-- The watcher sees the root builder refuse to delete all rows, inside of the callback and outside,
and the statement is the same. -/
theorem looking_unnoticed_refused :
    (Run.Undisturbed (overlookedTurn.step.run (Callback.run 2) 0)
        (overlookedTurn.step.run (Callback.runWatched curiousWatcher 2) 0) ∧
      ((Look.select.step.run (Callback.run 2) 0).exec
          (overlookedWatched.2.look (0, .delete))).1 =
        ((Look.select.step.run (Callback.run 2) 0).exec overlookedWatched.2).1) ∧
    (List.Forall₂ Report.Unnoticed overlookedRun.1 overlookedWatched.1 ∧
      overlookedRun.2.Unnoticed overlookedWatched.2 ∧
      overlookedWatched.2.fragments = overlookedRun.2.fragments) ∧
    overlookedWatched.1.map (·.sql) = [.ok "SELECT (SELECT * WHERE \"c\" = :where00000001)"] ∧
    overlookedRun.2.log.length = 1 ∧ overlookedWatched.2.log.length = 9 ∧
    overlookedWatched.2.log.count .refusedDelete = 4 := by
  obtain ⟨hstep, hlook, hturns⟩ := looking_unnoticed curiousWatcher 2
  have hrun : Turn.takeAllWithin 2 [overlookedTurn]
      (.start Supply.counting .debug (.options .default)) = (overlookedRun.1, overlookedRun.2) :=
    (Prod.eta _).symm
  have hwatched : Turn.takeAllWatched curiousWatcher 2 [overlookedTurn]
      (.start Supply.counting .debug (.options .default)) =
        (overlookedWatched.1, overlookedWatched.2) := (Prod.eta _).symm
  refine ⟨⟨hstep overlookedTurn.step 0, hlook _ _ _ _⟩, hturns hrun hwatched, ?_⟩
  exact ⟨by decide +kernel, by decide +kernel, by decide +kernel, by decide +kernel⟩

end BoundSql
