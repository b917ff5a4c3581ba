import BoundSql.Script.Evaluation

/-!
# Turns of a dialogue

A dialogue takes the steps of a script one at a time. Each turn addresses the root builder or
one that a callback left within reach, and reports the outcome of its step, what was recorded
meanwhile, and what the builder addressed would render and bind now. A failed step ends its own
turn only.
-/

set_option autoImplicit false

namespace BoundSql

/-- A step and the name of the builder it is for. -/
structure Turn where
  target : String
  step : Step

/-- What one turn brings. -/
structure Report where
  outcome : Except Fault Reply
  log : List Record
  sql : Except Fault String
  bound : Bindings

namespace Session

/-- The place of the builder with a name. -/
def target (s : Session) (name : String) : Except Fault Nat :=
  match Entries.get? name s.captured with
  | some i => .ok i
  | none => .error (.unknownName name)

/-- Runs an action with an empty log, and hands its records out apart. -/
def withLog {α : Type} (action : Run α) (s : Session) : Except Fault α × List Record × Session :=
  let (r, s') := action.exec { s with log := [] }
  (r, s'.log, { s' with log := s.log ++ s'.log })

end Session

/-- Takes one turn in which callbacks are nested to at most the given depth. -/
def Turn.takeWithin (depth : Nat) (t : Turn) (s : Session) : Report × Session :=
  match s.target t.target with
  | .error fault =>
      let b := s.builder Session.root
      (⟨.error fault, [], b.selectText, b.bindings⟩, s)
  | .ok i =>
      let (outcome, log, s) := s.withLog (t.step.run (Callback.run depth) i)
      let b := s.builder i
      (⟨outcome, log, b.selectText, b.bindings⟩, s)

/-- Takes turns in order. -/
def Turn.takeAllWithin (depth : Nat) : List Turn → Session → List Report × Session
  | [], s => ([], s)
  | t :: rest, s =>
      let (report, s) := t.takeWithin depth s
      let (reports, s) := takeAllWithin depth rest s
      (report :: reports, s)

/-- Takes turns in order, with the usual bound on how deeply callbacks are nested. -/
def Turn.takeAll (turns : List Turn) (s : Session) : List Report × Session :=
  Turn.takeAllWithin maxDepth turns s

end BoundSql
