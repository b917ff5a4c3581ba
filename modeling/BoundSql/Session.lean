import BoundSql.Builder
import BoundSql.Log
import BoundSql.Script.Call

/-!
# Sessions

What a script works on: the supply of placeholders, all builders made so far with the root
builder first, the names under which builders and values can be reached, the count of the
expressions begun so far, and the log. A script
changes a session step by step, and what was changed before a fault stays changed; hence an
action returns its session in either case.

A session also keeps a history of what was asked for and what was made. Nothing reads it: it is
there so that one can say what a script has done.
-/

set_option autoImplicit false

namespace BoundSql

/-- Something that happened in a session. -/
inductive Event where
  /-- A construction was asked for. -/
  | construction (c : Construction)
  /-- A fragment was made. -/
  | fragment (f : Fragment)
  /-- A command was given to the builder at a place. -/
  | command (place : Nat) (c : Command)
  /-- A callback answered with a text, and its builder was then `b`. -/
  | nested (b : Builder) (sql : String)

/-- The state of a running script. -/
structure Session where
  supply : Supply
  builders : List Builder
  captured : Entries String Nat
  named : Entries String Value
  begun : Nat
  threshold : Level
  log : List Record
  history : List Event

/-- An action on a session, which leaves a session behind also when it fails. -/
abbrev Run (α : Type) : Type := ExceptT Fault (StateM Session) α

namespace Session

/-- The place of the root builder. -/
def root : Nat := 0

/-- The name of the root builder, for as long as no callback takes it. -/
def rootName : String := "root"

/-- A session with nothing but a root builder. -/
def start (stream : Nat → Fin 16) (threshold : Level) (options : Value) : Session :=
  ⟨.ofStream stream, [.empty options], [(rootName, root)], [], 0, threshold, [], []⟩

/-- The builder at a place. -/
def builder (s : Session) (i : Nat) : Builder := s.builders.getD i (.empty (.options .default))

/-- Puts a builder at a place that holds one. -/
def setBuilder (s : Session) (i : Nat) (b : Builder) : Session :=
  { s with builders := s.builders.set i b }

/-- Keeps a record that reaches the threshold. -/
def addRecord (s : Session) (r : Record) : Session :=
  if s.threshold.rank ≤ r.level.rank then { s with log := s.log ++ [r] } else s

/-! ## The builders of a session -/

theorem builder_setBuilder_self {s : Session} {i : Nat} (h : i < s.builders.length)
    (b : Builder) : (s.setBuilder i b).builder i = b := by
  simp [builder, setBuilder, List.getD_eq_getElem?_getD, h]

theorem builder_setBuilder_of_ne {i j : Nat} (h : i ≠ j) (s : Session) (b : Builder) :
    (s.setBuilder i b).builder j = s.builder j := by
  simp [builder, setBuilder, List.getD_eq_getElem?_getD, List.getElem?_set_ne h]

end Session

namespace Run

/-- The outcome of an action and the session it leaves. -/
def exec {α : Type} (action : Run α) (s : Session) : Except Fault α × Session :=
  (ExceptT.run action).run s

/-- A result that needs no session. -/
def ofExcept {α : Type} (r : Except Fault α) : Run α := ExceptT.mk (pure r)

/-- Something made with placeholders of the session. -/
def making {α : Type} (m : Making α) : Run α :=
  ExceptT.mk fun s =>
    let (r, supply) := (ExceptT.run m).run s.supply
    (r, { s with supply })

/-- The builder at a place. -/
def builder (i : Nat) : Run Builder :=
  ExceptT.mk fun s => (.ok (s.builder i), s)

/-- Changes the builder at a place. -/
def modifyBuilder (i : Nat) (f : Builder → Builder) : Run Unit :=
  ExceptT.mk fun s => (.ok (), s.setBuilder i (f (s.builder i)))

/-- Changes the builder at a place in a way that may fail half way. -/
def editBuilder (i : Nat) (f : Builder → Option Fault × Builder) : Run Unit :=
  ExceptT.mk fun s =>
    let (fault, b) := f (s.builder i)
    (match fault with | none => .ok () | some fault => .error fault, s.setBuilder i b)

/-- A new builder with empty slots, at the end. -/
def newBuilder (options : Value) : Run Nat :=
  ExceptT.mk fun s =>
    (.ok s.builders.length, { s with builders := s.builders ++ [.empty options] })

/-- Keeps a builder within reach under a name. -/
def capture (name : String) (i : Nat) : Run Unit :=
  ExceptT.mk fun s => (.ok (), { s with captured := Entries.insert name i s.captured })

/-- Gives a name to a value. -/
def bindName (name : String) (v : Value) : Run Unit :=
  ExceptT.mk fun s => (.ok (), { s with named := Entries.insert name v s.named })

/-- The value with a name. -/
def named (name : String) : Run Value :=
  ExceptT.mk fun s =>
    (match Entries.get? name s.named with
      | some v => .ok v
      | none => .error (.unknownName name), s)

/-- The origin of an expression that is begun now. -/
def origin : Run Origin :=
  ExceptT.mk fun s => (.ok [s.begun], { s with begun := s.begun + 1 })

/-- Writes a record. -/
def record (r : Record) : Run Unit :=
  ExceptT.mk fun s => (.ok (), s.addRecord r)

/-- Enters an event into the history. -/
def note (e : Event) : Run Unit :=
  ExceptT.mk fun s => (.ok (), { s with history := s.history ++ [e] })

/-- Whether records of a level are kept. -/
def keeps (level : Level) : Run Bool :=
  ExceptT.mk fun s => (.ok (s.threshold.rank ≤ level.rank), s)

/-! ## What each action does

One equation per action. With them a run is computed step by step, and no proof has to look
into the monad.
-/

section Exec

variable {α β : Type}

@[simp] theorem exec_pure (x : α) (s : Session) : exec (pure x) s = (.ok x, s) := rfl

@[simp] theorem exec_throw (fault : Fault) (s : Session) :
    exec (throw fault : Run α) s = (.error fault, s) := rfl

/-- An action runs on what the action before it left, and not at all after a fault. -/
theorem exec_bind (m : Run α) (f : α → Run β) (s : Session) :
    exec (m >>= f) s = match exec m s with
      | (.ok x, s') => exec (f x) s'
      | (.error fault, s') => (.error fault, s') := by
  change (match (m s) with | (r, s') => ExceptT.bindCont f r s') = _
  unfold exec ExceptT.run StateT.run
  rcases m s with ⟨x | x, s'⟩ <;> rfl

/-- A sequence that succeeds is one whose parts do. -/
theorem exec_bind_eq_ok {m : Run α} {f : α → Run β} {s s' : Session} {y : β}
    (h : exec (m >>= f) s = (.ok y, s')) :
    ∃ x s₁, exec m s = (.ok x, s₁) ∧ exec (f x) s₁ = (.ok y, s') := by
  rw [exec_bind] at h
  rcases hm : exec m s with ⟨fault | x, s₁⟩ <;> rw [hm] at h
  · cases h
  · exact ⟨x, s₁, rfl, h⟩

/-- A sequence that fails does so in its first part, or else in the second one. -/
theorem exec_bind_eq_error {m : Run α} {f : α → Run β} {s s' : Session} {fault : Fault}
    (h : exec (m >>= f) s = (.error fault, s')) :
    exec m s = (.error fault, s') ∨
      ∃ x s₁, exec m s = (.ok x, s₁) ∧ exec (f x) s₁ = (.error fault, s') := by
  rw [exec_bind] at h
  rcases hm : exec m s with ⟨fault' | x, s₁⟩ <;> rw [hm] at h
  · cases h
    exact .inl rfl
  · exact .inr ⟨x, s₁, rfl, h⟩

theorem exec_map (g : α → β) (m : Run α) (s : Session) :
    exec (g <$> m) s = ((exec m s).1.map g, (exec m s).2) := by
  rw [map_eq_pure_bind, exec_bind]
  rcases exec m s with ⟨x | x, s'⟩ <;> rfl

@[simp] theorem exec_ofExcept (r : Except Fault α) (s : Session) :
    exec (ofExcept r) s = (r, s) := rfl

@[simp] theorem exec_making (m : Making α) (s : Session) :
    exec (making m) s =
      (((ExceptT.run m).run s.supply).1, { s with supply := ((ExceptT.run m).run s.supply).2 }) :=
  rfl

@[simp] theorem exec_builder (i : Nat) (s : Session) :
    exec (builder i) s = (.ok (s.builder i), s) := rfl

@[simp] theorem exec_modifyBuilder (i : Nat) (f : Builder → Builder) (s : Session) :
    exec (modifyBuilder i f) s = (.ok (), s.setBuilder i (f (s.builder i))) := rfl

@[simp] theorem exec_editBuilder (i : Nat) (f : Builder → Option Fault × Builder) (s : Session) :
    exec (editBuilder i f) s =
      (match (f (s.builder i)).1 with | none => .ok () | some fault => .error fault,
        s.setBuilder i (f (s.builder i)).2) := rfl

@[simp] theorem exec_newBuilder (options : Value) (s : Session) :
    exec (newBuilder options) s =
      (.ok s.builders.length, { s with builders := s.builders ++ [.empty options] }) := rfl

@[simp] theorem exec_capture (name : String) (i : Nat) (s : Session) :
    exec (capture name i) s =
      (.ok (), { s with captured := Entries.insert name i s.captured }) := rfl

@[simp] theorem exec_bindName (name : String) (v : Value) (s : Session) :
    exec (bindName name v) s = (.ok (), { s with named := Entries.insert name v s.named }) := rfl

@[simp] theorem exec_named (name : String) (s : Session) :
    exec (named name) s =
      (match Entries.get? name s.named with
        | some v => .ok v
        | none => .error (.unknownName name), s) := rfl

@[simp] theorem exec_origin (s : Session) :
    exec origin s = (.ok [s.begun], { s with begun := s.begun + 1 }) := rfl

@[simp] theorem exec_keeps (level : Level) (s : Session) :
    exec (keeps level) s = (.ok (s.threshold.rank ≤ level.rank), s) := rfl

@[simp] theorem exec_record (r : Record) (s : Session) :
    exec (record r) s = (.ok (), s.addRecord r) := rfl

@[simp] theorem exec_note (e : Event) (s : Session) :
    exec (note e) s = (.ok (), { s with history := s.history ++ [e] }) := rfl

end Exec

end Run

end BoundSql
