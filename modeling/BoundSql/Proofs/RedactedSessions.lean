import BoundSql.Proofs.Alone
import BoundSql.Proofs.RedactedBuilders

/-!
# Sessions that are the same but for data

Two runs are compared step by step. `Session.Alike` says that two sessions look the same after
redaction, all parts of them: what has been drawn, recorded, named and bound, and what has happened.
Constructions and commands are the same but for data if they are of one kind and each of their
arguments is, at the place it has there (`Construction.Alike`, `Command.Alike`).

Every primitive of a script takes two sessions that are alike to two that are alike, with results
that are alike or with the same fault. So do constructions and commands, if callbacks do.
-/

set_option autoImplicit false

namespace BoundSql

/-! ## What is the same but for data -/

/-- Two values show the same at a place. -/
abbrev Value.SameAt (p : Position) (v w : Value) : Prop := v.redact p = w.redact p

theorem Value.redactEach_congr {vs ws : List Value} (h : List.Forall₂ (SameAt .plain) vs ws) :
    redactEach vs = redactEach ws := by
  rw [redactEach_eq_map, redactEach_eq_map]
  exact map_eq_of_forall₂ h

/-- Two constructions are the same but for data. -/
inductive Construction.Alike : Construction → Construction → Prop where
  | column {name name' : Value} (h : name.SameAt .plain name') :
      Alike (.column name) (.column name')
  | literal (v v' : Value) : Alike (.literal v) (.literal v')
  | null : Alike .null .null
  | raw {parts parts' : List Value} (h : List.Forall₂ (Value.SameAt .plain) parts parts') :
      Alike (.raw parts) (.raw parts')
  | cast {operand operand' type type' : Value} (h : operand.SameAt .plain operand')
      (ht : type.SameAt .plain type') : Alike (.cast operand type) (.cast operand' type')
  | function {name name' : Value} {args args' : List Value} (h : name.SameAt .plain name')
      (hargs : List.Forall₂ (Value.SameAt .data) args args') :
      Alike (.function name args) (.function name' args')
  | group (c : Connective) {conditions conditions' : List Value}
      (h : List.Forall₂ (Value.SameAt .plain) conditions conditions') :
      Alike (.group c conditions) (.group c conditions')
  | filter {left left' right right' operator operator' before before' after after' : Value}
      (hleft : left.SameAt .plain left') (hright : right.SameAt .operand right')
      (hoperator : operator.SameAt .plain operator') (hbefore : before.SameAt .plain before')
      (hafter : after.SameAt .plain after') :
      Alike (.filter left right operator before after)
        (.filter left' right' operator' before' after')
  | projection {target target' label label' : Value} (h : target.SameAt .plain target')
      (hlabel : label.SameAt .plain label') :
      Alike (.projection target label) (.projection target' label')
  | subSelect {callback callback' label label' options options' : Value}
      (h : callback.SameAt .plain callback') (hlabel : label.SameAt .plain label')
      (ho : options.SameAt .plain options') :
      Alike (.subSelect callback label options) (.subSelect callback' label' options')
  | union {callbacks callbacks' modifier modifier' options options' : Value}
      (h : callbacks.SameAt .plain callbacks') (hm : modifier.SameAt .plain modifier')
      (ho : options.SameAt .plain options') :
      Alike (.union callbacks modifier options) (.union callbacks' modifier' options')
  | join (family : JoinKind) {table table' condition condition' label label' kind kind' : Value}
      (ht : table.SameAt .plain table') (hc : condition.SameAt .plain condition')
      (hlabel : label.SameAt .plain label') (hkind : kind.SameAt .plain kind') :
      Alike (.join family table condition label kind)
        (.join family table' condition' label' kind')
  | branch {condition condition' result result' : Value}
      (hc : condition.SameAt .plain condition') (hr : result.SameAt .plain result') :
      Alike (.branch condition result) (.branch condition' result')
  | fallback {result result' : Value} (h : result.SameAt .plain result') :
      Alike (.fallback result) (.fallback result')
  | choice {name name' branches branches' last last' : Value} (h : name.SameAt .plain name')
      (hb : branches.SameAt .plain branches') (hl : last.SameAt .plain last') :
      Alike (.choice name branches last) (.choice name' branches' last')
  | asColumn {v v' : Value} (h : v.SameAt .plain v') : Alike (.asColumn v) (.asColumn v')
  | ownSubSelect {callback callback' label label' : Value}
      (h : callback.SameAt .plain callback') (hlabel : label.SameAt .plain label') :
      Alike (.ownSubSelect callback label) (.ownSubSelect callback' label')
  | ownUnion {callbacks callbacks' modifier modifier' : Value}
      (h : callbacks.SameAt .plain callbacks') (hm : modifier.SameAt .plain modifier') :
      Alike (.ownUnion callbacks modifier) (.ownUnion callbacks' modifier')

/-- Two commands are the same but for data. -/
inductive Command.Alike : Command → Command → Prop where
  | table {name name' : Value} (h : name.SameAt .plain name') : Alike (.table name) (.table name')
  | fields {added added' : List Value} (h : List.Forall₂ (Value.SameAt .field) added added') :
      Alike (.fields added) (.fields added')
  | filter {left left' right right' operator operator' : Value}
      (hleft : left.SameAt .plain left') (hright : right.SameAt .operand right')
      (hoperator : operator.SameAt .plain operator') :
      Alike (.filter left right operator) (.filter left' right' operator')
  | join {args args' : List Value} (h : List.Forall₂ (Value.SameAt .plain) args args') :
      Alike (.join args) (.join args')
  | limit {number number' : Value} (h : number.SameAt .plain number') :
      Alike (.limit number) (.limit number')
  | offset {number number' : Value} (h : number.SameAt .plain number') :
      Alike (.offset number) (.offset number')
  | order {clauses clauses' : List Value} (h : List.Forall₂ (Value.SameAt .plain) clauses clauses') :
      Alike (.order clauses) (.order clauses')
  | groupBy {clauses clauses' : List Value}
      (h : List.Forall₂ (Value.SameAt .plain) clauses clauses') :
      Alike (.groupBy clauses) (.groupBy clauses')
  | paranoid {target target' : Value} (h : target.SameAt .plain target') :
      Alike (.paranoid target) (.paranoid target')
  | select {added added' : List Value} (h : List.Forall₂ (Value.SameAt .field) added added') :
      Alike (.select added) (.select added')
  | delete : Alike .delete .delete
  | compileSelect {added added' : List Value}
      (h : List.Forall₂ (Value.SameAt .field) added added') :
      Alike (.compileSelect added) (.compileSelect added')
  | compileDelete : Alike .compileDelete .compileDelete
  | bindings : Alike .bindings .bindings
  | subSelect {callback callback' label label' : Value}
      (h : callback.SameAt .plain callback') (hlabel : label.SameAt .plain label') :
      Alike (.subSelect callback label) (.subSelect callback' label')
  | union {callbacks callbacks' modifier modifier' : Value}
      (h : callbacks.SameAt .plain callbacks') (hm : modifier.SameAt .plain modifier') :
      Alike (.union callbacks modifier) (.union callbacks' modifier')
  | clampLimit {number number' : Value} (h : number.SameAt .plain number') :
      Alike (.clampLimit number) (.clampLimit number')
  | options : Alike .options .options

/-- Two events are the same but for data. -/
inductive Event.Alike : Event → Event → Prop where
  | construction {c c' : Construction} (h : c.Alike c') : Alike (.construction c) (.construction c')
  | fragment {f f' : Fragment} (h : f.redact = f'.redact) : Alike (.fragment f) (.fragment f')
  | command (place : Nat) {k k' : Command} (h : k.Alike k') :
      Alike (.command place k) (.command place k')
  | nested {b b' : Builder} (h : b.redact = b'.redact) (sql : String) :
      Alike (.nested b sql) (.nested b' sql)

/-- Two sessions are the same but for data. -/
structure Session.Alike (s s' : Session) : Prop where
  supply : s.supply.Alike s'.supply
  builders : s.builders.map Builder.redact = s'.builders.map Builder.redact
  captured : s.captured = s'.captured
  named : s.named.map (fun e => (e.1, e.2.redact .plain)) =
    s'.named.map fun e => (e.1, e.2.redact .plain)
  begun : s.begun = s'.begun
  threshold : s.threshold = s'.threshold
  log : s.log = s'.log
  history : List.Forall₂ Event.Alike s.history s'.history

/-- Two answers are the same but for data. A map that a builder answers with keeps its keys. -/
inductive Reply.Alike : Reply → Reply → Prop where
  | builder : Alike .builder .builder
  | value {v v' : Value} (h : v.SameAt .plain v') : Alike (.value v) (.value v')
  | bindings {b b' : Bindings} (h : Value.redactBound b = Value.redactBound b') :
      Alike (.value (.dict b)) (.value (.dict b'))
  | compiled (sql : String) {b b' : Bindings} (h : Value.redactBound b = Value.redactBound b') :
      Alike (.value (.compiled sql b)) (.value (.compiled sql b'))

/-! ## Sessions -/

namespace Session.Alike

variable {s s' : Session} (h : s.Alike s')
include h

theorem length_builders : s.builders.length = s'.builders.length := by
  simpa using congrArg List.length h.builders

theorem builder (i : Nat) : (s.builder i).redact = (s'.builder i).redact := by
  have getD : ∀ bs : List Builder, (bs.getD i (.empty (.options .default))).redact =
      (bs.map Builder.redact).getD i (.empty (.options .default)) := by
    intro bs
    rw [List.getD_eq_getElem?_getD, List.getD_eq_getElem?_getD, List.getElem?_map]
    cases bs[i]? <;> rfl
  rw [Session.builder, Session.builder, getD, getD, h.builders]

theorem setBuilder (i : Nat) {b b' : Builder} (hb : b.redact = b'.redact) :
    (s.setBuilder i b).Alike (s'.setBuilder i b') := by
  refine { h with builders := ?_ }
  show (s.builders.set i b).map _ = (s'.builders.set i b').map _
  rw [List.map_set, List.map_set, h.builders, hb]

theorem addRecord (r : Record) : (s.addRecord r).Alike (s'.addRecord r) := by
  unfold Session.addRecord
  by_cases hr : s.threshold.rank ≤ r.level.rank
  · rw [if_pos hr, if_pos (h.threshold ▸ hr)]
    exact { h with log := congrArg (· ++ [r]) h.log }
  · rw [if_neg hr, if_neg (h.threshold ▸ hr)]
    exact h

theorem named_get? (name : String) :
    (Entries.get? name s.named).map (Value.redact .plain) =
      (Entries.get? name s'.named).map (Value.redact .plain) := by
  have get?_map : ∀ es : Entries String Value, (Entries.get? name es).map (Value.redact .plain) =
      Entries.get? name (es.map fun e => (e.1, e.2.redact .plain)) := by
    intro es
    induction es with
    | nil => rfl
    | cons e rest ih =>
      obtain ⟨k, v⟩ := e
      by_cases hk : k == name <;> simp [Entries.get?, hk, ih]
  rw [get?_map, get?_map, h.named]

end Session.Alike

/-! ## Primitives -/

section Primitives

open BoundSql.Action

namespace Run

variable {α β : Type}

theorem making_agree {m : Making α} {m' : Making β} {Q : α → β → Prop}
    (h : Agree Supply.Alike m m' Q) : Agree Session.Alike (Run.making m) (Run.making m') Q :=
  fun s s' hs => ⟨(h s.supply s'.supply hs.supply).1,
    { hs with supply := (h s.supply s'.supply hs.supply).2 }⟩

theorem builder_agree (i : Nat) :
    Agree Session.Alike (Run.builder i) (Run.builder i) fun b b' => b.redact = b'.redact :=
  fun _ _ hs => ⟨.ok (hs.builder i), hs⟩

theorem modifyBuilder_agree (i : Nat) {f f' : Builder → Builder}
    (h : ∀ b b', b.redact = b'.redact → (f b).redact = (f' b').redact) :
    Agree Session.Alike (Run.modifyBuilder i f) (Run.modifyBuilder i f') Eq :=
  fun _ _ hs => ⟨.ok rfl, hs.setBuilder i (h _ _ (hs.builder i))⟩

theorem editBuilder_agree (i : Nat) {f f' : Builder → Option Fault × Builder}
    (h : ∀ b b', b.redact = b'.redact →
      (f b).map id Builder.redact = (f' b').map id Builder.redact) :
    Agree Session.Alike (Run.editBuilder i f) (Run.editBuilder i f') Eq := by
  intro s s' hs
  have hf := h _ _ (hs.builder i)
  show BoundSql.Alike Eq ((Run.editBuilder i f).exec s).1 ((Run.editBuilder i f').exec s').1 ∧
    ((Run.editBuilder i f).exec s).2.Alike ((Run.editBuilder i f').exec s').2
  rw [exec_editBuilder, exec_editBuilder]
  revert hf
  generalize f (s.builder i) = p, f' (s'.builder i) = p'
  obtain ⟨fault, b⟩ := p
  obtain ⟨fault', b'⟩ := p'
  intro hf
  obtain ⟨rfl, hb⟩ := Prod.mk.inj hf
  exact ⟨.of_eq rfl, hs.setBuilder i hb⟩

theorem newBuilder_agree {options options' : Value} (h : options.SameAt .plain options') :
    Agree Session.Alike (Run.newBuilder options) (Run.newBuilder options') Eq := by
  intro s s' hs
  refine ⟨.ok hs.length_builders, { hs with builders := ?_ }⟩
  have hempty : (Builder.empty options).redact = (Builder.empty options').redact := by
    show Builder.mk (options.redact .plain) _ _ _ _ _ _ _ _ _ = _
    rw [h]
    rfl
  show (s.builders ++ [_]).map Builder.redact = (s'.builders ++ [_]).map Builder.redact
  rw [List.map_append, List.map_append, hs.builders]
  exact congrArg (_ ++ [·]) hempty

theorem capture_agree (name : String) (i : Nat) :
    Agree Session.Alike (Run.capture name i) (Run.capture name i) Eq :=
  fun _ _ hs => ⟨.ok rfl, { hs with captured := congrArg (Entries.insert name i) hs.captured }⟩

theorem bindName_agree (name : String) {v v' : Value} (h : v.SameAt .plain v') :
    Agree Session.Alike (Run.bindName name v) (Run.bindName name v') Eq := by
  intro s s' hs
  refine ⟨.ok rfl, { hs with named := ?_ }⟩
  show (Entries.insert name v s.named).map _ = (Entries.insert name v' s'.named).map _
  rw [Entries.map_insert, Entries.map_insert, hs.named, h]

theorem named_agree (name : String) :
    Agree Session.Alike (Run.named name) (Run.named name) (Value.SameAt .plain) := by
  intro s s' hs
  refine ⟨?_, hs⟩
  have hget := hs.named_get? name
  show BoundSql.Alike _ ((Run.named name).exec s).1 ((Run.named name).exec s').1
  rw [exec_named, exec_named]
  revert hget
  generalize Entries.get? name s.named = r, Entries.get? name s'.named = r'
  intro hget
  cases r with
  | none =>
    cases r' with
    | none => exact .error _
    | some _ => cases hget
  | some v =>
    cases r' with
    | none => cases hget
    | some v' => exact .ok (Option.some.inj hget)

theorem origin_agree : Agree Session.Alike Run.origin Run.origin Eq :=
  fun _ _ hs => ⟨.ok (congrArg (fun n => [n]) hs.begun),
    { hs with begun := congrArg (· + 1) hs.begun }⟩

theorem record_agree (r : Record) :
    Agree Session.Alike (Run.record r) (Run.record r) Eq :=
  fun _ _ hs => ⟨.ok rfl, hs.addRecord r⟩

theorem keeps_agree (level : Level) :
    Agree Session.Alike (Run.keeps level) (Run.keeps level) Eq := by
  intro s s' hs
  refine ⟨.ok ?_, hs⟩
  show decide (s.threshold.rank ≤ level.rank) = decide (s'.threshold.rank ≤ level.rank)
  rw [hs.threshold]

theorem note_agree {e e' : Event} (h : e.Alike e') :
    Agree Session.Alike (Run.note e) (Run.note e') Eq :=
  fun _ _ hs => ⟨.ok rfl, { hs with history := List.rel_append hs.history (.cons h .nil) }⟩

theorem ofExcept_agree {r : Except Fault α} {r' : Except Fault β} {Q : α → β → Prop}
    (h : BoundSql.Alike Q r r') :
    Agree Session.Alike (Run.ofExcept r) (Run.ofExcept r') Q :=
  Agree.ofExcept h

end Run

end Primitives

end BoundSql
