import BoundSql.Proofs.Commands
import BoundSql.Proofs.RenamedBuilders
import BoundSql.Proofs.RenamedCalls

/-!
# Sessions in which names are replaced

Two sessions are the same but for the names if everything in them is: the values with a name, the
builders and the history are renamed, and the supplies have issued as many names, of the same kinds
and for the same values. The rest is equal, the log included: a record shows how many values are
bound and none of their names.

Most actions issue no name, and of these it can be said without looking at the names that there are
in the end, that they do the same in both sessions (`Run.Mirrors`). A command draws a placeholder
only where it makes a comparison.
-/

set_option autoImplicit false

namespace BoundSql

variable {ρ : Renaming}

/-! ## Answers and events -/

/-- The second answer is the first one, renamed. Only an answer may be a rendered statement, or the
map of what is bound. -/
inductive Reply.Renamed (ρ : Renaming) : Reply → Reply → Prop where
  | builder : Renamed ρ .builder .builder
  | value {v v' : Value} (h : v.Renamed ρ v') : Renamed ρ (.value v) (.value v')
  | text {s t : String} (h : ρ.Texts s t) : Renamed ρ (.value (.str s)) (.value (.str t))
  | bindings {b b' : Bindings} (h : Bindings.Renamed ρ b b') :
      Renamed ρ (.value (.dict b)) (.value (.dict b'))
  | compiled {s t : String} (h : ρ.Texts s t) {b b' : Bindings} (hb : Bindings.Renamed ρ b b') :
      Renamed ρ (.value (.compiled s b)) (.value (.compiled t b'))

theorem Reply.Renamed.typeName_eq {r r' : Reply} (h : r.Renamed ρ r') :
    r'.typeName = r.typeName := by
  cases h with
  | value h => exact h.typeName_eq
  | _ => rfl

/-- The second event is the first one, renamed. -/
inductive Event.Renamed (ρ : Renaming) : Event → Event → Prop where
  | construction {c c' : Construction} (h : c.Renamed ρ c') :
      Renamed ρ (.construction c) (.construction c')
  | fragment {f f' : Fragment} (h : f.Renamed ρ f') : Renamed ρ (.fragment f) (.fragment f')
  | command (place : Nat) {k k' : Command} (h : k.Renamed ρ k') :
      Renamed ρ (.command place k) (.command place k')
  | nested {b b' : Builder} (hb : b.Renamed ρ b') {s t : String} (h : ρ.Texts s t) :
      Renamed ρ (.nested b s) (.nested b' t)

/-! ## Sessions -/

/-- The second session is the first one, renamed. -/
structure Session.Renamed (ρ : Renaming) (s s' : Session) : Prop where
  supply : s.supply.Renamed ρ s'.supply
  builders : List.Forall₂ (Builder.Renamed ρ) s.builders s'.builders
  captured : s.captured = s'.captured
  named : List.Forall₂ (Value.RenamedUnder ρ) s.named s'.named
  begun : s.begun = s'.begun
  threshold : s.threshold = s'.threshold
  log : s.log = s'.log
  history : List.Forall₂ (Event.Renamed ρ) s.history s'.history

namespace Session.Renamed

variable {s s' : Session}

theorem start (stream stream' : Nat → Fin 16) (threshold : Level) {options : Value}
    (h : options.Renamed ρ options) :
    (Session.start stream threshold options).Renamed ρ (.start stream' threshold options) :=
  ⟨.nil, .cons (.empty h) .nil, rfl, .nil, rfl, rfl, rfl, .nil⟩

variable (h : s.Renamed ρ s')

include h

theorem length_builders : s.builders.length = s'.builders.length :=
  List.Forall₂.length_eq h.builders

theorem builder (i : Nat) : (s.builder i).Renamed ρ (s'.builder i) := by
  have getD : ∀ {bs bs' : List Builder}, List.Forall₂ (Builder.Renamed ρ) bs bs' → ∀ i,
      (bs.getD i (.empty (.options .default))).Renamed ρ
        (bs'.getD i (.empty (.options .default))) := by
    intro bs bs' hbs
    induction hbs with
    | nil => exact fun _ => .empty (.options .default)
    | cons hb _ ih =>
      intro i
      cases i with
      | zero => exact hb
      | succ i => exact ih i
  exact getD h.builders i

theorem setBuilder (i : Nat) {b b' : Builder} (hb : b.Renamed ρ b') :
    (s.setBuilder i b).Renamed ρ (s'.setBuilder i b') := by
  have set : ∀ {bs bs' : List Builder}, List.Forall₂ (Builder.Renamed ρ) bs bs' → ∀ i,
      List.Forall₂ (Builder.Renamed ρ) (bs.set i b) (bs'.set i b') := by
    intro bs bs' hbs
    induction hbs with
    | nil => exact fun _ => .nil
    | cons hc hrest ih =>
      intro i
      cases i with
      | zero => exact .cons hb hrest
      | succ i => exact .cons hc (ih i)
  exact { h with builders := set h.builders i }

theorem addRecord (r : Record) : (s.addRecord r).Renamed ρ (s'.addRecord r) := by
  unfold Session.addRecord
  by_cases hr : s.threshold.rank ≤ r.level.rank
  · rw [if_pos hr, if_pos (h.threshold ▸ hr)]
    exact { h with log := congrArg (· ++ [r]) h.log }
  · rw [if_neg hr, if_neg (h.threshold ▸ hr)]
    exact h

end Session.Renamed

/-! ## Actions that issue no name -/

namespace Run

variable {α β : Type}

/-- Two actions do the same in two sessions, the second renamed. -/
def Mirrors (ρ : Renaming) (m m' : Run α) (Q : α → α → Prop) : Prop :=
  ∀ s s' : Session, s.Renamed ρ s' →
    ρ.Results Q (m.exec s).1 (m'.exec s').1 ∧ (m.exec s).2.Renamed ρ (m'.exec s').2

namespace Mirrors

variable {m m' : Run α} {Q : α → α → Prop}

theorem pure {x y : α} (h : Q x y) : Mirrors ρ (Pure.pure x) (Pure.pure y) Q :=
  fun _ _ hs => ⟨.ok h, hs⟩

theorem ofExcept {r r' : Except Fault α} (h : ρ.Results Q r r') :
    Mirrors ρ (Run.ofExcept r) (Run.ofExcept r') Q :=
  fun _ _ hs => ⟨h, hs⟩

theorem bind {f f' : α → Run β} {R : β → β → Prop} (hm : Mirrors ρ m m' Q)
    (hf : ∀ x y, Q x y → Mirrors ρ (f x) (f' y) R) : Mirrors ρ (m >>= f) (m' >>= f') R := by
  intro s s' hs
  have hms := hm s s' hs
  rw [exec_bind, exec_bind]
  revert hms
  generalize m.exec s = r, m'.exec s' = r'
  obtain ⟨r, t⟩ := r
  obtain ⟨r', t'⟩ := r'
  rintro ⟨hr, ht⟩
  cases hr with
  | ok hQ => exact hf _ _ hQ t t' ht
  | error hfault => exact ⟨.error hfault, ht⟩

theorem builder (i : Nat) : Mirrors ρ (Run.builder i) (Run.builder i) (Builder.Renamed ρ) :=
  fun _ _ hs => ⟨.ok (hs.builder i), hs⟩

theorem modifyBuilder (i : Nat) {f f' : Builder → Builder}
    (h : ∀ b b', b.Renamed ρ b' → (f b).Renamed ρ (f' b')) :
    Mirrors ρ (Run.modifyBuilder i f) (Run.modifyBuilder i f') Eq :=
  fun _ _ hs => ⟨.ok rfl, hs.setBuilder i (h _ _ (hs.builder i))⟩

theorem editBuilder (i : Nat) {f f' : Builder → Option Fault × Builder}
    (h : ∀ b b', b.Renamed ρ b' → Builder.RenamedEdit ρ (f b) (f' b')) :
    Mirrors ρ (Run.editBuilder i f) (Run.editBuilder i f') Eq := by
  intro s s' hs
  have hf := h _ _ (hs.builder i)
  rw [exec_editBuilder, exec_editBuilder]
  revert hf
  generalize f (s.builder i) = r, f' (s'.builder i) = r'
  obtain ⟨fault, b⟩ := r
  obtain ⟨fault', b'⟩ := r'
  rintro ⟨hfault, hb⟩
  refine ⟨?_, hs.setBuilder i hb⟩
  cases hfault with
  | none => exact .ok rfl
  | some hfault => exact .error hfault

theorem newBuilder {options options' : Value} (h : options.Renamed ρ options') :
    Mirrors ρ (Run.newBuilder options) (Run.newBuilder options') Eq :=
  fun _ _ hs => ⟨.ok hs.length_builders,
    { hs with builders := List.rel_append hs.builders (.cons (.empty h) .nil) }⟩

theorem capture (name : String) (i : Nat) :
    Mirrors ρ (Run.capture name i) (Run.capture name i) Eq :=
  fun _ _ hs => ⟨.ok rfl, { hs with captured := congrArg (Entries.insert name i) hs.captured }⟩

theorem bindName (name : String) {v v' : Value} (h : v.Renamed ρ v') :
    Mirrors ρ (Run.bindName name v) (Run.bindName name v') Eq :=
  fun _ _ hs => ⟨.ok rfl, { hs with named := Value.insert_renamedUnder h hs.named }⟩

theorem named (name : String) : Mirrors ρ (Run.named name) (Run.named name) (Value.Renamed ρ) := by
  intro s s' hs
  refine ⟨?_, hs⟩
  have hget := Value.get?_renamedUnder hs.named name
  rw [exec_named, exec_named]
  revert hget
  generalize Entries.get? name s.named = x, Entries.get? name s'.named = x'
  intro hget
  cases hget with
  | none => exact .fault _
  | some hv => exact .ok hv

theorem origin : Mirrors ρ Run.origin Run.origin Eq :=
  fun _ _ hs => ⟨.ok (congrArg (fun n => [n]) hs.begun),
    { hs with begun := congrArg (· + 1) hs.begun }⟩

theorem record (r : Record) : Mirrors ρ (Run.record r) (Run.record r) Eq :=
  fun _ _ hs => ⟨.ok rfl, hs.addRecord r⟩

theorem keeps (level : Level) : Mirrors ρ (Run.keeps level) (Run.keeps level) Eq := by
  intro s s' hs
  refine ⟨.ok ?_, hs⟩
  rw [hs.threshold]

theorem note {e e' : Event} (h : e.Renamed ρ e') : Mirrors ρ (Run.note e) (Run.note e') Eq :=
  fun _ _ hs => ⟨.ok rfl, { hs with history := List.rel_append hs.history (.cons h .nil) }⟩

end Mirrors

end Run

end BoundSql
