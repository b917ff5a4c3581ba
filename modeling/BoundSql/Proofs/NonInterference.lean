import BoundSql.Proofs.RedactedScripts
import BoundSql.Proofs.Rendering

/-!
# Data never reaches the text

Two dialogues that are the same but for data run side by side, with the same digits, options and
threshold. All that can be seen of them is the same: the texts of fragments and statements, faults
with their messages, records, and the keys of every map in their order (`data_never_in_text`). This
is so of what the dialogues bring in the end, and of every call on the way, however deeply it is
nested. The values under the keys are all that may differ, since their number is that of the keys.

That two dialogues are the same but for data means that redaction makes one of them (`Turn.redact`).
What is redacted are expressions in the positions of data that do nothing but give a value, among
them everything that is built from constants (`Position.hides_of_isConstant`).
-/

set_option autoImplicit false

namespace BoundSql

/-! ## Constants are data -/

mutual

/-- Whether an expression is built from constants only, with keys that can be keys. -/
def Expr.isConstant : Expr → Bool
  | .atom _ => true
  | .list items | .tuple items => Expr.areConstant items
  | .dict items => Expr.areConstantEntries items
  | _ => false
termination_by structural e => e

def Expr.areConstant : List Expr → Bool
  | [] => true
  | e :: rest => e.isConstant && Expr.areConstant rest
termination_by structural es => es

def Expr.areConstantEntries : List (Expr × Expr) → Bool
  | [] => true
  | e :: rest => Expr.isConstantEntry e && Expr.areConstantEntries rest
termination_by structural es => es

def Expr.isConstantEntry : Expr × Expr → Bool
  | (k, v) => k.isConstantKey && v.isConstant
termination_by structural e => e

/-- Whether an expression is built from constants that can be keys. -/
def Expr.isConstantKey : Expr → Bool
  | .atom _ => true
  | .tuple items => Expr.areConstantKeys items
  | _ => false
termination_by structural e => e

def Expr.areConstantKeys : List Expr → Bool
  | [] => true
  | e :: rest => e.isConstantKey && Expr.areConstantKeys rest
termination_by structural es => es

end

section Constants

variable {invoke : Invoke} {self : Nat} {s : Session}

/-- A sequence whose first part only gives a value. -/
theorem Run.exec_bind_of_gives {α β : Type} {m : Run α} {f : α → Run β} {x : α}
    (h : m.exec s = (.ok x, s)) : (m >>= f).exec s = (f x).exec s := by
  rw [Run.exec_bind, h]

mutual

/-- Evaluating a constant does nothing but to give a value, which is no fragment. -/
theorem Expr.eval_constant : (e : Expr) → e.isConstant = true → ∀ origin : Origin,
    ∃ v, (e.eval invoke self origin).exec s = (.ok v, s) ∧ v.fragment? = none ∧
      (v = .null → e = .atom .null)
  | .atom a, _, origin => by
    refine ⟨a.value origin, rfl, ?_⟩
    cases a with
    | null => exact ⟨rfl, fun _ => rfl⟩
    | _ => exact ⟨rfl, nofun⟩
  | .list items, h, origin => by
    obtain ⟨vs, hvs⟩ := Expr.evalAll_constant items h origin 0
    exact ⟨.list vs, Run.exec_bind_of_gives hvs, rfl, nofun⟩
  | .tuple items, h, origin => by
    obtain ⟨vs, hvs⟩ := Expr.evalAll_constant items h origin 0
    exact ⟨.tuple vs, Run.exec_bind_of_gives hvs, rfl, nofun⟩
  | .dict items, h, origin => by
    obtain ⟨b, hb⟩ := Expr.evalEntries_constant items h origin 0 []
    exact ⟨.dict b, Run.exec_bind_of_gives hb, rfl, nofun⟩
termination_by structural e => e

theorem Expr.evalAll_constant : (es : List Expr) → Expr.areConstant es = true →
    ∀ (origin : Origin) (i : Nat),
      ∃ vs, (Expr.evalAll invoke self origin i es).exec s = (.ok vs, s)
  | [], _, _, _ => ⟨[], rfl⟩
  | e :: rest, h, origin, i => by
    obtain ⟨he, hrest⟩ := Bool.and_eq_true_iff.mp h
    obtain ⟨v, hv, -⟩ := Expr.eval_constant e he (i :: origin)
    obtain ⟨vs, hvs⟩ := Expr.evalAll_constant rest hrest origin (i + 1)
    exact ⟨v :: vs, (Run.exec_bind_of_gives hv).trans (Run.exec_bind_of_gives hvs)⟩
termination_by structural es => es

theorem Expr.evalEntries_constant : (es : List (Expr × Expr)) →
    Expr.areConstantEntries es = true → ∀ (origin : Origin) (i : Nat) (acc : Bindings),
      ∃ b, (Expr.evalEntries invoke self origin i acc es).exec s = (.ok b, s)
  | [], _, _, _, acc => ⟨acc, rfl⟩
  | e :: rest, h, origin, i, acc => by
    obtain ⟨he, hrest⟩ := Bool.and_eq_true_iff.mp h
    obtain ⟨⟨k, v⟩, hkv, hk⟩ := Expr.evalEntry_constant e he (i :: origin)
    obtain ⟨b, hb⟩ := Expr.evalEntries_constant rest hrest origin (i + 1) (Entries.insert k v acc)
    refine ⟨b, (Run.exec_bind_of_gives hkv).trans ?_⟩
    dsimp only
    rw [if_pos hk]
    exact hb
termination_by structural es => es

theorem Expr.evalEntry_constant : (e : Expr × Expr) → Expr.isConstantEntry e = true →
    ∀ origin : Origin, ∃ kv, (Expr.evalEntry invoke self origin e).exec s = (.ok kv, s) ∧
      kv.1.isKey = true
  | (k, v), h, origin => by
    obtain ⟨hk, hv⟩ := Bool.and_eq_true_iff.mp h
    obtain ⟨x, hx, hkey⟩ := Expr.eval_constantKey k hk (0 :: origin)
    obtain ⟨y, hy, -⟩ := Expr.eval_constant v hv (1 :: origin)
    exact ⟨(x, y), (Run.exec_bind_of_gives hx).trans (Run.exec_bind_of_gives hy), hkey⟩
termination_by structural e => e

theorem Expr.eval_constantKey : (e : Expr) → e.isConstantKey = true → ∀ origin : Origin,
    ∃ v, (e.eval invoke self origin).exec s = (.ok v, s) ∧ v.isKey = true
  | .atom a, _, origin => ⟨a.value origin, rfl, by cases a <;> rfl⟩
  | .tuple items, h, origin => by
    obtain ⟨vs, hvs, hkeys⟩ := Expr.evalAll_constantKeys items h origin 0
    refine ⟨.tuple vs, Run.exec_bind_of_gives hvs, ?_⟩
    obtain ⟨codes, hcodes⟩ := Option.isSome_iff_exists.mp hkeys
    simp [Value.isKey, Value.keyCode?, hcodes]
termination_by structural e => e

theorem Expr.evalAll_constantKeys : (es : List Expr) → Expr.areConstantKeys es = true →
    ∀ (origin : Origin) (i : Nat),
      ∃ vs, (Expr.evalAll invoke self origin i es).exec s = (.ok vs, s) ∧
        (Value.keyCodes? vs).isSome = true
  | [], _, _, _ => ⟨[], rfl, rfl⟩
  | e :: rest, h, origin, i => by
    obtain ⟨he, hrest⟩ := Bool.and_eq_true_iff.mp h
    obtain ⟨v, hv, hkey⟩ := Expr.eval_constantKey e he (i :: origin)
    obtain ⟨vs, hvs, hkeys⟩ := Expr.evalAll_constantKeys rest hrest origin (i + 1)
    refine ⟨v :: vs, (Run.exec_bind_of_gives hv).trans (Run.exec_bind_of_gives hvs), ?_⟩
    obtain ⟨code, hcode⟩ := Option.isSome_iff_exists.mp hkey
    obtain ⟨codes, hcodes⟩ := Option.isSome_iff_exists.mp hkeys
    simp [Value.keyCodes?, hcode, hcodes]
termination_by structural es => es

end

end Constants

/-- **Constants are data** wherever data can stand. Only null is none on the right side of a
comparison, which then has no right side. -/
theorem Position.hides_of_isConstant {p : Position} {e : Expr} (h : e.isConstant = true)
    (hp : p = .data ∨ p = .operand ∧ e ≠ .atom .null) : p.Hides e := by
  intro invoke self origin s
  obtain ⟨v, hv, hfragment, hnull⟩ := e.eval_constant h origin
  refine ⟨v, hv, ?_⟩
  rcases hp with rfl | ⟨rfl, hne⟩
  · exact hfragment
  · exact ⟨hfragment, fun hv => hne (hnull hv)⟩

/-! ## What can be seen -/

/-- Two maps have the same keys, in the same order. Keys that are texts are the same texts; a
fragment can be a key too, and then it is the same but for data. -/
def Bindings.SameKeys (b b' : Bindings) : Prop :=
  (Entries.keys b).map (Value.redact .plain) = (Entries.keys b').map (Value.redact .plain) ∧
    (Entries.keys b).map Value.word? = (Entries.keys b').map Value.word?

theorem Bindings.sameKeys_of_keys {b b' : Bindings}
    (hkeys : (Entries.keys b).map (Value.redact .plain) =
      (Entries.keys b').map (Value.redact .plain)) : b.SameKeys b' := by
  refine ⟨hkeys, ?_⟩
  have hwords := congrArg (List.map Value.word?) hkeys
  have hword : (Value.word? ∘ Value.redact .plain) = Value.word? := funext Value.word?_redact
  rwa [List.map_map, List.map_map, hword] at hwords

theorem Bindings.sameKeys_of_redactBound {b b' : Bindings}
    (h : Value.redactBound b = Value.redactBound b') : b.SameKeys b' := by
  refine sameKeys_of_keys ?_
  rw [← Entries.keys_mapWith (g := fun _ _ => blank), ← Entries.keys_mapWith (g := fun _ _ => blank),
    ← Value.redactBound_eq_mapWith, ← Value.redactBound_eq_mapWith, h]

theorem Bindings.sameKeys_of_redactEntries {p p' : Position} {b b' : Bindings}
    (h : Value.redactEntries p b = Value.redactEntries p' b') : b.SameKeys b' := by
  refine sameKeys_of_keys ?_
  have hkeys := congrArg Entries.keys h
  rwa [Value.redactEntries_eq_mapWith, Value.redactEntries_eq_mapWith, Entries.keys_mapWith,
    Entries.keys_mapWith] at hkeys

/-- Two fragments have the same text, and maps with the same keys. -/
def Fragment.LooksLike (f f' : Fragment) : Prop :=
  f.text = f'.text ∧ f.bindings.SameKeys f'.bindings

/-- Two builders render the same statements, with maps that have the same keys. -/
def Builder.LooksLike (b b' : Builder) : Prop :=
  b.selectText = b'.selectText ∧ b.deleteText = b'.deleteText ∧ b.bindings.SameKeys b'.bindings

/-- The map of values in an answer. -/
def Reply.bindings? : Reply → Option Bindings
  | .value (.dict b) | .value (.compiled _ b) => some b
  | _ => none

/-- Two answers are the same but for data; the statements in them are the same, and the maps in them
have the same keys. -/
structure Reply.LooksLike (r r' : Reply) : Prop where
  alike : r.Alike r'
  statement : r.statement? = r'.statement?
  keys : Option.Rel Bindings.SameKeys r.bindings? r'.bindings?

/-- Two turns have outcomes that look the same, or the same fault; the same is recorded, and the
builder renders the same, with the same keys. -/
structure Report.LooksLike (r r' : Report) : Prop where
  outcome : Alike Reply.LooksLike r.outcome r'.outcome
  log : r.log = r'.log
  sql : r.sql = r'.sql
  keys : r.bound.SameKeys r'.bound

/-- Two happenings are the opening of a builder, in the same way, or a command to the builder at the
same place, with arguments that are the same but for data, and with outcomes that look the same. -/
inductive Happening.LooksLike : Happening → Happening → Prop where
  | opened (place : Nat) (parent : Option Nat) :
      LooksLike (.opened place parent) (.opened place parent)
  | called (place : Nat) {k k' : Command} {r r' : Except Fault Reply} (hk : k.Alike k')
      (hr : BoundSql.Alike Reply.LooksLike r r') : LooksLike (.called place k r) (.called place k' r')

/-- The fragments that have been made, in their order. -/
def Session.fragments (s : Session) : List Fragment :=
  s.history.filterMap fun
    | .fragment f => some f
    | _ => none

/-- Two dialogues from the same start, each with what its turns brought and the session in the end,
look the same. -/
structure LookAlike (start : Session) (d d' : List Report × Session) : Prop where
  /-- All turns answer, record and render the same. -/
  reports : List.Forall₂ Report.LooksLike d.1 d'.1
  /-- All fragments render the same. -/
  fragments : List.Forall₂ Fragment.LooksLike d.2.fragments d'.2.fragments
  /-- All builders render the same in the end. -/
  builders : List.Forall₂ Builder.LooksLike d.2.builders d'.2.builders
  log : d.2.log = d'.2.log
  /-- All calls on all builders, nested ones too, answer the same. None is left out. -/
  calls : ∃ L L', start.Trace L d.2 ∧ start.Trace L' d'.2 ∧
    List.Forall₂ Happening.LooksLike L L' ∧
    L.filterMap Happening.command? = d.2.commands ∧ L'.filterMap Happening.command? = d'.2.commands

theorem Fragment.looksLike_of_redact {f f' : Fragment} (h : f.redact = f'.redact) :
    f.LooksLike f' := by
  refine ⟨by rw [← f.text_redact, h, f'.text_redact], Bindings.sameKeys_of_redactBound ?_⟩
  rw [← f.bindings_redact, h, f'.bindings_redact]

theorem Builder.looksLike_of_redact {b b' : Builder} (h : b.redact = b'.redact) :
    b.LooksLike b' := by
  refine ⟨?_, ?_, Bindings.sameKeys_of_redactBound ?_⟩
  · rw [← b.selectText_redact, h, b'.selectText_redact]
  · rw [← b.deleteText_redact, h, b'.deleteText_redact]
  · rw [← b.bindings_redact, h, b'.bindings_redact]

theorem Reply.Alike.statement?_eq {r r' : Reply} (h : r.Alike r') :
    r.statement? = r'.statement? := by
  cases h with
  | value h =>
    have redacted : ∀ v : Value,
        (Reply.value (v.redact .plain)).statement? = (Reply.value v).statement? := by
      intro v
      cases v <;> rfl
    rw [← redacted, h, redacted]
  | _ => rfl

theorem Reply.Alike.bindings?_rel {r r' : Reply} (h : r.Alike r') :
    Option.Rel Bindings.SameKeys r.bindings? r'.bindings? := by
  cases h with
  | builder => exact .none
  | bindings h | compiled sql h => exact .some (Bindings.sameKeys_of_redactBound h)
  | @value v v' h =>
    cases v with
    | dict b =>
      cases v' with
      | dict b' => exact .some (Bindings.sameKeys_of_redactEntries (Value.dict.inj h))
      | _ => cases h
    | compiled sql b =>
      cases v' with
      | compiled sql' b' => exact .some (Bindings.sameKeys_of_redactEntries (Value.compiled.inj h).2)
      | _ => cases h
    | _ =>
      cases v' with
      | dict _ | compiled _ _ => cases h
      | _ => exact .none

theorem Reply.Alike.looksLike {r r' : Reply} (h : r.Alike r') : r.LooksLike r' :=
  ⟨h, h.statement?_eq, h.bindings?_rel⟩

theorem Happening.Alike.looksLike {x x' : Happening} (h : x.Alike x') : x.LooksLike x' := by
  cases h with
  | opened place parent => exact .opened place parent
  | called place hk hr => exact .called place hk (hr.mono fun _ _ => Reply.Alike.looksLike)

theorem Session.Alike.fragments {s s' : Session} (h : s.Alike s') :
    List.Forall₂ Fragment.LooksLike s.fragments s'.fragments := by
  have hhistory := h.history
  unfold Session.fragments
  revert hhistory
  generalize s.history = es, s'.history = es'
  intro hhistory
  induction hhistory with
  | nil => exact .nil
  | cons he _ ih =>
    cases he with
    | fragment hf => exact .cons (Fragment.looksLike_of_redact hf) ih
    | _ => exact ih

/-! ## Dialogues -/

theorem Session.Alike.start (stream : Nat → Fin 16) (threshold : Level) (options : Value) :
    (Session.start stream threshold options).Alike (.start stream threshold options) :=
  ⟨rfl, rfl, rfl, rfl, rfl, rfl, rfl, .nil⟩

/-- **Turns that are the same but for data look the same.** -/
theorem Turn.takeWithin_abreast (depth : Nat) {t t' : Turn} (ht : t.redact = t'.redact)
    {s s' : Session} (h : s.Alike s') (hreach : s.InReach) :
    (t.takeWithin depth s).1.LooksLike (t'.takeWithin depth s').1 ∧
      s.Abreast s' (t.takeWithin depth s).2 (t'.takeWithin depth s').2 := by
  obtain ⟨name, step⟩ := t
  obtain ⟨name', step'⟩ := t'
  obtain ⟨rfl, hstep⟩ := Turn.mk.inj ht
  have htarget : s.target name = s'.target name := by
    unfold Session.target
    rw [h.captured]
  unfold Turn.takeWithin
  simp only [← htarget]
  cases hplace : s.target name with
  | error fault =>
    obtain ⟨hselect, -, hkeys⟩ := Builder.looksLike_of_redact (h.builder Session.root)
    exact ⟨⟨.error fault, rfl, hselect, hkeys⟩, .refl h⟩
  | ok i =>
    have hi : i < s.builders.length := hreach.target_lt hplace
    -- The log of a turn is its own.
    have hunlogged : s.Abreast s' { s with log := [] } { s' with log := [] } :=
      .aside { h with log := rfl } (.unseen rfl rfl rfl)
        (.unseen rfl rfl rfl)
    obtain ⟨hreply, hs⟩ :=
      Step.run_abreast (Callback.run_abreast depth) hstep _ _ hunlogged.alike hi
    have hlogged : s.Abreast s' (s.withLog (step.run (Callback.run depth) i)).2.2
        (s'.withLog (step'.run (Callback.run depth) i)).2.2 :=
      (hunlogged.trans hs).trans (.aside
        { hs.alike with log := congrArg₂ (· ++ ·) h.log hs.alike.log }
        (.unseen rfl rfl rfl)
        (.unseen rfl rfl rfl))
    obtain ⟨hselect, -, hkeys⟩ := Builder.looksLike_of_redact (hlogged.alike.builder i)
    exact ⟨⟨hreply.mono fun _ _ => Reply.Alike.looksLike, hs.alike.log, hselect, hkeys⟩, hlogged⟩

theorem Turn.takeAllWithin_abreast (depth : Nat) {turns turns' : List Turn}
    (ht : turns.map Turn.redact = turns'.map Turn.redact) {s s' : Session} (h : s.Alike s')
    (hreach : s.InReach) :
    List.Forall₂ Report.LooksLike (Turn.takeAllWithin depth turns s).1
        (Turn.takeAllWithin depth turns' s').1 ∧
      s.Abreast s' (Turn.takeAllWithin depth turns s).2 (Turn.takeAllWithin depth turns' s').2 := by
  induction turns generalizing turns' s s' with
  | nil =>
    cases turns' with
    | nil => exact ⟨.nil, .refl h⟩
    | cons _ _ => cases ht
  | cons t rest ih =>
    cases turns' with
    | nil => cases ht
    | cons t' rest' =>
      obtain ⟨ht, hrest⟩ := List.cons.inj ht
      obtain ⟨hreport, hs⟩ := Turn.takeWithin_abreast depth ht h hreach
      obtain ⟨-, hreach⟩ := t.takeWithin_trace depth hreach
      obtain ⟨hreports, hend⟩ := ih hrest hs.alike hreach
      exact ⟨.cons hreport hreports, hs.trans hend⟩

/-- **Data values never reach the text.** Two dialogues that are the same but for data, with the
same digits, options and threshold, look the same. -/
theorem data_never_in_text (stream : Nat → Fin 16) (threshold : Level) (options : Value)
    (depth : Nat) {turns turns' : List Turn}
    (h : turns.map Turn.redact = turns'.map Turn.redact) :
    LookAlike (.start stream threshold options)
      (Turn.takeAllWithin depth turns (.start stream threshold options))
      (Turn.takeAllWithin depth turns' (.start stream threshold options)) := by
  obtain ⟨hreports, hs, L, L', hL, hL', hLL'⟩ := Turn.takeAllWithin_abreast depth h
    (.start stream threshold options) (.start stream threshold options)
  exact {
    reports := hreports
    fragments := hs.fragments
    builders := (forall₂_of_map_eq hs.builders).imp fun _ _ => Builder.looksLike_of_redact
    log := hs.log
    calls := ⟨L, L', hL.trace, hL'.trace, hLL'.imp fun _ _ => Happening.Alike.looksLike,
      hL.commands.symm, hL'.commands.symm⟩ }

/-- A dialogue with data in each of the positions for it, two levels deep, and a step that fails. -/
def holding (a b c d : Expr) : List Turn :=
  [⟨"root", .call .table [.atom (.str "t")] []⟩,
   ⟨"root", .call .filter [.atom (.str "a"), a] []⟩,
   ⟨"root", .call .filter [.atom (.int 1), a] []⟩,
   ⟨"root", .call .fields [.dict
      [(.atom (.str "fn_call"), .atom (.str "f(:x)")),
       (.atom (.str "replacements"), .dict [(.atom (.str "x"), b)])]] []⟩,
   ⟨"root", .call .fields [.call .subSelect [.callback
      ⟨[.call .fields [.call .function [.atom (.str "g"), c] [],
          .call .literal [] [("value", d)]] [],
        .call .select [] []], none, none⟩] []] []⟩]

theorem holding_redact {a b c d : Expr} (ha : a.isConstant = true) (hne : a ≠ .atom .null)
    (hb : b.isConstant = true) (hc : c.isConstant = true) (hd : d.isConstant = true) :
    (holding a b c d).map Turn.redact = holding blankExpr blankExpr blankExpr blankExpr := by
  have hidden : ∀ {e : Expr}, e.isConstant = true → ∀ r, Position.data.hide e r = blankExpr :=
    fun he r => if_pos (Position.hides_of_isConstant he (.inl rfl))
  have operand : ∀ r, Position.operand.hide a r = blankExpr := fun r =>
    if_pos (Position.hides_of_isConstant ha (.inr ⟨rfl, hne⟩))
  have field : ∀ e r, Position.field.hide e r = r := Position.hide_of_not_binds fun _ => id
  have bound : ∀ e r, Position.bound.hide e r = r := Position.hide_of_not_binds fun _ => id
  simp [holding, Turn.redact, Step.redact, Expr.redactArgs, Expr.redactNamed, Expr.redactNamedOne,
    Expr.redact, Expr.redactEntries, Expr.redactEntry, Callback.redact, Step.redactAll,
    Expr.redact?, Method.position, Constructor.position, Constructor.namedPosition, Position.onMap,
    Position.under, Expr.isText, operand, field, bound, hidden hb, hidden hc, hidden hd]

/-- Harmless data. -/
def harmless : List Turn :=
  holding (.atom (.int 5)) (.atom (.int 1)) (.atom (.str "x")) (.atom .null)

/-- Data that would do harm in a text. -/
def harmful : List Turn :=
  holding (.atom (.str "' OR 1=1 --")) (.list [.atom (.str "\"; DROP")]) (.dict [])
    (.tuple [.atom .nan, .atom (.bool true)])

theorem data_never_in_text_harmful :
    harmless.map Turn.redact = harmful.map Turn.redact ∧
      LookAlike (.start Supply.counting .debug (.options .default))
        (Turn.takeAllWithin 1 harmless (.start Supply.counting .debug (.options .default)))
        (Turn.takeAllWithin 1 harmful (.start Supply.counting .debug (.options .default))) ∧
      ((Turn.takeAllWithin 1 harmful
        (.start Supply.counting .debug (.options .default))).2.builder 0).selectText =
          .ok ("SELECT f(:x), (SELECT g(:func00000002), :lit00000003)" ++
            " FROM \"t\" WHERE \"a\" = :where00000001") := by
  have hharmless : harmless.map Turn.redact = holding blankExpr blankExpr blankExpr blankExpr :=
    holding_redact rfl (fun h => nomatch h) rfl rfl rfl
  have hharmful : harmful.map Turn.redact = holding blankExpr blankExpr blankExpr blankExpr :=
    holding_redact rfl (fun h => nomatch h) rfl rfl rfl
  have h : harmless.map Turn.redact = harmful.map Turn.redact := hharmless.trans hharmful.symm
  refine ⟨h, data_never_in_text Supply.counting .debug (.options .default) 1 h, ?_⟩
  decide +kernel

end BoundSql
