import BoundSql.Proofs.RedactedSessions

/-!
# Calls that are the same but for data

Which arguments of a call are data depends on the parameter that they are for. A reader takes
positional arguments in order, so what is left after it has its places moved by one; an argument
with a name is found by the name. In either case a parameter is filled on both sides or on neither,
with values that show the same at the place of the parameter.

A parameter that may be written is filled with values that show the same everywhere
(`Value.redact_congr`). So the places of a call need to agree with those of its parameters only
where data stands.
-/

set_option autoImplicit false

namespace BoundSql

/-! ## Arguments -/

/-- Values show the same, each at a place of its own. -/
inductive Value.SameEach : (Nat → Position) → List Value → List Value → Prop where
  | nil (place : Nat → Position) : SameEach place [] []
  | cons {place : Nat → Position} {v w : Value} {vs ws : List Value}
      (h : v.SameAt (place 0) w) (rest : SameEach (fun i => place (i + 1)) vs ws) :
      SameEach place (v :: vs) (w :: ws)

/-- Named values show the same, each at the place of its name. -/
def Value.SameNamed (named : String → Position) (es es' : Entries String Value) : Prop :=
  List.Forall₂ (fun e e' => e.1 = e'.1 ∧ e.2.SameAt (named e.1) e'.2) es es'

/-- What fills a parameter at `p` shows the same at `q`. -/
def Position.Serves (p q : Position) : Prop := p = q ∨ p = .plain

theorem Position.Serves.sameAt {p q : Position} (h : p.Serves q) {v w : Value}
    (hv : v.SameAt p w) : v.SameAt q w := by
  rcases h with rfl | rfl
  · exact hv
  · exact Value.redact_congr q hv

theorem Value.SameEach.forall₂ {place : Nat → Position} {vs ws : List Value}
    (h : SameEach place vs ws) {q : Position} (hq : ∀ i, (place i).Serves q) :
    List.Forall₂ (SameAt q) vs ws := by
  induction h with
  | nil => exact .nil
  | cons hv _ ih => exact .cons ((hq 0).sameAt hv) (ih fun i => hq (i + 1))

theorem Value.SameNamed.get? {named : String → Position} {es es' : Entries String Value}
    (h : SameNamed named es es') (name : String) :
    Option.Rel (SameAt (named name)) (Entries.get? name es) (Entries.get? name es') := by
  induction h with
  | nil => exact .none
  | @cons e e' es es' he _ ih =>
    obtain ⟨j, v⟩ := e
    obtain ⟨_, v'⟩ := e'
    obtain ⟨rfl, hv⟩ := he
    by_cases hj : j = name
    · subst hj
      simpa [Entries.get?] using Option.Rel.some hv
    · simpa [Entries.get?, hj] using ih

theorem Value.SameNamed.filter {named : String → Position} {es es' : Entries String Value}
    (h : SameNamed named es es') (name : String) :
    SameNamed named (es.filter fun e => e.1 != name) (es'.filter fun e => e.1 != name) := by
  induction h with
  | nil => exact .nil
  | @cons e e' es es' he _ ih =>
    by_cases hj : e.1 = name
    · have hj' : e'.1 = name := he.1 ▸ hj
      simpa [hj, hj'] using ih
    · have hj' : e'.1 ≠ name := he.1 ▸ hj
      have hcons : SameNamed named (e :: es.filter fun e => e.1 != name)
          (e' :: es'.filter fun e => e.1 != name) := .cons he ih
      simpa [hj, hj'] using hcons

/-- Arguments are the same but for data. -/
structure Arguments.Alike (place : Nat → Position) (named : String → Position)
    (a a' : Arguments) : Prop where
  positional : Value.SameEach place a.positional a'.positional
  named : Value.SameNamed named a.named a'.named

/-! ## Readers -/

/-- From arguments that are the same but for data, at the places `place`, two readers leave such
arguments at the places `next`, and take what `Q` relates, or both fail. -/
def ArgumentReader.ReadAlike {α : Type} (named : String → Position) (place : Nat → Position)
    (r r' : ArgumentReader α) (Q : α → α → Prop) (next : Nat → Position) : Prop :=
  ∀ a a', Arguments.Alike place named a a' →
    Option.Rel (fun x x' => Q x.1 x'.1 ∧ Arguments.Alike next named x.2 x'.2) (r a) (r' a')

namespace ArgumentReader.ReadAlike

variable {α β : Type} {named : String → Position} {place mid next : Nat → Position}
  {r r' : ArgumentReader α} {Q : α → α → Prop}

theorem pure {x x' : α} (h : Q x x') :
    ReadAlike named place (Pure.pure x) (Pure.pure x') Q place :=
  fun _ _ ha => .some ⟨h, ha⟩

theorem bind {f f' : α → ArgumentReader β} {R : β → β → Prop}
    (hr : ReadAlike named place r r' Q mid)
    (hf : ∀ x x', Q x x' → ReadAlike named mid (f x) (f' x') R next) :
    ReadAlike named place (r >>= f) (r' >>= f') R next := by
  intro a a' ha
  have h := hr a a' ha
  change Option.Rel _ ((r a).bind fun p => f p.1 p.2) ((r' a').bind fun p => f' p.1 p.2)
  revert h
  generalize r a = x, r' a' = x'
  intro h
  cases h with
  | none => exact .none
  | some h => exact hf _ _ h.1 _ _ h.2

theorem keyword? {name : String} {q : Position} (h : (named name).Serves q) :
    ReadAlike named place (ArgumentReader.keyword? name) (ArgumentReader.keyword? name)
      (Option.Rel (Value.SameAt q)) place := by
  intro a a' ha
  have hget := ha.named.get? name
  unfold ArgumentReader.keyword?
  revert hget
  generalize Entries.get? name a.named = x, Entries.get? name a'.named = x'
  intro hget
  cases hget with
  | none => exact .some ⟨.none, ha⟩
  | some hv =>
    refine .some ⟨.some (h.sameAt hv), ha.positional, ?_⟩
    exact ha.named.filter name

theorem parameter? {name : String} {q : Position} (hplace : (place 0).Serves q)
    (hname : (named name).Serves q) :
    ReadAlike named place (ArgumentReader.parameter? name) (ArgumentReader.parameter? name)
      (Option.Rel (Value.SameAt q)) fun i => place (i + 1) := by
  rintro ⟨positional, es⟩ ⟨positional', es'⟩ ⟨hp, hn⟩
  cases hp with
  | nil =>
    refine keyword? hname _ _ ⟨.nil _, hn⟩
  | cons hv rest => exact .some ⟨.some (hplace.sameAt hv), rest, hn⟩

theorem required {name : String} {q : Position} (hplace : (place 0).Serves q)
    (hname : (named name).Serves q) :
    ReadAlike named place (ArgumentReader.required name) (ArgumentReader.required name)
      (Value.SameAt q) fun i => place (i + 1) := by
  refine (parameter? hplace hname).bind fun x x' hx => ?_
  cases hx with
  | none => exact fun _ _ _ => .none
  | some hv => exact .pure hv

theorem optional {name : String} {q : Position} {v : Value} (hplace : (place 0).Serves q)
    (hname : (named name).Serves q) :
    ReadAlike named place (ArgumentReader.optional name v) (ArgumentReader.optional name v)
      (Value.SameAt q) fun i => place (i + 1) := by
  refine (parameter? hplace hname).bind fun x x' hx => .pure ?_
  cases hx with
  | none => rfl
  | some hv => exact hv

theorem keyword {name : String} {q : Position} {v : Value} (hname : (named name).Serves q) :
    ReadAlike named place (ArgumentReader.keyword name v) (ArgumentReader.keyword name v)
      (Value.SameAt q) place := by
  refine (keyword? hname).bind fun x x' hx => .pure ?_
  cases hx with
  | none => rfl
  | some hv => exact hv

theorem rest {q : Position} (hplace : ∀ i, (place i).Serves q) :
    ReadAlike named place ArgumentReader.rest ArgumentReader.rest
      (List.Forall₂ (Value.SameAt q)) place :=
  fun _ _ ha => .some ⟨ha.positional.forall₂ hplace, .nil _, ha.named⟩

/-- What two readers make of all arguments. -/
theorem read? (hr : ReadAlike named place r r' Q next) {a a' : Arguments}
    (ha : Arguments.Alike place named a a') : Option.Rel Q (a.read? r) (a'.read? r') := by
  have h := hr a a' ha
  unfold Arguments.read?
  revert h
  generalize r a = x, r' a' = x'
  intro h
  cases h with
  | none => exact .none
  | @some p p' h =>
    obtain ⟨x, positional, es⟩ := p
    obtain ⟨x', positional', es'⟩ := p'
    obtain ⟨hQ, hp, hn⟩ := h
    cases hp with
    | nil =>
      cases hn with
      | nil => exact .some hQ
      | cons _ _ => exact .none
    | cons _ _ => exact .none

end ArgumentReader.ReadAlike

/-! ## Constructors and methods -/

open ArgumentReader

theorem Constructor.reader_alike (c : Constructor) :
    ∃ next, ReadAlike c.namedPosition c.position c.reader c.reader Construction.Alike next := by
  have plain : Position.plain.Serves .plain := .inl rfl
  cases c with
  | column => exact ⟨_, .bind (.required plain plain) fun _ _ h => .pure (.column h)⟩
  | literal =>
    exact ⟨_, .bind (.required (.inl rfl) (.inl rfl)) fun _ _ _ => .pure (.literal _ _)⟩
  | null => exact ⟨_, .pure .null⟩
  | raw => exact ⟨_, .bind (.rest fun _ => plain) fun _ _ h => .pure (.raw h)⟩
  | cast =>
    exact ⟨_, .bind (.required plain plain) fun _ _ h => .bind (.required plain plain)
      fun _ _ ht => .pure (.cast h ht)⟩
  | function =>
    exact ⟨_, .bind (.required plain plain) fun _ _ h => .bind (.rest fun _ => .inl rfl)
      fun _ _ hargs => .pure (.function h hargs)⟩
  | group c => exact ⟨_, .bind (.rest fun _ => plain) fun _ _ h => .pure (.group c h)⟩
  | filter =>
    exact ⟨_, .bind (.required plain plain) fun _ _ hleft =>
      .bind (.optional (.inl rfl) (.inl rfl)) fun _ _ hright =>
        .bind (.optional plain plain) fun _ _ hoperator => .bind (.keyword plain)
          fun _ _ hbefore => .bind (.keyword plain) fun _ _ hafter =>
            .pure (.filter hleft hright hoperator hbefore hafter)⟩
  | projection =>
    exact ⟨_, .bind (.required plain plain) fun _ _ h => .bind (.optional plain plain)
      fun _ _ hl => .pure (.projection h hl)⟩
  | subSelect =>
    exact ⟨_, .bind (.required plain plain) fun _ _ h => .bind (.optional plain plain)
      fun _ _ hl => .bind (.keyword plain) fun _ _ ho => .pure (.subSelect h hl ho)⟩
  | union =>
    exact ⟨_, .bind (.required plain plain) fun _ _ h => .bind (.optional plain plain)
      fun _ _ hm => .bind (.keyword plain) fun _ _ ho => .pure (.union h hm ho)⟩
  | unionAll | unionDistinct =>
    exact ⟨_, .bind (.rest fun _ => plain) fun _ _ h =>
      .pure (.union (congrArg Value.tuple (Value.redactEach_congr h)) rfl rfl)⟩
  | join family =>
    exact ⟨_, .bind (.required plain plain) fun _ _ ht => .bind (.optional plain plain)
      fun _ _ hc => .bind (.optional plain plain) fun _ _ hl => .bind (.keyword plain)
        fun _ _ hk => .pure (.join family ht hc hl hk)⟩
  | branch =>
    exact ⟨_, .bind (.required plain plain) fun _ _ hc => .bind (.required plain plain)
      fun _ _ hr => .pure (.branch hc hr)⟩
  | fallback => exact ⟨_, .bind (.required plain plain) fun _ _ h => .pure (.fallback h)⟩
  | choice =>
    exact ⟨_, .bind (.required plain plain) fun _ _ h => .bind (.required plain plain)
      fun _ _ hb => .bind (.optional plain plain) fun _ _ hl => .pure (.choice h hb hl)⟩
  | asColumn => exact ⟨_, .bind (.required plain plain) fun _ _ h => .pure (.asColumn h)⟩
  | ownSubSelect =>
    exact ⟨_, .bind (.required plain plain) fun _ _ h => .bind (.optional plain plain)
      fun _ _ hl => .pure (.ownSubSelect h hl)⟩
  | ownUnion =>
    exact ⟨_, .bind (.required plain plain) fun _ _ h => .bind (.optional plain plain)
      fun _ _ hm => .pure (.ownUnion h hm)⟩

theorem Method.reader_alike (m : Method) :
    ∃ next, ReadAlike m.namedPosition m.position m.reader m.reader Command.Alike next := by
  have plain : Position.plain.Serves .plain := .inl rfl
  have field : Position.field.Serves .field := .inl rfl
  cases m with
  | table => exact ⟨_, .bind (.required plain plain) fun _ _ h => .pure (.table h)⟩
  | fields => exact ⟨_, .bind (.rest fun _ => field) fun _ _ h => .pure (.fields h)⟩
  | filter =>
    exact ⟨_, .bind (.required plain plain) fun _ _ hleft =>
      .bind (.optional (.inl rfl) (.inl rfl)) fun _ _ hright =>
        .bind (.optional plain plain) fun _ _ hoperator =>
          .pure (.filter hleft hright hoperator)⟩
  | join => exact ⟨_, .bind (.rest fun _ => plain) fun _ _ h => .pure (.join h)⟩
  | limit => exact ⟨_, .bind (.required plain plain) fun _ _ h => .pure (.limit h)⟩
  | offset => exact ⟨_, .bind (.required plain plain) fun _ _ h => .pure (.offset h)⟩
  | order => exact ⟨_, .bind (.rest fun _ => plain) fun _ _ h => .pure (.order h)⟩
  | groupBy => exact ⟨_, .bind (.rest fun _ => plain) fun _ _ h => .pure (.groupBy h)⟩
  | paranoid => exact ⟨_, .bind (.optional plain plain) fun _ _ h => .pure (.paranoid h)⟩
  | select => exact ⟨_, .bind (.rest fun _ => field) fun _ _ h => .pure (.select h)⟩
  | delete => exact ⟨_, .pure .delete⟩
  | compileSelect =>
    exact ⟨_, .bind (.rest fun _ => field) fun _ _ h => .pure (.compileSelect h)⟩
  | compileDelete => exact ⟨_, .pure .compileDelete⟩
  | bindings => exact ⟨_, .pure .bindings⟩
  | subSelect =>
    exact ⟨_, .bind (.required plain plain) fun _ _ h => .bind (.optional plain plain)
      fun _ _ hl => .pure (.subSelect h hl)⟩
  | union =>
    exact ⟨_, .bind (.required plain plain) fun _ _ h => .bind (.optional plain plain)
      fun _ _ hm => .pure (.union h hm)⟩
  | clampLimit => exact ⟨_, .bind (.required plain plain) fun _ _ h => .pure (.clampLimit h)⟩
  | options => exact ⟨_, .pure .options⟩

variable {a a' : Arguments}

/-- Calls of a constructor that are the same but for data ask for constructions that are. -/
theorem Constructor.construction?_alike {c : Constructor}
    (h : Arguments.Alike c.position c.namedPosition a a') :
    Option.Rel Construction.Alike (c.construction? a) (c.construction? a') :=
  let ⟨_, hr⟩ := c.reader_alike
  hr.read? h

/-- Calls of a method that are the same but for data are commands that are. -/
theorem Method.command?_alike {m : Method} (h : Arguments.Alike m.position m.namedPosition a a') :
    Option.Rel Command.Alike (m.command? a) (m.command? a') :=
  let ⟨_, hr⟩ := m.reader_alike
  hr.read? h

end BoundSql
