import BoundSql.Proofs.RenamedValues
import BoundSql.Script.Call

/-!
# Calls with renamed arguments

A call with renamed arguments asks for the same, with the parameters renamed, or has no meaning
either. A reader finds arguments by their place and by their name, and looks into none of them; the
defaults are texts and null, in which there is nothing to rename.
-/

set_option autoImplicit false

namespace BoundSql

/-! ## Arguments -/

/-- A value under the same name, renamed. -/
structure Value.RenamedUnder (ρ : Renaming) (e e' : String × Value) : Prop where
  name : e.1 = e'.1
  value : e.2.Renamed ρ e'.2

/-- Arguments of a call, renamed. -/
structure Arguments.Renamed (ρ : Renaming) (a a' : Arguments) : Prop where
  positional : List.Forall₂ (Value.Renamed ρ) a.positional a'.positional
  named : List.Forall₂ (Value.RenamedUnder ρ) a.named a'.named

variable {ρ : Renaming}

theorem Value.get?_renamedUnder {es es' : Entries String Value}
    (h : List.Forall₂ (RenamedUnder ρ) es es') (name : String) :
    Option.Rel (Value.Renamed ρ) (Entries.get? name es) (Entries.get? name es') := by
  induction h with
  | nil => exact .none
  | @cons e e' es es' he _ ih =>
    obtain ⟨j, v⟩ := e
    obtain ⟨_, v'⟩ := e'
    obtain ⟨rfl, hv⟩ := he
    unfold Entries.get?
    split
    · exact .some hv
    · exact ih

theorem Value.insert_renamedUnder {name : String} {v v' : Value} (hv : v.Renamed ρ v')
    {es es' : Entries String Value} (h : List.Forall₂ (RenamedUnder ρ) es es') :
    List.Forall₂ (RenamedUnder ρ) (Entries.insert name v es) (Entries.insert name v' es') := by
  induction h with
  | nil => exact .cons ⟨rfl, hv⟩ .nil
  | @cons e e' es es' he hrest ih =>
    obtain ⟨j, w⟩ := e
    obtain ⟨_, w'⟩ := e'
    obtain ⟨rfl, hw⟩ := he
    unfold Entries.insert
    split
    · exact .cons ⟨rfl, hv⟩ hrest
    · exact .cons ⟨rfl, hw⟩ ih

theorem Value.filter_renamedUnder {es es' : Entries String Value}
    (h : List.Forall₂ (RenamedUnder ρ) es es') (name : String) :
    List.Forall₂ (RenamedUnder ρ) (es.filter fun e => e.1 != name)
      (es'.filter fun e => e.1 != name) := by
  refine List.rel_filter (fun e e' he => ?_) h
  exact iff_of_eq (congrArg (fun s => (s != name) = true) he.name)

/-! ## Readers -/

/-- From renamed arguments two readers take what `Q` relates, and leave renamed arguments, or both
fail. -/
def ArgumentReader.Renames {α : Type} (ρ : Renaming) (r r' : ArgumentReader α)
    (Q : α → α → Prop) : Prop :=
  ∀ a a', Arguments.Renamed ρ a a' →
    Option.Rel (fun x x' => Q x.1 x'.1 ∧ Arguments.Renamed ρ x.2 x'.2) (r a) (r' a')

namespace ArgumentReader.Renames

variable {α β : Type} {r r' : ArgumentReader α} {Q : α → α → Prop}

theorem pure {x x' : α} (h : Q x x') : Renames ρ (Pure.pure x) (Pure.pure x') Q :=
  fun _ _ ha => .some ⟨h, ha⟩

theorem bind {f f' : α → ArgumentReader β} {R : β → β → Prop} (hr : Renames ρ r r' Q)
    (hf : ∀ x x', Q x x' → Renames ρ (f x) (f' x') R) : Renames ρ (r >>= f) (r' >>= f') R := by
  intro a a' ha
  have h := hr a a' ha
  change Option.Rel _ ((r a).bind fun p => f p.1 p.2) ((r' a').bind fun p => f' p.1 p.2)
  revert h
  generalize r a = x, r' a' = x'
  intro h
  cases h with
  | none => exact .none
  | some h => exact hf _ _ h.1 _ _ h.2

theorem keyword? (name : String) :
    Renames ρ (ArgumentReader.keyword? name) (ArgumentReader.keyword? name)
      (Option.Rel (Value.Renamed ρ)) := by
  intro a a' ha
  have hget := Value.get?_renamedUnder ha.named name
  unfold ArgumentReader.keyword?
  revert hget
  generalize Entries.get? name a.named = x, Entries.get? name a'.named = x'
  intro hget
  cases hget with
  | none => exact .some ⟨.none, ha⟩
  | some hv => exact .some ⟨.some hv, ha.positional, Value.filter_renamedUnder ha.named name⟩

theorem parameter? (name : String) :
    Renames ρ (ArgumentReader.parameter? name) (ArgumentReader.parameter? name)
      (Option.Rel (Value.Renamed ρ)) := by
  rintro ⟨positional, es⟩ ⟨positional', es'⟩ ⟨hp, hn⟩
  cases hp with
  | nil => exact keyword? name _ _ ⟨.nil, hn⟩
  | cons hv hrest => exact .some ⟨.some hv, hrest, hn⟩

theorem required (name : String) :
    Renames ρ (ArgumentReader.required name) (ArgumentReader.required name) (Value.Renamed ρ) := by
  refine (parameter? name).bind fun x x' hx => ?_
  cases hx with
  | none => exact fun _ _ _ => .none
  | some hv => exact .pure hv

theorem optional (name : String) {v : Value} (h : v.Renamed ρ v) :
    Renames ρ (ArgumentReader.optional name v) (ArgumentReader.optional name v)
      (Value.Renamed ρ) := by
  refine (parameter? name).bind fun x x' hx => .pure ?_
  cases hx with
  | none => exact h
  | some hv => exact hv

theorem keyword (name : String) {v : Value} (h : v.Renamed ρ v) :
    Renames ρ (ArgumentReader.keyword name v) (ArgumentReader.keyword name v)
      (Value.Renamed ρ) := by
  refine (keyword? name).bind fun x x' hx => .pure ?_
  cases hx with
  | none => exact h
  | some hv => exact hv

theorem rest : Renames ρ ArgumentReader.rest ArgumentReader.rest
    (List.Forall₂ (Value.Renamed ρ)) :=
  fun _ _ ha => .some ⟨ha.positional, .nil, ha.named⟩

/-- What two readers make of all arguments. -/
theorem read? (hr : Renames ρ r r' Q) {a a' : Arguments} (ha : Arguments.Renamed ρ a a') :
    Option.Rel Q (a.read? r) (a'.read? r') := by
  have h := hr a a' ha
  unfold Arguments.read?
  revert h
  generalize r a = x, r' a' = x'
  intro h
  cases h with
  | none => exact .none
  | @some p p' h =>
    obtain ⟨x, positional, es⟩ := p
    obtain ⟨x', positional', es'⟩ := p'
    obtain ⟨hQ, hp, hn⟩ := h
    cases hp with
    | nil =>
      cases hn with
      | nil => exact .some hQ
      | cons _ _ => exact .none
    | cons _ _ => exact .none

end ArgumentReader.Renames

/-! ## Constructions and commands -/

/-- The second construction is the first one with its parameters renamed. -/
inductive Construction.Renamed (ρ : Renaming) : Construction → Construction → Prop where
  | column {v v' : Value} (h : v.Renamed ρ v') : Renamed ρ (.column v) (.column v')
  | literal {v v' : Value} (h : v.Renamed ρ v') : Renamed ρ (.literal v) (.literal v')
  | null : Renamed ρ .null .null
  | raw {parts parts' : List Value} (h : List.Forall₂ (Value.Renamed ρ) parts parts') :
      Renamed ρ (.raw parts) (.raw parts')
  | cast {v v' type type' : Value} (h : v.Renamed ρ v') (htype : type.Renamed ρ type') :
      Renamed ρ (.cast v type) (.cast v' type')
  | function {name name' : Value} (hname : name.Renamed ρ name') {args args' : List Value}
      (hargs : List.Forall₂ (Value.Renamed ρ) args args') :
      Renamed ρ (.function name args) (.function name' args')
  | group (c : Connective) {conditions conditions' : List Value}
      (h : List.Forall₂ (Value.Renamed ρ) conditions conditions') :
      Renamed ρ (.group c conditions) (.group c conditions')
  | filter {left left' right right' operator operator' before before' after after' : Value}
      (hleft : left.Renamed ρ left') (hright : right.Renamed ρ right')
      (hoperator : operator.Renamed ρ operator') (hbefore : before.Renamed ρ before')
      (hafter : after.Renamed ρ after') :
      Renamed ρ (.filter left right operator before after)
        (.filter left' right' operator' before' after')
  | projection {v v' label label' : Value} (h : v.Renamed ρ v') (hlabel : label.Renamed ρ label') :
      Renamed ρ (.projection v label) (.projection v' label')
  | subSelect {v v' label label' options options' : Value} (h : v.Renamed ρ v')
      (hlabel : label.Renamed ρ label') (hoptions : options.Renamed ρ options') :
      Renamed ρ (.subSelect v label options) (.subSelect v' label' options')
  | union {v v' modifier modifier' options options' : Value} (h : v.Renamed ρ v')
      (hmodifier : modifier.Renamed ρ modifier') (hoptions : options.Renamed ρ options') :
      Renamed ρ (.union v modifier options) (.union v' modifier' options')
  | join (family : JoinKind) {table table' condition condition' label label' kind kind' : Value}
      (htable : table.Renamed ρ table') (hcondition : condition.Renamed ρ condition')
      (hlabel : label.Renamed ρ label') (hkind : kind.Renamed ρ kind') :
      Renamed ρ (.join family table condition label kind)
        (.join family table' condition' label' kind')
  | branch {v v' w w' : Value} (hv : v.Renamed ρ v') (hw : w.Renamed ρ w') :
      Renamed ρ (.branch v w) (.branch v' w')
  | fallback {v v' : Value} (h : v.Renamed ρ v') : Renamed ρ (.fallback v) (.fallback v')
  | choice {name name' branches branches' last last' : Value} (hname : name.Renamed ρ name')
      (hbranches : branches.Renamed ρ branches') (hlast : last.Renamed ρ last') :
      Renamed ρ (.choice name branches last) (.choice name' branches' last')
  | asColumn {v v' : Value} (h : v.Renamed ρ v') : Renamed ρ (.asColumn v) (.asColumn v')
  | ownSubSelect {v v' label label' : Value} (h : v.Renamed ρ v')
      (hlabel : label.Renamed ρ label') :
      Renamed ρ (.ownSubSelect v label) (.ownSubSelect v' label')
  | ownUnion {v v' modifier modifier' : Value} (h : v.Renamed ρ v')
      (hmodifier : modifier.Renamed ρ modifier') :
      Renamed ρ (.ownUnion v modifier) (.ownUnion v' modifier')

/-- The second command is the first one with its parameters renamed. -/
inductive Command.Renamed (ρ : Renaming) : Command → Command → Prop where
  | table {v v' : Value} (h : v.Renamed ρ v') : Renamed ρ (.table v) (.table v')
  | fields {vs vs' : List Value} (h : List.Forall₂ (Value.Renamed ρ) vs vs') :
      Renamed ρ (.fields vs) (.fields vs')
  | filter {left left' right right' operator operator' : Value} (hleft : left.Renamed ρ left')
      (hright : right.Renamed ρ right') (hoperator : operator.Renamed ρ operator') :
      Renamed ρ (.filter left right operator) (.filter left' right' operator')
  | join {args args' : List Value} (h : List.Forall₂ (Value.Renamed ρ) args args') :
      Renamed ρ (.join args) (.join args')
  | limit {v v' : Value} (h : v.Renamed ρ v') : Renamed ρ (.limit v) (.limit v')
  | offset {v v' : Value} (h : v.Renamed ρ v') : Renamed ρ (.offset v) (.offset v')
  | order {vs vs' : List Value} (h : List.Forall₂ (Value.Renamed ρ) vs vs') :
      Renamed ρ (.order vs) (.order vs')
  | groupBy {vs vs' : List Value} (h : List.Forall₂ (Value.Renamed ρ) vs vs') :
      Renamed ρ (.groupBy vs) (.groupBy vs')
  | paranoid {v v' : Value} (h : v.Renamed ρ v') : Renamed ρ (.paranoid v) (.paranoid v')
  | select {vs vs' : List Value} (h : List.Forall₂ (Value.Renamed ρ) vs vs') :
      Renamed ρ (.select vs) (.select vs')
  | delete : Renamed ρ .delete .delete
  | compileSelect {vs vs' : List Value} (h : List.Forall₂ (Value.Renamed ρ) vs vs') :
      Renamed ρ (.compileSelect vs) (.compileSelect vs')
  | compileDelete : Renamed ρ .compileDelete .compileDelete
  | bindings : Renamed ρ .bindings .bindings
  | subSelect {v v' label label' : Value} (h : v.Renamed ρ v') (hlabel : label.Renamed ρ label') :
      Renamed ρ (.subSelect v label) (.subSelect v' label')
  | union {v v' modifier modifier' : Value} (h : v.Renamed ρ v')
      (hmodifier : modifier.Renamed ρ modifier') :
      Renamed ρ (.union v modifier) (.union v' modifier')
  | clampLimit {v v' : Value} (h : v.Renamed ρ v') : Renamed ρ (.clampLimit v) (.clampLimit v')
  | options : Renamed ρ .options .options

open ArgumentReader.Renames in
theorem Constructor.reader_renames (c : Constructor) :
    ArgumentReader.Renames ρ c.reader c.reader (Construction.Renamed ρ) := by
  cases c with
  | column => exact (required _).bind fun _ _ h => .pure (.column h)
  | literal => exact (required _).bind fun _ _ h => .pure (.literal h)
  | null => exact .pure .null
  | raw => exact rest.bind fun _ _ h => .pure (.raw h)
  | cast => exact (required _).bind fun _ _ h => (required _).bind fun _ _ ht => .pure (.cast h ht)
  | function => exact (required _).bind fun _ _ h => rest.bind fun _ _ hs => .pure (.function h hs)
  | group c => exact rest.bind fun _ _ h => .pure (.group c h)
  | filter =>
    exact (required _).bind fun _ _ hleft => (optional _ .null).bind fun _ _ hright =>
      (optional _ (.str _)).bind fun _ _ hoperator => (keyword _ (.str _)).bind fun _ _ hbefore =>
        (keyword _ (.str _)).bind fun _ _ hafter =>
          .pure (.filter hleft hright hoperator hbefore hafter)
  | projection =>
    exact (required _).bind fun _ _ h => (optional _ .null).bind fun _ _ hl =>
      .pure (.projection h hl)
  | subSelect =>
    exact (required _).bind fun _ _ h => (optional _ .null).bind fun _ _ hl =>
      (keyword _ .null).bind fun _ _ ho => .pure (.subSelect h hl ho)
  | union =>
    exact (required _).bind fun _ _ h => (optional _ .null).bind fun _ _ hm =>
      (keyword _ .null).bind fun _ _ ho => .pure (.union h hm ho)
  | unionAll => exact rest.bind fun _ _ h => .pure (.union (.tuple h) (.str _) .null)
  | unionDistinct => exact rest.bind fun _ _ h => .pure (.union (.tuple h) .null .null)
  | join family =>
    exact (required _).bind fun _ _ ht => (optional _ .null).bind fun _ _ hc =>
      (optional _ .null).bind fun _ _ hl => (keyword _ .null).bind fun _ _ hk =>
        .pure (.join family ht hc hl hk)
  | branch =>
    exact (required _).bind fun _ _ hc => (required _).bind fun _ _ hr => .pure (.branch hc hr)
  | fallback => exact (required _).bind fun _ _ h => .pure (.fallback h)
  | choice =>
    exact (required _).bind fun _ _ h => (required _).bind fun _ _ hb =>
      (optional _ .null).bind fun _ _ hl => .pure (.choice h hb hl)
  | asColumn => exact (required _).bind fun _ _ h => .pure (.asColumn h)
  | ownSubSelect =>
    exact (required _).bind fun _ _ h => (optional _ .null).bind fun _ _ hl =>
      .pure (.ownSubSelect h hl)
  | ownUnion =>
    exact (required _).bind fun _ _ h => (optional _ .null).bind fun _ _ hm =>
      .pure (.ownUnion h hm)

open ArgumentReader.Renames in
theorem Method.reader_renames (m : Method) :
    ArgumentReader.Renames ρ m.reader m.reader (Command.Renamed ρ) := by
  cases m with
  | table => exact (required _).bind fun _ _ h => .pure (.table h)
  | fields => exact rest.bind fun _ _ h => .pure (.fields h)
  | filter =>
    exact (required _).bind fun _ _ hleft => (optional _ .null).bind fun _ _ hright =>
      (optional _ (.str _)).bind fun _ _ hoperator => .pure (.filter hleft hright hoperator)
  | join => exact rest.bind fun _ _ h => .pure (.join h)
  | limit => exact (required _).bind fun _ _ h => .pure (.limit h)
  | offset => exact (required _).bind fun _ _ h => .pure (.offset h)
  | order => exact rest.bind fun _ _ h => .pure (.order h)
  | groupBy => exact rest.bind fun _ _ h => .pure (.groupBy h)
  | paranoid => exact (optional _ .null).bind fun _ _ h => .pure (.paranoid h)
  | select => exact rest.bind fun _ _ h => .pure (.select h)
  | delete => exact .pure .delete
  | compileSelect => exact rest.bind fun _ _ h => .pure (.compileSelect h)
  | compileDelete => exact .pure .compileDelete
  | bindings => exact .pure .bindings
  | subSelect =>
    exact (required _).bind fun _ _ h => (optional _ .null).bind fun _ _ hl =>
      .pure (.subSelect h hl)
  | union =>
    exact (required _).bind fun _ _ h => (optional _ .null).bind fun _ _ hm =>
      .pure (.union h hm)
  | clampLimit => exact (required _).bind fun _ _ h => .pure (.clampLimit h)
  | options => exact .pure .options

variable {a a' : Arguments}

/-- With renamed arguments a constructor is asked for a renamed construction. -/
theorem Constructor.construction?_renamed (c : Constructor) (h : Arguments.Renamed ρ a a') :
    Option.Rel (Construction.Renamed ρ) (c.construction? a) (c.construction? a') :=
  c.reader_renames.read? h

/-- With renamed arguments a method is given a renamed command. -/
theorem Method.command?_renamed (m : Method) (h : Arguments.Renamed ρ a a') :
    Option.Rel (Command.Renamed ρ) (m.command? a) (m.command? a') :=
  m.reader_renames.read? h

end BoundSql
