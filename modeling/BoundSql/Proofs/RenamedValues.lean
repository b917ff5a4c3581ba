import BoundSql.Fragment.Bindings
import BoundSql.Fragment.Construction
import BoundSql.Options.Limit
import BoundSql.Proofs.Parts
import BoundSql.Proofs.Renaming

/-!
# Renamed values

A value is renamed by renaming the placeholders of the fragments in it and the texts of the nested
statements in it; all else is the same. In a value that holds no fragment there is nothing to rename
(`Value.Renamed.eq_of_fragments`).

Results are related by `Renaming.Results`. Faults are the same; only the fault of options that are
not acceptable shows keys that may be fragments, and these are shown renamed.
-/

set_option autoImplicit false

namespace BoundSql

/-! ## What renaming does to a value -/

mutual

/-- The second value is the first one, renamed. A rendered statement is an answer and part of no
value; what becomes of it is said by `Reply.Renamed`. -/
inductive Value.Renamed (ρ : Renaming) : Value → Value → Prop where
  | null : Value.Renamed ρ .null .null
  | bool (b : Bool) : Value.Renamed ρ (.bool b) (.bool b)
  | int (n : Int) : Value.Renamed ρ (.int n) (.int n)
  | float (x : Binary64) : Value.Renamed ρ (.float x) (.float x)
  | nan (origin : Origin) : Value.Renamed ρ (.nan origin) (.nan origin)
  | str (s : String) : Value.Renamed ρ (.str s) (.str s)
  | bytes (bytes : List UInt8) : Value.Renamed ρ (.bytes bytes) (.bytes bytes)
  | list {items items' : List Value} (h : List.Forall₂ (Value.Renamed ρ) items items') :
      Value.Renamed ρ (.list items) (.list items')
  | tuple {items items' : List Value} (h : List.Forall₂ (Value.Renamed ρ) items items') :
      Value.Renamed ρ (.tuple items) (.tuple items')
  | dict {entries entries' : List (Value × Value)}
      (h : List.Forall₂ (Value.RenamedEntry ρ) entries entries') :
      Value.Renamed ρ (.dict entries) (.dict entries')
  | joinKind (k : JoinKind) : Value.Renamed ρ (.joinKind k) (.joinKind k)
  | options (o : Options) : Value.Renamed ρ (.options o) (.options o)
  | callback (c : Callback) (origin : Origin) :
      Value.Renamed ρ (.callback c origin) (.callback c origin)
  | fragment {f f' : Fragment} (h : Fragment.Renamed ρ f f') (origin : Origin) :
      Value.Renamed ρ (.fragment f origin) (.fragment f' origin)

/-- An entry of a map, renamed. -/
inductive Value.RenamedEntry (ρ : Renaming) : Value × Value → Value × Value → Prop where
  | mk {k k' v v' : Value} (hk : Value.Renamed ρ k k') (hv : Value.Renamed ρ v v') :
      Value.RenamedEntry ρ (k, v) (k', v')

/-- A value under a name, with the name renamed. -/
inductive Value.RenamedBinding (ρ : Renaming) : Value × Value → Value × Value → Prop where
  | mk {p p' : Placeholder} (hp : ρ.Pairs p p') {v v' : Value} (hv : Value.Renamed ρ v v') :
      Value.RenamedBinding ρ (.str p.name, v) (.str p'.name, v')

/-- The second fragment is the first one, renamed. -/
inductive Fragment.Renamed (ρ : Renaming) : Fragment → Fragment → Prop where
  | column (name : String) : Fragment.Renamed ρ (.column name) (.column name)
  | placeholder {p p' : Placeholder} (hp : ρ.Pairs p p') {v v' : Value}
      (hv : Value.Renamed ρ v v') : Fragment.Renamed ρ (.placeholder p v) (.placeholder p' v')
  | null : Fragment.Renamed ρ .null .null
  | raw {parts parts' : List Value} (h : List.Forall₂ (Value.Renamed ρ) parts parts') :
      Fragment.Renamed ρ (.raw parts) (.raw parts')
  | cast {f f' : Fragment} (hf : Fragment.Renamed ρ f f') {type type' : Value}
      (htype : Value.Renamed ρ type type') : Fragment.Renamed ρ (.cast f type) (.cast f' type')
  | function {name name' : Value} (hname : Value.Renamed ρ name name') {args args' : List Fragment}
      (hargs : List.Forall₂ (Fragment.Renamed ρ) args args') :
      Fragment.Renamed ρ (.function name args) (.function name' args')
  | filter {c c' : Filter} (h : Filter.Renamed ρ c c') : Fragment.Renamed ρ (.filter c) (.filter c')
  | projection {f f' : Fragment} (hf : Fragment.Renamed ρ f f') {label label' : Value}
      (hlabel : Value.Renamed ρ label label') :
      Fragment.Renamed ρ (.projection f label) (.projection f' label')
  | group (c : Connective) {conditions conditions' : List Value}
      (h : List.Forall₂ (Value.Renamed ρ) conditions conditions') :
      Fragment.Renamed ρ (.group c conditions) (.group c conditions')
  | subSelect {s s' : SubSelect} (h : SubSelect.Renamed ρ s s') :
      Fragment.Renamed ρ (.subSelect s) (.subSelect s')
  | union {texts texts' : List String} (htexts : List.Forall₂ ρ.Texts texts texts')
      {modifier modifier' : Value} (hmodifier : Value.Renamed ρ modifier modifier')
      {bound bound' : List (Value × Value)}
      (hbound : List.Forall₂ (Value.RenamedBinding ρ) bound bound') :
      Fragment.Renamed ρ (.union texts modifier bound) (.union texts' modifier' bound')
  | join {j j' : Join} (h : Join.Renamed ρ j j') : Fragment.Renamed ρ (.join j) (.join j')
  | branch {b b' : Branch} (h : Branch.Renamed ρ b b') : Fragment.Renamed ρ (.branch b) (.branch b')
  | fallback {s s' : SubSelect} (h : SubSelect.Renamed ρ s s') :
      Fragment.Renamed ρ (.fallback s) (.fallback s')
  | choice (name : String) {branches branches' : List Branch}
      (hbranches : List.Forall₂ (Branch.Renamed ρ) branches branches')
      {last last' : Option SubSelect} (hlast : Option.Rel (SubSelect.Renamed ρ) last last') :
      Fragment.Renamed ρ (.choice name branches last) (.choice name branches' last')

/-- A comparison, renamed. -/
inductive Filter.Renamed (ρ : Renaming) : Filter → Filter → Prop where
  | mk {left left' : Fragment} (hleft : Fragment.Renamed ρ left left')
      {right right' : Option Fragment} (hright : Option.Rel (Fragment.Renamed ρ) right right')
      {operator operator' : Value} (hoperator : Value.Renamed ρ operator operator')
      {before before' : Value} (hbefore : Value.Renamed ρ before before')
      {after after' : Value} (hafter : Value.Renamed ρ after after') :
      Filter.Renamed ρ ⟨left, right, operator, before, after⟩
        ⟨left', right', operator', before', after'⟩

/-- A nested statement, renamed. -/
inductive SubSelect.Renamed (ρ : Renaming) : SubSelect → SubSelect → Prop where
  | mk {sql sql' : String} (hsql : ρ.Texts sql sql') (label : Option String)
      {bound bound' : List (Value × Value)}
      (hbound : List.Forall₂ (Value.RenamedBinding ρ) bound bound') :
      SubSelect.Renamed ρ ⟨sql, label, bound⟩ ⟨sql', label, bound'⟩

/-- A join, renamed. -/
inductive Join.Renamed (ρ : Renaming) : Join → Join → Prop where
  | mk (family : JoinKind) {kind kind' : Value} (hkind : Value.Renamed ρ kind kind')
      {table table' : Fragment} (htable : Fragment.Renamed ρ table table') (label : Option String)
      {condition condition' : Option Fragment}
      (hcondition : Option.Rel (Fragment.Renamed ρ) condition condition') :
      Join.Renamed ρ ⟨family, kind, table, label, condition⟩
        ⟨family, kind', table', label, condition'⟩

/-- A branch, renamed. -/
inductive Branch.Renamed (ρ : Renaming) : Branch → Branch → Prop where
  | mk {c c' : Filter} (hc : Filter.Renamed ρ c c') {s s' : SubSelect}
      (hs : SubSelect.Renamed ρ s s') : Branch.Renamed ρ ⟨c, s⟩ ⟨c', s'⟩

end

/-- Values under names, with the names renamed. -/
abbrev Bindings.Renamed (ρ : Renaming) : Bindings → Bindings → Prop :=
  List.Forall₂ (Value.RenamedBinding ρ)

variable {ρ : Renaming}

theorem Value.Renamed.atom (a : Atom) (origin : Origin) :
    Value.Renamed ρ (a.value origin) (a.value origin) := by
  cases a <;> constructor

theorem Value.RenamedEntry.key {e e' : Value × Value} (h : Value.RenamedEntry ρ e e') :
    e.1.Renamed ρ e'.1 := by
  cases h with
  | mk hk _ => exact hk

/-! ## Results -/

/-- What is wrong with an option, with the key renamed that it shows. -/
structure Options.Issue.Renamed (ρ : Renaming) (issue issue' : Options.Issue) : Prop where
  cause : issue.cause = issue'.cause
  key : Option.Rel ρ.Texts issue.key issue'.key

theorem Options.Issue.Renamed.refl (issue : Options.Issue) : issue.Renamed ρ issue := by
  refine ⟨rfl, ?_⟩
  cases issue.key with
  | none => exact .none
  | some key => exact .some (.refl key)

/-- A fault, renamed. -/
inductive Fault.Renamed (ρ : Renaming) : Fault → Fault → Prop where
  | same (fault : Fault) : Renamed ρ fault fault
  | badOptions {issues issues' : List Options.Issue}
      (h : List.Forall₂ (Options.Issue.Renamed ρ) issues issues') :
      Renamed ρ (.badOptions issues) (.badOptions issues')

/-- Two results: `Q` relates them, or they are a fault and that fault renamed. -/
inductive Renaming.Results (ρ : Renaming) {α β : Type} (Q : α → β → Prop) :
    Except Fault α → Except Fault β → Prop where
  | ok {x : α} {y : β} (h : Q x y) : Results ρ Q (.ok x) (.ok y)
  | error {fault fault' : Fault} (h : Fault.Renamed ρ fault fault') :
      Results ρ Q (.error fault) (.error fault')

namespace Renaming.Results

variable {α β γ δ : Type} {Q : α → β → Prop} {R : γ → δ → Prop} {r : Except Fault α}
  {r' : Except Fault β}

theorem fault (fault : Fault) : ρ.Results Q (.error fault) (.error fault) := .error (.same fault)

theorem mono {P : α → β → Prop} (h : ρ.Results Q r r') (hP : ∀ x y, Q x y → P x y) :
    ρ.Results P r r' := by
  cases h with
  | ok h => exact .ok (hP _ _ h)
  | error h => exact .error h

theorem bind {f : α → Except Fault γ} {f' : β → Except Fault δ} (h : ρ.Results Q r r')
    (hf : ∀ x y, Q x y → ρ.Results R (f x) (f' y)) : ρ.Results R (r >>= f) (r' >>= f') := by
  cases h with
  | ok h => exact hf _ _ h
  | error h => exact .error h

theorem map {f : α → γ} {f' : β → δ} (h : ρ.Results Q r r') (hf : ∀ x y, Q x y → R (f x) (f' y)) :
    ρ.Results R (f <$> r) (f' <$> r') := by
  cases h with
  | ok h => exact .ok (hf _ _ h)
  | error h => exact .error h

theorem mapM {ι κ : Type} {P : ι → κ → Prop} {f : ι → Except Fault α} {f' : κ → Except Fault β}
    {xs : List ι} {ys : List κ} (h : List.Forall₂ P xs ys)
    (hf : ∀ x y, P x y → ρ.Results Q (f x) (f' y)) :
    ρ.Results (List.Forall₂ Q) (xs.mapM f) (ys.mapM f') := by
  induction h with
  | nil =>
    rw [List.mapM_nil, List.mapM_nil]
    exact .ok .nil
  | cons h _ ih =>
    rw [List.mapM_cons, List.mapM_cons]
    exact (hf _ _ h).bind fun _ _ hx => ih.bind fun _ _ hxs => .ok (.cons hx hxs)

/-- A result that is the same on both sides. -/
theorem refl {Q : α → α → Prop} (hQ : ∀ x, Q x x) (r : Except Fault α) : ρ.Results Q r r := by
  cases r with
  | ok x => exact .ok (hQ x)
  | error fault => exact .fault fault

end Renaming.Results

/-! ## What does not show -/

section Shape

variable {v v' : Value} {f f' : Fragment}

theorem Join.Renamed.family_eq {j j' : Join} (h : j.Renamed ρ j') : j'.family = j.family := by
  cases h
  rfl

theorem Fragment.Renamed.className_eq (h : f.Renamed ρ f') : f'.className = f.className := by
  cases h with
  | join h => exact congrArg JoinKind.className h.family_eq
  | group c _ => cases c <;> rfl
  | _ => rfl

theorem Value.Renamed.typeName_eq (h : v.Renamed ρ v') : v'.typeName = v.typeName := by
  cases h with
  | fragment h _ => exact h.className_eq
  | _ => rfl

theorem isEmpty_eq_of_forall₂ {α β : Type} {Q : α → β → Prop} {xs : List α} {ys : List β}
    (h : List.Forall₂ Q xs ys) : ys.isEmpty = xs.isEmpty := by
  cases h <;> rfl

theorem eq_none_of_rel {α β : Type} {Q : α → β → Prop} {y : Option β}
    (h : Option.Rel Q none y) : y = none := by
  cases h
  rfl

theorem exists_of_rel_some {α β : Type} {Q : α → β → Prop} {a : α} {y : Option β}
    (h : Option.Rel Q (some a) y) : ∃ b, y = some b ∧ Q a b := by
  cases h with
  | some h => exact ⟨_, rfl, h⟩

theorem Value.Renamed.isTruthy_eq (h : v.Renamed ρ v') : v'.isTruthy = v.isTruthy := by
  cases h with
  | list h | tuple h | dict h => exact congrArg Bool.not (isEmpty_eq_of_forall₂ h)
  | fragment h _ =>
    cases h with
    | group _ h => exact congrArg Bool.not (isEmpty_eq_of_forall₂ h)
    | _ => rfl
  | _ => rfl

theorem Value.Renamed.toOption (h : v.Renamed ρ v') :
    Option.Rel (Value.Renamed ρ) v.toOption v'.toOption := by
  cases h with
  | null => exact .none
  | _ => exact .some (by constructor <;> assumption)

mutual

/-- Names play no part in what is the same key: a fragment is the same key as itself only. -/
theorem Value.Renamed.keyCode?_eq : {v v' : Value} → v.Renamed ρ v' → v'.keyCode? = v.keyCode?
  | _, _, .tuple h => by
    rw [Value.keyCode?, Value.keyCode?, Value.keyCodes?_renamed h, h.length_eq]
  | _, _, .list _ | _, _, .dict _ | _, _, .fragment _ _ => rfl
  | _, _, .null | _, _, .bool _ | _, _, .int _ | _, _, .float _ | _, _, .nan _ | _, _, .str _
  | _, _, .bytes _ | _, _, .joinKind _ | _, _, .options _ | _, _, .callback _ _ => rfl

theorem Value.keyCodes?_renamed : {vs vs' : List Value} →
    List.Forall₂ (Value.Renamed ρ) vs vs' → Value.keyCodes? vs' = Value.keyCodes? vs
  | _, _, .nil => rfl
  | _, _, .cons h hs => by
    rw [Value.keyCodes?, Value.keyCodes?, h.keyCode?_eq, Value.keyCodes?_renamed hs]

end

theorem Value.Renamed.isKey_eq (h : v.Renamed ρ v') : v'.isKey = v.isKey :=
  congrArg Option.isSome h.keyCode?_eq

theorem Value.Renamed.beq_eq (h : v.Renamed ρ v') {w w' : Value} (hw : w.Renamed ρ w') :
    (v' == w') = (v == w) := by
  change (v'.keyCode? == w'.keyCode?) = (v.keyCode? == w.keyCode?)
  rw [h.keyCode?_eq, hw.keyCode?_eq]

mutual

/-- **In a value without fragments nothing is renamed.** -/
theorem Value.Renamed.eq_of_fragments : {v v' : Value} → v.Renamed ρ v' → v.fragments = [] → v' = v
  | _, _, .list h, hv => by
    rw [Value.eq_of_fragmentsEach h hv]
  | _, _, .tuple h, hv => by
    rw [Value.eq_of_fragmentsEach h hv]
  | _, _, .dict h, hv => by
    rw [Value.eq_of_fragmentsEntries h hv]
  | _, _, .fragment _ _, hv => by cases hv
  | _, _, .null, _ | _, _, .bool _, _ | _, _, .int _, _ | _, _, .float _, _ | _, _, .nan _, _
  | _, _, .str _, _ | _, _, .bytes _, _ | _, _, .joinKind _, _ | _, _, .options _, _
  | _, _, .callback _ _, _ => rfl

theorem Value.eq_of_fragmentsEach : {vs vs' : List Value} →
    List.Forall₂ (Value.Renamed ρ) vs vs' → Value.fragmentsEach vs = [] → vs' = vs
  | _, _, .nil, _ => rfl
  | _, _, .cons h hs, hvs => by
    obtain ⟨hv, hrest⟩ := List.append_eq_nil_iff.mp hvs
    rw [h.eq_of_fragments hv, Value.eq_of_fragmentsEach hs hrest]

theorem Value.eq_of_fragmentsEntries : {es es' : List (Value × Value)} →
    List.Forall₂ (Value.RenamedEntry ρ) es es' → Value.fragmentsEntries es = [] → es' = es
  | _, _, .nil, _ => rfl
  | _, _, .cons (.mk hk hv) hs, hes => by
    obtain ⟨he, hrest⟩ := List.append_eq_nil_iff.mp hes
    obtain ⟨hk', hv'⟩ := List.append_eq_nil_iff.mp he
    rw [hk.eq_of_fragments hk', hv.eq_of_fragments hv', Value.eq_of_fragmentsEntries hs hrest]

end

end Shape

end BoundSql
