import BoundSql.Proofs.Parts
import BoundSql.Script.Turn

/-!
# Redaction

Redacting a program replaces the data in it by one fixed constant. Data is a constant, or a
collection of constants, in a position where a value is bound and not written: what a literal
holds, an argument of a function, the right side of a comparison, and the values that a field
brings along by hand. Two programs that are the same but for their data become one program.

Redacting a value does the same to what a program makes. All values behind placeholders go, and
so do the values of finished maps; whatever a statement, a message or a decision can depend on
stays. That nothing else depends on the redacted part is what the modules after this one prove.

A `Position` says what is data at a place. A map is no data itself, but as a field it may hold
some, two levels down; hence the two positions for maps.
-/

set_option autoImplicit false

namespace BoundSql

/-- What becomes of a value at a place. -/
inductive Position where
  /-- The value may be written. -/
  | plain
  /-- Whatever is no fragment is bound. -/
  | data
  /-- Whatever is no fragment is bound, and without a value there is nothing to bind. -/
  | operand
  /-- The value is a field, so it may be a call with values bound by hand. -/
  | field
  /-- The value holds the values bound by hand, under their names. -/
  | bound
  deriving DecidableEq

/-- What stands for data. -/
def blank : Value := .int 0

/-- The expression of what stands for data. -/
def blankExpr : Expr := .atom (.int 0)

/-! ## Redacting programs -/

/-- Whether an expression is the given text. -/
def Expr.isText (e : Expr) (s : String) : Bool :=
  match e with
  | .atom (.str t) => t == s
  | _ => false

namespace Position

/-- The values that are bound at a place, and not written. -/
def Binds (p : Position) (v : Value) : Prop :=
  match p with
  | .data => v.fragment? = none
  | .operand => v.fragment? = none ∧ v ≠ .null
  | _ => False

/-- An expression at a place is data: wherever it is evaluated, all it does is to give a value that
is bound there. -/
def Hides (p : Position) (e : Expr) : Prop :=
  ∀ (invoke : Invoke) (self : Nat) (origin : Origin) (s : Session),
    ∃ v, (e.eval invoke self origin).exec s = (.ok v, s) ∧ p.Binds v

open Classical in
/-- An expression at a place, given what becomes of its parts. -/
noncomputable def hide (p : Position) (e redacted : Expr) : Expr :=
  if p.Hides e then blankExpr else redacted

/-- The position of a value in a map. -/
def under (p : Position) (isReplacements : Bool) : Position :=
  match p with
  | .field => if isReplacements then .bound else .plain
  | .bound => .data
  | _ => .plain

/-- A field that is no call is written as it is. -/
def onMap (p : Position) (isCall : Bool) : Position :=
  match p with
  | .field => if isCall then .field else .plain
  | p => p

end Position

/-- The positions of the arguments of a constructor. -/
def Constructor.position : Constructor → Nat → Position
  | .literal, _ => .data
  | .function, i => if i = 0 then .plain else .data
  | .filter, i => if i = 1 then .operand else .plain
  | _, _ => .plain

/-- The positions of the named arguments of a constructor. -/
def Constructor.namedPosition (c : Constructor) (name : String) : Position :=
  match c with
  | .literal => if name = "value" then .data else .plain
  | .filter => if name = "right" then .operand else .plain
  | _ => .plain

/-- The positions of the arguments of a method. -/
def Method.position : Method → Nat → Position
  | .filter, i => if i = 1 then .operand else .plain
  | .fields, _ | .select, _ | .compileSelect, _ => .field
  | _, _ => .plain

/-- The positions of the named arguments of a method. -/
def Method.namedPosition (m : Method) (name : String) : Position :=
  match m with
  | .filter => if name = "right" then .operand else .plain
  | _ => .plain

mutual

/-- An expression at a place, without the data in it. That the expression as a whole may be data is
left to `Position.hide`. -/
noncomputable def Expr.redact : Position → Expr → Expr
  | _, .atom a => .atom a
  | _, .list items => .list (Expr.redactArgs (fun _ => .plain) items)
  | _, .tuple items => .tuple (Expr.redactArgs (fun _ => .plain) items)
  | p, .dict items =>
      .dict (Expr.redactEntries (p.onMap (items.any fun e => e.1.isText "fn_call")) items)
  | _, .options data => .options (data.redact .plain)
  | _, .ref name => .ref name
  | _, .callback c => .callback c.redact
  | _, .call c args named =>
      .call c (Expr.redactArgs c.position args) (Expr.redactNamed c.namedPosition named)
termination_by structural _ e => e

/-- Expressions, each at a place of its own. -/
noncomputable def Expr.redactArgs : (Nat → Position) → List Expr → List Expr
  | _, [] => []
  | place, e :: rest =>
      (place 0).hide e (e.redact (place 0)) :: Expr.redactArgs (fun i => place (i + 1)) rest
termination_by structural _ es => es

/-- Named expressions. -/
noncomputable def Expr.redactNamed : (String → Position) → List (String × Expr) → List (String × Expr)
  | _, [] => []
  | place, e :: rest => Expr.redactNamedOne place e :: Expr.redactNamed place rest
termination_by structural _ es => es

noncomputable def Expr.redactNamedOne : (String → Position) → String × Expr → String × Expr
  | place, (name, e) => (name, (place name).hide e (e.redact (place name)))
termination_by structural _ e => e

/-- The entries of a map at a place. -/
noncomputable def Expr.redactEntries : Position → List (Expr × Expr) → List (Expr × Expr)
  | _, [] => []
  | p, e :: rest => Expr.redactEntry p e :: Expr.redactEntries p rest
termination_by structural _ es => es

noncomputable def Expr.redactEntry : Position → Expr × Expr → Expr × Expr
  | p, (k, v) =>
      (k.redact .plain,
        (p.under (k.isText "replacements")).hide v
          (v.redact (p.under (k.isText "replacements"))))
termination_by structural _ e => e

/-- A step without the data in it. -/
noncomputable def Step.redact : Step → Step
  | .call m args named =>
      .call m (Expr.redactArgs m.position args) (Expr.redactNamed m.namedPosition named)
  | .bind name value => .bind name (value.redact .plain)
termination_by structural s => s

noncomputable def Step.redactAll : List Step → List Step
  | [] => []
  | s :: rest => s.redact :: Step.redactAll rest
termination_by structural ss => ss

noncomputable def Expr.redact? : Option Expr → Option Expr
  | none => none
  | some e => some (e.redact .plain)
termination_by structural e => e

/-- A callback without the data in it. -/
noncomputable def Callback.redact : Callback → Callback
  | ⟨steps, answer, capture⟩ => ⟨Step.redactAll steps, Expr.redact? answer, capture⟩
termination_by structural c => c

end

/-- A turn without the data in it. -/
noncomputable def Turn.redact (t : Turn) : Turn := ⟨t.target, t.step.redact⟩

/-! ## Redacting values -/

namespace Position

/-- What shows of a value that is no fragment. -/
def cover (p : Position) (v : Value) : Value :=
  match p, v with
  | .data, _ => blank
  | .operand, .null => .null
  | .operand, _ => blank
  | _, v => v

end Position

mutual

/-- A value at a place, without the data in it. -/
noncomputable def Value.redact : Position → Value → Value
  | _, .fragment f origin => .fragment f.redact origin
  | p, .list items => p.cover (.list (Value.redactEach items))
  | p, .tuple items => p.cover (.tuple (Value.redactEach items))
  | p, .dict entries =>
      p.cover (.dict (Value.redactEntries
        (p.onMap (Entries.get? Builder.callKey entries).isSome) entries))
  | p, .callback c origin => p.cover (.callback c.redact origin)
  | p, .compiled sql params => p.cover (.compiled sql (Value.redactEntries .plain params))
  | p, v => p.cover v
termination_by structural _ v => v

/-- Values that may be written. -/
noncomputable def Value.redactEach : List Value → List Value
  | [] => []
  | v :: rest => v.redact .plain :: Value.redactEach rest
termination_by structural vs => vs

/-- The entries of a map at a place. -/
noncomputable def Value.redactEntries : Position → List (Value × Value) → List (Value × Value)
  | _, [] => []
  | p, e :: rest => Value.redactEntry p e :: Value.redactEntries p rest
termination_by structural _ es => es

noncomputable def Value.redactEntry : Position → Value × Value → Value × Value
  | p, (k, v) =>
      (k.redact .plain, v.redact (p.under (k == Builder.replacementsKey)))
termination_by structural _ e => e

/-- A finished map: only the keys stay. -/
noncomputable def Value.redactBound : List (Value × Value) → List (Value × Value)
  | [] => []
  | e :: rest => Value.redactBoundOne e :: Value.redactBound rest
termination_by structural es => es

noncomputable def Value.redactBoundOne : Value × Value → Value × Value
  | (k, _) => (k.redact .plain, blank)
termination_by structural e => e

/-- A fragment without the values behind its placeholders. -/
noncomputable def Fragment.redact : Fragment → Fragment
  | .column name => .column name
  | .placeholder p _ => .placeholder p blank
  | .null => .null
  | .raw parts => .raw (Value.redactEach parts)
  | .cast operand type => .cast operand.redact (type.redact .plain)
  | .function name args => .function (name.redact .plain) (Fragment.redactEach args)
  | .filter c => .filter c.redact
  | .projection column label => .projection column.redact (label.redact .plain)
  | .group c conditions => .group c (Value.redactEach conditions)
  | .subSelect s => .subSelect s.redact
  | .union members modifier bound =>
      .union members (modifier.redact .plain) (Value.redactBound bound)
  | .join j => .join j.redact
  | .branch b => .branch b.redact
  | .fallback s => .fallback s.redact
  | .choice name branches fallback =>
      .choice name (Branch.redactEach branches) (SubSelect.redact? fallback)
termination_by structural f => f

noncomputable def Fragment.redactEach : List Fragment → List Fragment
  | [] => []
  | f :: rest => f.redact :: Fragment.redactEach rest
termination_by structural fs => fs

noncomputable def Fragment.redact? : Option Fragment → Option Fragment
  | none => none
  | some f => some f.redact
termination_by structural f => f

noncomputable def Filter.redact : Filter → Filter
  | ⟨left, right, operator, before, after⟩ =>
      ⟨left.redact, Fragment.redact? right, operator.redact .plain, before.redact .plain,
        after.redact .plain⟩
termination_by structural c => c

noncomputable def SubSelect.redact : SubSelect → SubSelect
  | ⟨sql, label, bound⟩ => ⟨sql, label, Value.redactBound bound⟩
termination_by structural s => s

noncomputable def SubSelect.redact? : Option SubSelect → Option SubSelect
  | none => none
  | some s => some s.redact
termination_by structural s => s

noncomputable def Join.redact : Join → Join
  | ⟨family, kind, table, label, condition⟩ =>
      ⟨family, kind.redact .plain, table.redact, label, Fragment.redact? condition⟩
termination_by structural j => j

noncomputable def Branch.redact : Branch → Branch
  | ⟨condition, result⟩ => ⟨condition.redact, result.redact⟩
termination_by structural b => b

noncomputable def Branch.redactEach : List Branch → List Branch
  | [] => []
  | b :: rest => b.redact :: Branch.redactEach rest
termination_by structural bs => bs

end

/-! ## What stays -/

theorem Fragment.redactEach_eq_map (fs : List Fragment) :
    Fragment.redactEach fs = fs.map Fragment.redact := by
  induction fs with
  | nil => rfl
  | cons f rest ih => exact congrArg (f.redact :: ·) ih

theorem Branch.redactEach_eq_map (bs : List Branch) :
    Branch.redactEach bs = bs.map Branch.redact := by
  induction bs with
  | nil => rfl
  | cons b rest ih => exact congrArg (b.redact :: ·) ih

namespace Value

theorem redactEach_eq_map (vs : List Value) : redactEach vs = vs.map (redact .plain) := by
  induction vs with
  | nil => rfl
  | cons v rest ih => exact congrArg (v.redact .plain :: ·) ih

/-- What becomes of the value under a key. -/
noncomputable def redactUnder (p : Position) (k v : Value) : Value :=
  v.redact (p.under (k == Builder.replacementsKey))

theorem redactEntries_eq_mapWith (p : Position) (es : Bindings) :
    redactEntries p es = Entries.mapWith (redact .plain) (redactUnder p) es := by
  induction es with
  | nil => rfl
  | cons e rest ih =>
    obtain ⟨k, v⟩ := e
    show _ :: redactEntries p rest = _
    rw [ih]
    rfl

theorem redactBound_eq_mapWith (es : Bindings) :
    redactBound es = Entries.mapWith (redact .plain) (fun _ _ => blank) es := by
  induction es with
  | nil => rfl
  | cons e rest ih =>
    obtain ⟨k, v⟩ := e
    show _ :: redactBound rest = _
    rw [ih]
    rfl

mutual

/-- A value is the same key after redaction. -/
theorem keyCode?_redact : (v : Value) → (v.redact .plain).keyCode? = v.keyCode?
  | .tuple items => by
    show (do return .tuple (redactEach items).length :: (← keyCodes? (redactEach items))) =
      (do return .tuple items.length :: (← keyCodes? items) : Option (List KeyPart))
    rw [keyCodes?_redactEach items, redactEach_eq_map, List.length_map]
  | .null | .bool _ | .int _ | .float _ | .nan _ | .str _ | .bytes _ | .list _ | .dict _
  | .joinKind _ | .options _ | .callback .. | .fragment .. | .compiled .. => rfl
termination_by structural v => v

theorem keyCodes?_redactEach : (vs : List Value) → keyCodes? (redactEach vs) = keyCodes? vs
  | [] => rfl
  | v :: rest => by
    show (do return (← (v.redact .plain).keyCode?) ++ (← keyCodes? (redactEach rest))) =
      (do return (← v.keyCode?) ++ (← keyCodes? rest) : Option (List KeyPart))
    rw [keyCode?_redact v, keyCodes?_redactEach rest]
termination_by structural vs => vs

end

@[simp] theorem isKey_redact (v : Value) : (v.redact .plain).isKey = v.isKey := by
  rw [isKey, keyCode?_redact, isKey]

@[simp] theorem redact_beq (v w : Value) : (v.redact .plain == w) = (v == w) := by
  rw [Bool.eq_iff_iff, beq_iff, beq_iff, keyCode?_redact]

@[simp] theorem beq_redact (v w : Value) : (v == w.redact .plain) = (v == w) := by
  rw [Bool.eq_iff_iff, beq_iff, beq_iff, keyCode?_redact]

theorem redactUnder_eq (p : Position) (j k : Value) (h : (j == k) = true) :
    redactUnder p j = redactUnder p k := by
  have hjk : (j == Builder.replacementsKey) = (k == Builder.replacementsKey) := by
    rw [Bool.eq_iff_iff, beq_iff, beq_iff, (beq_iff j k).mp h]
  funext v
  rw [redactUnder, hjk, redactUnder]

theorem redact_beq_redact (j k : Value) : (j.redact .plain == k.redact .plain) = (j == k) := by
  rw [redact_beq, beq_redact]

theorem get?_redactEntries (p : Position) (s : String) (es : Bindings) :
    Entries.get? (.str s) (redactEntries p es) =
      (Entries.get? (.str s) es).map (redactUnder p (.str s)) := by
  rw [redactEntries_eq_mapWith]
  exact Entries.get?_mapWith redact_beq_redact (redactUnder_eq p) (.str s) es

theorem insert_redactEntries (p : Position) (k v : Value) (es : Bindings) :
    Entries.insert (k.redact .plain) (redactUnder p k v) (redactEntries p es) =
      redactEntries p (Entries.insert k v es) := by
  rw [redactEntries_eq_mapWith, redactEntries_eq_mapWith]
  exact Entries.insert_mapWith redact_beq_redact (redactUnder_eq p) k v es

theorem merge_redactBound (xs ys : Bindings) :
    Entries.merge (redactBound xs) (redactBound ys) = redactBound (Entries.merge xs ys) := by
  simp only [redactBound_eq_mapWith]
  exact Entries.merge_mapWith redact_beq_redact (fun _ _ _ => rfl) xs ys

theorem mergeAll_redactBound (maps : List Bindings) :
    Entries.mergeAll (maps.map redactBound) = redactBound (Entries.mergeAll maps) := by
  have hmap : redactBound = Entries.mapWith (redact .plain) fun _ _ => blank :=
    funext redactBound_eq_mapWith
  rw [hmap]
  exact Entries.mergeAll_mapWith redact_beq_redact (fun _ _ _ => rfl) maps

end Value

/-! ## What is alike at one place is alike at another

Two values that may be written and look the same after redaction look the same wherever they
stand. A place makes a difference of two levels at most, so no induction is needed.
-/

namespace Value

theorem isSome_call_of_redactEntries {p p' : Position} {es es' : Bindings}
    (h : redactEntries p es = redactEntries p' es') :
    (Entries.get? Builder.callKey es).isSome = (Entries.get? Builder.callKey es').isSome := by
  have hget := congrArg (fun m => (Entries.get? Builder.callKey m).isSome) h
  simpa only [Builder.callKey, get?_redactEntries, Option.isSome_map] using hget

/-- Entries are alike at a place if their values are alike one level down. -/
theorem redactEntries_congr {p : Position}
    (hv : ∀ (b : Bool) {v w : Value}, v.redact .plain = w.redact .plain →
      v.redact (p.under b) = w.redact (p.under b)) {es es' : Bindings}
    (h : redactEntries .plain es = redactEntries .plain es') :
    redactEntries p es = redactEntries p es' := by
  induction es generalizing es' with
  | nil =>
    cases es' with
    | nil => rfl
    | cons _ _ => cases h
  | cons e rest ih =>
    cases es' with
    | nil => cases h
    | cons e' rest' =>
      obtain ⟨k, v⟩ := e
      obtain ⟨k', v'⟩ := e'
      obtain ⟨he, hrest⟩ := List.cons.inj h
      obtain ⟨hkey, hvalue⟩ := Prod.mk.inj he
      have hbeq : (k == Builder.replacementsKey) = (k' == Builder.replacementsKey) := by
        rw [← redact_beq k, hkey, redact_beq k']
      show (k.redact .plain, redactUnder p k v) :: redactEntries p rest = _
      rw [hkey, redactUnder, hbeq, hv _ hvalue, ih hrest]
      rfl

theorem redact_congr_of_entries {p : Position}
    (hentries : ∀ (c : Bool) {es es' : Bindings},
      redactEntries .plain es = redactEntries .plain es' →
      redactEntries (p.onMap c) es = redactEntries (p.onMap c) es')
    {v w : Value} (h : v.redact .plain = w.redact .plain) : v.redact p = w.redact p := by
  cases v with
  | dict es =>
    cases w with
    | dict es' =>
      have hes := Value.dict.inj h
      show p.cover (.dict (redactEntries _ es)) = p.cover (.dict (redactEntries _ es'))
      rw [isSome_call_of_redactEntries hes, hentries _ hes]
    | _ => cases h
  | fragment f origin =>
    cases w with
    | fragment f' origin' => exact h
    | _ => cases h
  | _ =>
    cases w with
    | dict _ | fragment _ _ => cases h
    | _ => exact congrArg p.cover h

/-- Only a map looks another way where it is a field or holds values bound by hand. -/
theorem redact_eq_plain {p : Position} (hp : p = .field ∨ p = .bound) {v : Value}
    (hv : ∀ es, v ≠ .dict es) : v.redact p = v.redact .plain := by
  rcases hp with rfl | rfl <;> cases v with
  | dict es => exact absurd rfl (hv es)
  | _ => rfl

/-- **What may be written and is alike is alike at every place.** -/
theorem redact_congr (p : Position) {v w : Value} (h : v.redact .plain = w.redact .plain) :
    v.redact p = w.redact p := by
  have data : ∀ {v w : Value}, v.redact .plain = w.redact .plain →
      v.redact .data = w.redact .data :=
    redact_congr_of_entries fun _ => redactEntries_congr fun _ => id
  have bound : ∀ {v w : Value}, v.redact .plain = w.redact .plain →
      v.redact .bound = w.redact .bound :=
    redact_congr_of_entries fun _ => redactEntries_congr fun _ => data
  cases p with
  | plain => exact h
  | data => exact data h
  | operand => exact redact_congr_of_entries (fun _ => redactEntries_congr fun _ => id) h
  | bound => exact bound h
  | field =>
    refine redact_congr_of_entries (fun c => ?_) h
    cases c with
    | false => exact id
    | true =>
      refine redactEntries_congr fun b => ?_
      cases b with
      | false => exact id
      | true => exact bound

end Value

end BoundSql
