import BoundSql.Fragment.Text
import BoundSql.Number.Numeral
import BoundSql.Value.Sequence

/-!
# Validation of options

Options are read from a map. Each option has a rule of its own that says which values it takes
and what it makes of them; a key that is no option is an issue too. All issues are reported
together, those of the options in the order in which options are declared and then those of the
keys in the order of the map. That the two limits agree is looked at only when there is no
other issue.
-/

set_option autoImplicit false

namespace BoundSql.Options

/-! ## The rule of each option -/

/-- The text that bytes encode. -/
def textOfBytes? (bytes : List UInt8) : Option String :=
  String.fromUTF8? ⟨bytes.toArray⟩

/-- A limit counts rows, so it is not negative. -/
def limitOfInt (n : Int) : Except IssueCause (Option Nat) :=
  if 0 ≤ n then .ok (some n.toNat) else .error .negativeLimit

/-- A limit in a text. -/
def limitOfText (s : String) : Except IssueCause (Option Nat) :=
  match Numeral.read s with
  | .ok n => limitOfInt n
  | .error .malformed => .error .limitNotReadable
  | .error .tooLong => .error .limitTooLarge

/-- A limit in a float: a whole number of less than 64 bits. -/
def limitOfFloat (x : Binary64) : Except IssueCause (Option Nat) :=
  match x with
  | .infinite _ => .error .limitNotFinite
  | .finite .. =>
      match x.toInt? with
      | none => .error .limitFractional
      | some n => if n.natAbs < Nat.pow 2 63 then limitOfInt n else .error .limitTooLarge

/-- A limit is absent, or a whole number in any of its spellings. A direction stands for its
keywords, which are no number of any size. -/
def limitRule : Value → Except IssueCause (Option Nat)
  | .null => .ok none
  | .bool b => limitOfInt (Value.boolNumber b)
  | .int n => limitOfInt n
  | .float x => limitOfFloat x
  | .nan _ => .error .limitNotFinite
  | .str s => limitOfText s
  | .bytes b =>
      match textOfBytes? b with
      | some s => limitOfText s
      | none => .error .limitNotReadable
  | .joinKind _ => .error .limitTooLarge
  | _ => .error .limitNotNumeric

/-- A column has a name. -/
def columnOfText (s : String) : Except IssueCause String :=
  if s.isEmpty then .error .columnEmpty else .ok s

/-- A column is a text that is not empty. A direction stands for its keywords. -/
def columnRule : Value → Except IssueCause String
  | .str s => columnOfText s
  | .bytes b =>
      match textOfBytes? b with
      | some s => columnOfText s
      | none => .error .columnNotReadable
  | .joinKind k => columnOfText k.pairText
  | _ => .error .columnNotText

/-! ## All options -/

/-- The names of the options in the order of their declaration. -/
def names : List String := ["paranoid_column", "default_limit", "max_limit"]

/-- One option: what its rule makes of the value in the map, or else its default. -/
def option {α : Type} (name : String) (rule : Value → Except IssueCause α) (default : α)
    (data : Bindings) : Except Issue α :=
  match Entries.get? (.str name) data with
  | none => .ok default
  | some v => (rule v).mapError fun cause => ⟨some name, cause⟩

/-- How an issue names a key that is no text: as it is shown inside another value, or by its type
if it cannot be shown. -/
def keyText : Value → String
  | .bool b => Int.repr (Value.boolNumber b)
  | v => v.quoted.toOption.getD ("<unprintable " ++ v.typeName ++ " object>")

/-- The issue of a key, if it has one. -/
def keyIssue? : Value → Option Issue
  | .str s => if names.contains s then none else some ⟨some s, .unknownKey⟩
  | v => some ⟨some (keyText v), .keyNotText⟩

/-- The issue of one option, if it has one. -/
def issueOf {α : Type} : Except Issue α → List Issue
  | .ok _ => []
  | .error issue => [issue]

/-- The options that agree with each other. -/
def agreeing (o : Options) : Except (List Issue) Options :=
  match o.defaultLimit, o.maxLimit with
  | some d, some m => if d ≤ m then .ok o else .error [⟨none, .limitsDisagree d m⟩]
  | _, _ => .ok o

/-- The options that a map describes, or everything that is wrong with them. -/
def validate (data : Bindings) : Except (List Issue) Options :=
  let column := option "paranoid_column" columnRule default.paranoidColumn data
  let defaultLimit := option "default_limit" limitRule default.defaultLimit data
  let maxLimit := option "max_limit" limitRule default.maxLimit data
  let keyIssues := data.filterMap fun e => keyIssue? e.1
  match column, defaultLimit, maxLimit, keyIssues with
  | .ok column, .ok defaultLimit, .ok maxLimit, [] => agreeing ⟨column, defaultLimit, maxLimit⟩
  | _, _, _, _ => .error (issueOf column ++ issueOf defaultLimit ++ issueOf maxLimit ++ keyIssues)

/-- The options that a value describes. -/
def ofValue (v : Value) : Except Fault Options := do
  let data ← Bindings.ofValue v
  (validate data).mapError .badOptions

/-! ## What is accepted -/

/-- Bytes are read as the text that they encode. -/
theorem textOfBytes?_eq_some_iff {bytes : List UInt8} {s : String} :
    textOfBytes? bytes = some s ↔ bytes = s.toUTF8.data.toList := by
  unfold textOfBytes? String.fromUTF8?
  constructor
  · intro h
    split at h
    · cases h
      rfl
    · cases h
  · rintro rfl
    exact dif_pos s.isValidUTF8

/-- The text that a value is for a column: it is the text itself, or bytes that encode it, or a
direction with these keywords. -/
inductive ColumnText : Value → String → Prop
  | str (s : String) : ColumnText (.str s) s
  | bytes (s : String) : ColumnText (.bytes s.toUTF8.data.toList) s
  | direction (k : JoinKind) : ColumnText (.joinKind k) k.pairText

theorem columnOfText_eq_ok_iff {s t : String} : columnOfText s = .ok t ↔ s = t ∧ t ≠ "" := by
  unfold columnOfText
  split
  · rename_i hempty
    obtain rfl := String.isEmpty_iff.mp hempty
    constructor
    · rintro ⟨⟩
    · rintro ⟨rfl, hne⟩
      exact absurd rfl hne
  · rename_i hne
    rw [String.isEmpty_iff] at hne
    constructor
    · rintro ⟨⟩
      exact ⟨rfl, hne⟩
    · rintro ⟨rfl, -⟩
      rfl

/-- **A column is taken exactly if it is a text, and not the empty one.** -/
theorem columnRule_eq_ok_iff {v : Value} {s : String} :
    columnRule v = .ok s ↔ ColumnText v s ∧ s ≠ "" := by
  constructor
  · intro h
    cases v with
    | str t =>
      obtain ⟨rfl, hne⟩ := columnOfText_eq_ok_iff.mp h
      exact ⟨.str t, hne⟩
    | bytes b =>
      cases hb : textOfBytes? b with
      | none =>
        simp only [columnRule, hb] at h
        cases h
      | some t =>
        simp only [columnRule, hb] at h
        obtain rfl := textOfBytes?_eq_some_iff.mp hb
        obtain ⟨rfl, hne⟩ := columnOfText_eq_ok_iff.mp h
        exact ⟨.bytes t, hne⟩
    | joinKind k =>
      obtain ⟨rfl, hne⟩ := columnOfText_eq_ok_iff.mp h
      exact ⟨.direction k, hne⟩
    | _ => cases h
  · rintro ⟨htext, hne⟩
    cases htext with
    | str => exact columnOfText_eq_ok_iff.mpr ⟨rfl, hne⟩
    | bytes =>
      simp only [columnRule, textOfBytes?_eq_some_iff.mpr rfl]
      exact columnOfText_eq_ok_iff.mpr ⟨rfl, hne⟩
    | direction => exact columnOfText_eq_ok_iff.mpr ⟨rfl, hne⟩

theorem agreeing_eq_ok_iff (o p : Options) :
    agreeing o = .ok p ↔ p = o ∧ o.limitsAgree = true := by
  unfold agreeing limitsAgree
  split
  · split <;> simp_all [eq_comm]
  · simp [eq_comm]

end BoundSql.Options
