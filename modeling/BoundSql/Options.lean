import BoundSql.Number.Decimal

/-!
# Options of a builder

Guard rails for the statements that a builder renders: the column that marks deleted rows, the
limit of a statement that sets none, and the greatest limit that a statement may set. What is
wrong with given option values is a list of issues, each with a place and a cause.
-/

set_option autoImplicit false

namespace BoundSql

/-- The options that a builder and the builders nested in it share. -/
structure Options where
  /-- The column that tells whether a row counts as deleted. -/
  paranoidColumn : String
  /-- The limit of a statement whose builder was given none. -/
  defaultLimit : Option Nat
  /-- The greatest limit. -/
  maxLimit : Option Nat
  deriving DecidableEq, Repr

namespace Options

/-- The options of a builder that was given none. -/
def default : Options := ⟨"deleted_at", none, none⟩

/-- The default limit, where both limits are set, keeps to the greatest one. -/
def limitsAgree (o : Options) : Bool :=
  match o.defaultLimit, o.maxLimit with
  | some d, some m => d ≤ m
  | _, _ => true

/-- What makes options acceptable: a column with a name, and limits that agree. -/
def Acceptable (o : Options) : Prop := o.paranoidColumn ≠ "" ∧ o.limitsAgree = true

instance (o : Options) : Decidable o.Acceptable := inferInstanceAs (Decidable (_ ∧ _))

theorem default_acceptable : default.Acceptable := by decide

theorem limitsAgree_iff (o : Options) :
    o.limitsAgree = true ↔
      ∀ d m, o.defaultLimit = some d → o.maxLimit = some m → d ≤ m := by
  unfold limitsAgree
  split <;> simp_all

/-! ## Issues -/

/-- What is wrong with one option value. -/
inductive IssueCause where
  | negativeLimit
  | limitNotReadable
  | limitNotNumeric
  | limitFractional
  | limitNotFinite
  | limitTooLarge
  | columnNotText
  | columnNotReadable
  | columnEmpty
  | unknownKey
  | keyNotText
  | limitsDisagree (default max : Nat)
  deriving DecidableEq, Repr

/-- A cause and the key it concerns; none if it concerns all options together. -/
structure Issue where
  key : Option String
  cause : IssueCause
  deriving DecidableEq, Repr

/-- The code of a cause. -/
def IssueCause.code : IssueCause → String
  | .negativeLimit => "greater_than_equal"
  | .limitNotReadable => "int_parsing"
  | .limitNotNumeric => "int_type"
  | .limitFractional => "int_from_float"
  | .limitNotFinite => "finite_number"
  | .limitTooLarge => "int_parsing_size"
  | .columnNotText => "string_type"
  | .columnNotReadable => "string_unicode"
  | .columnEmpty => "string_too_short"
  | .unknownKey => "extra_forbidden"
  | .keyNotText => "invalid_key"
  | .limitsDisagree .. => "value_error"

/-- The explanation of a cause. Limits that disagree are named in it, if they can be written. -/
def IssueCause.message : IssueCause → String
  | .negativeLimit => "Input should be greater than or equal to 0"
  | .limitNotReadable => "Input should be a valid integer, unable to parse string as an integer"
  | .limitNotNumeric => "Input should be a valid integer"
  | .limitFractional => "Input should be a valid integer, got a number with a fractional part"
  | .limitNotFinite => "Input should be a finite number"
  | .limitTooLarge => "Unable to parse input string as an integer, exceeded maximum size"
  | .columnNotText => "Input should be a valid string"
  | .columnNotReadable => "Input should be a valid string, unable to parse raw data as a unicode string"
  | .columnEmpty => "String should have at least 1 character"
  | .unknownKey => "Extra inputs are not permitted"
  | .keyNotText => "Keys should be strings"
  | .limitsDisagree d m =>
      "Value error, " ++
        if Decimal.Fits d ∧ Decimal.Fits m then
          "default_limit (" ++ Nat.repr d ++ ") exceeds max_limit (" ++ Nat.repr m ++ ")"
        else Decimal.refusal

end Options

end BoundSql
