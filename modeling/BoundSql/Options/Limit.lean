import BoundSql.Fragment.Text
import BoundSql.Value.Sequence

/-!
# The greatest limit at work

A limit may be any value as long as no greatest limit is set; where one is set, the limit has
to be a number, and a number above the greatest limit is replaced by it.
-/

set_option autoImplicit false

namespace BoundSql

namespace Value

/-- Whether a number is greater than `n`; only numbers can be compared. -/
def exceeds (v : Value) (n : Nat) : Except Fault Bool :=
  match v with
  | .bool b => .ok ((n : Int) < boolNumber b)
  | .int k => .ok ((n : Int) < k)
  | .float x => .ok (x.exceeds n)
  | .nan _ => .ok false
  | _ => .error .notOrdered

/-- The integer part of a number as decimal text. That of a float is never too long. -/
def integerText (v : Value) : Except Fault String :=
  match v with
  | .bool b => .ok (Int.repr (boolNumber b))
  | .int n => Decimal.text n
  | .float x =>
      match x with
      | .infinite _ => .error .integerOfInfinity
      | .finite .. => .ok ((x.truncate?.map Int.repr).getD "")
  | .nan _ => .error .integerOfNan
  | _ => .error .notText

end Value

namespace Options

/-- The limit, or the greatest one if the limit exceeds it. -/
def clamp (o : Options) (limit : Value) : Except Fault Value :=
  match o.maxLimit with
  | none => .ok limit
  | some max => (limit.exceeds max).map fun above => if above then .int max else limit

/-- Whether clamping a limit changes it. NaN, which differs from itself, counts as changed. -/
def isClamped (o : Options) (limit : Value) : Except Fault Bool :=
  match limit, o.maxLimit with
  | .nan _, _ => .ok true
  | _, none => .ok false
  | limit, some max => limit.exceeds max

/-- The limit that is at work where the integer `n` was asked for. -/
def atMost (o : Options) (n : Int) : Int :=
  match o.maxLimit with
  | none => n
  | some max => min n max

theorem clamp_int (o : Options) (n : Int) : o.clamp (.int n) = .ok (.int (o.atMost n)) := by
  unfold clamp atMost
  cases o.maxLimit with
  | none => rfl
  | some max =>
    by_cases h : (max : Int) < n
    · have : min n (max : Int) = max := by omega
      simp [Value.exceeds, Except.map, h, this]
    · have : min n (max : Int) = n := by omega
      simp [Value.exceeds, Except.map, h, this]

theorem natAbs_atMost_le (o : Options) (n : Int) : (o.atMost n).natAbs ≤ n.natAbs := by
  unfold atMost
  cases o.maxLimit with
  | none => exact Nat.le_refl _
  | some max =>
    dsimp only
    omega

theorem isClamped_int (o : Options) (n : Int) :
    o.isClamped (.int n) = .ok (decide (o.atMost n ≠ n)) := by
  unfold isClamped atMost
  cases o.maxLimit with
  | none => simp
  | some max =>
    have : (max : Int) < n ↔ min n (max : Int) ≠ n := by omega
    simp only [Value.exceeds, this]

end Options

end BoundSql
