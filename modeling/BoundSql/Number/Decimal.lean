/-!
# The length of decimal texts

Integers have any size, but not all of them can be written: the text of an integer has at most
`maxDigits` digits. `Fits` says it of the digits, so that it can be evaluated for an integer at
hand; as a bound on the integer itself it is `fits_iff`.
-/

set_option autoImplicit false

namespace BoundSql.Decimal

/-- The greatest count of digits in the text of an integer. A sign is not counted. -/
def maxDigits : Nat := 4300

/-- An integer with no more digits than can be written. -/
def Fits (n : Int) : Prop := (Nat.toDigits 10 n.natAbs).length ≤ maxDigits

instance (n : Int) : Decidable (Fits n) := inferInstanceAs (Decidable (_ ≤ _))

/-- How an integer with more digits is refused. -/
def refusal : String :=
  "Exceeds the limit (" ++ Nat.repr maxDigits ++ " digits) for integer string conversion; "
    ++ "use sys.set_int_max_str_digits() to increase the limit"

/-- The number that is written with a one and `k` zeros. -/
def power (k : Nat) : Nat := Nat.pow 10 k

theorem fits_iff (n : Int) : Fits n ↔ n.natAbs < power maxDigits := by
  -- For any count of digits, so that the power need not be evaluated.
  have hdigits : ∀ k, 0 < k → ((Nat.toDigits 10 n.natAbs).length ≤ k ↔ n.natAbs < power k) :=
    fun _ hk => Nat.length_toDigits_le_iff (by decide) hk
  exact hdigits maxDigits (by decide)

/-- A number nearer to zero fits as well. -/
theorem Fits.of_natAbs_le {m n : Int} (h : Fits n) (hle : m.natAbs ≤ n.natAbs) : Fits m :=
  (fits_iff m).mpr (Nat.lt_of_le_of_lt hle ((fits_iff n).mp h))

/-- The least power of ten that does not fit is the one with `maxDigits` zeros. -/
theorem fits_power_iff (k : Nat) : Fits (power k) ↔ k < maxDigits := by
  have hpower : ∀ m, power k < power m ↔ k < m := fun _ => Nat.pow_lt_pow_iff_right (by decide)
  exact (fits_iff _).trans (hpower maxDigits)

example : Fits (-1234) := by decide

end BoundSql.Decimal
