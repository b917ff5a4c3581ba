import BoundSql.Number.Numeral

/-!
# `Binary64` — double-precision numbers as exact values

A number of the IEEE 754 binary64 format, that is anything in the format but NaN, kept as the
exact value `significand * 2 ^ exponent` that it stands for. Reading a decimal goes to the nearest
such value (a tie to the even significand); comparing with an integer, truncating and testing for a
fraction are then exact integer arithmetic, and no step depends on the floating-point unit of the
machine.

A finite value is kept in its one normal form: the significand is below `2 ^ 53`, and it is at
least `2 ^ 52` unless the exponent is the least one, `-1074`.
-/

set_option autoImplicit false

namespace BoundSql

/-- A double-precision number. -/
inductive Binary64 where
  | infinite (negative : Bool)
  | finite (negative : Bool) (significand : Nat) (exponent : Int)
  deriving DecidableEq, Repr

namespace Binary64

/-- The least exponent of the format. -/
def minExponent : Int := -1074

/-- The greatest exponent of the format. -/
def maxExponent : Int := 971

/-- The quotient rounded to the nearest integer, a half to the even neighbour. -/
def roundDiv (num den : Nat) : Nat :=
  let q := num / den
  let r := num % den
  if 2 * r < den then q
  else if 2 * r > den then q + 1
  else if q % 2 = 0 then q else q + 1

/-- A positive fraction scaled by a power of two, as a fraction again. -/
def scaleTwo (num den : Nat) (e : Int) : Nat × Nat :=
  if 0 ≤ e then (num * Nat.pow 2 e.toNat, den) else (num, den * Nat.pow 2 (-e).toNat)

/-- The exponent of the greatest power of two that is at most `num / den`. -/
def floorLog2 (num den : Nat) : Int :=
  let guess : Int := (Nat.log2 num : Int) - (Nat.log2 den : Int)
  let (n, d) := scaleTwo num den (-guess)
  if n < d then guess - 1 else guess

/-- The double nearest to `num / den`. -/
def ofFraction (negative : Bool) (num den : Nat) : Binary64 :=
  if num = 0 then .finite negative 0 minExponent
  else
    let e := max minExponent (floorLog2 num den - 52)
    let (n, d) := scaleTwo num den (-e)
    let m := roundDiv n d
    let (m, e) := if m = Nat.pow 2 53 then (Nat.pow 2 52, e + 1) else (m, e)
    if e > maxExponent then .infinite negative else .finite negative m e

/-- The double nearest to `digits * 10 ^ e`. -/
def ofDecimal (negative : Bool) (digits : Nat) (e : Int) : Binary64 :=
  if 0 ≤ e then ofFraction negative (digits * Nat.pow 10 e.toNat) 1
  else ofFraction negative digits (Nat.pow 10 (-e).toNat)

/-- Whether the number is one of the two zeros. -/
def isZero : Binary64 → Bool
  | .finite _ m _ => m = 0
  | _ => false

/-- The greatest integer below the absolute value, with the sign put back: the part before the
point. It exists for finite numbers only. -/
def truncate? : Binary64 → Option Int
  | .finite negative m e =>
      let a : Nat := if 0 ≤ e then m * Nat.pow 2 e.toNat else m / Nat.pow 2 (-e).toNat
      some (if negative then -(a : Int) else a)
  | _ => none

/-- The integer that the number is, if it is one. -/
def toInt? (x : Binary64) : Option Int :=
  match x with
  | .finite _ m e => if 0 ≤ e || m % Nat.pow 2 (-e).toNat = 0 then x.truncate? else none
  | _ => none

/-- Whether the number is greater than the natural number `n`. -/
def exceeds (x : Binary64) (n : Nat) : Bool :=
  match x with
  | .infinite negative => !negative
  | .finite true _ _ => false
  | .finite false m e =>
      if 0 ≤ e then n < m * Nat.pow 2 e.toNat else n * Nat.pow 2 (-e).toNat < m

/-! ## Reading decimals -/

/-- A decimal exponent: an optional sign and at least one digit. -/
def readExponent? : List Char → Option Int
  | '-' :: cs => if cs ≠ [] ∧ cs.all Char.isDigit then some (-(Numeral.digitsValue 0 cs : Int)) else none
  | '+' :: cs => if cs ≠ [] ∧ cs.all Char.isDigit then some (Numeral.digitsValue 0 cs) else none
  | cs => if cs ≠ [] ∧ cs.all Char.isDigit then some (Numeral.digitsValue 0 cs) else none

/-- An unsigned decimal: digits, then a point and digits, then `e` and an exponent, where the
second and the third part may be missing. -/
def readMagnitude? (negative : Bool) (cs : List Char) : Option Binary64 := do
  let whole := cs.takeWhile Char.isDigit
  let rest := cs.dropWhile Char.isDigit
  let (fraction, rest) := match rest with
    | '.' :: rest => (rest.takeWhile Char.isDigit, rest.dropWhile Char.isDigit)
    | rest => ([], rest)
  if whole.isEmpty && fraction.isEmpty then none
  let e ← match rest with
    | [] => some 0
    | 'e' :: rest => readExponent? rest
    | _ => none
  return ofDecimal negative (Numeral.digitsValue (Numeral.digitsValue 0 whole) fraction) (e - fraction.length)

/-- The double that a decimal text stands for; `inf` is the text of a number too. -/
def ofText? (s : String) : Option Binary64 :=
  let (negative, cs) := match s.toList with
    | '-' :: cs => (true, cs)
    | cs => (false, cs)
  if cs = ['i', 'n', 'f'] then some (.infinite negative)
  else readMagnitude? negative cs

end Binary64

end BoundSql
