import BoundSql.Number.Binary64

/-!
# The shortest decimal that reads back

The text of a double has as few digits as a decimal that reads back to it can have, and among
the decimals of that length it is the nearest one; of two equally near the one with the even
last digit is taken. The search runs over the grids `10 ^ k` from coarse to fine, and on each
grid it needs to look at two points only: the neighbours of the value, for if any point of the
grid reads back then one of these two does.

Where the digits are put around the point is a separate decision, and lies in the record
`Layout`.
-/

set_option autoImplicit false

namespace BoundSql

namespace Binary64

/-- The value and the two ends of the interval of reals that round to it, in units of
`2 ^ (exponent - 2)`: lower end, value, upper end. The gap below a power of two is half the
gap above it. -/
def interval (m : Nat) (e : Int) : Nat × Nat × Nat :=
  let below := if m = Nat.pow 2 52 ∧ e > minExponent then 1 else 2
  (4 * m - below, 4 * m, 4 * m + 2)

/-- The points `d` of the grid `10 ^ k` next to the value, the nearer first, that read back. -/
def hit? (m : Nat) (e k : Int) : Option Nat :=
  let scale := Nat.pow 2 (e - 2).toNat * Nat.pow 10 (-k).toNat
  let grid := Nat.pow 10 k.toNat * Nat.pow 2 (2 - e).toNat
  let (low, value, high) := interval m e
  let (low, value, high) := (low * scale, value * scale, high * scale)
  let readsBack (d : Nat) : Bool :=
    if m % 2 = 0 then low ≤ d * grid && d * grid ≤ high else low < d * grid && d * grid < high
  let down := value / grid
  let up := down + 1
  let fromDown := value - down * grid
  let fromUp := up * grid - value
  let downFirst := fromDown < fromUp || (fromDown = fromUp && down % 2 = 0)
  let (first, second) := if downFirst then (down, up) else (up, down)
  if readsBack first then some first
  else if readsBack second then some second
  else none

/-- The search from the grid `10 ^ k` downwards over at most `fuel` grids. -/
def searchGrids (m : Nat) (e : Int) : (fuel : Nat) → (k : Int) → Nat × Int
  | 0, k => (m, k)
  | fuel + 1, k =>
      match hit? m e k with
      | some d => (d, k)
      | none => searchGrids m e fuel (k - 1)

/-- Digits and exponent of the shortest decimal of the positive number `m * 2 ^ e`. The first
grid is coarser than the number, and seventeen digits always suffice. -/
def shortest (m : Nat) (e : Int) : Nat × Int :=
  let magnitude : Int := (Nat.log2 m : Int) + e
  searchGrids m e 22 (magnitude * 30103 / 100000 + 2)

/-- How the digits of a number are laid out as text. -/
structure Layout where
  /-- The least power of ten of a leading digit that is written without an exponent. -/
  leastPositional : Int
  /-- The greatest power of ten of a leading digit that is written without an exponent. -/
  greatestPositional : Int
  /-- Whether a whole number shows a point and a zero. -/
  wholeFraction : Bool
  /-- The least count of digits in an exponent. -/
  exponentWidth : Nat

/-- Numbers from `0.0001` up to below `10 ^ 16` are written without an exponent, whole ones with
`.0` at the end; an exponent has a sign and at least two digits. -/
def layout : Layout := ⟨-4, 15, true, 2⟩

/-- An exponent with its mark and sign, padded with zeros to the width of the layout. -/
def Layout.exponentText (l : Layout) (e : Int) : List Char :=
  let digits := Nat.toDigits 10 e.natAbs
  'e' :: (if e < 0 then '-' else '+') ::
    (List.replicate (l.exponentWidth - digits.length) '0' ++ digits)

/-- The text of the positive number `digits * 10 ^ k`. -/
def Layout.magnitudeText (l : Layout) (digits : Nat) (k : Int) : List Char :=
  let ds := Nat.toDigits 10 digits
  let leading : Int := k + ds.length - 1
  if leading < l.leastPositional || leading > l.greatestPositional then
    let mantissa := match ds with
      | [] => []
      | [d] => [d]
      | d :: rest => d :: '.' :: rest
    mantissa ++ l.exponentText leading
  else if 0 ≤ k then
    ds ++ List.replicate k.toNat '0' ++ (if l.wholeFraction then ['.', '0'] else [])
  else if 0 ≤ leading then
    ds.take (leading.toNat + 1) ++ '.' :: ds.drop (leading.toNat + 1)
  else
    '0' :: '.' :: (List.replicate ((-leading).toNat - 1) '0' ++ ds)

/-- The text of a number. -/
def text : Binary64 → String
  | .infinite negative => if negative then "-inf" else "inf"
  | .finite negative m e =>
      let body :=
        if m = 0 then if layout.wholeFraction then ['0', '.', '0'] else ['0']
        else
          let (digits, k) := shortest m e
          layout.magnitudeText digits k
      String.ofList (if negative then '-' :: body else body)

end Binary64

end BoundSql
