import BoundSql.Text.Blank

/-!
# Numerals

Whole numbers in text. A plain numeral is one in which nothing can be spared, so that a number has
only one (`readPlain`); there is a greatest length up to which plain numerals are read. A text that
is no plain numeral may still be a loose one: with margins and a sign, with zeros in front of it,
with underscores between its digits and with a fraction of zeros after it. All of this is taken
away (`plain?`), and what is left has to be a plain numeral. That a numeral is too long is said of
those only that are plain as they stand.
-/

set_option autoImplicit false

namespace BoundSql.Numeral

/-- Why a text is no numeral that can be read. -/
inductive Defect where
  | malformed
  | tooLong
  deriving DecidableEq, Repr

/-- A run of decimal digits as a number, after the number `acc` of the digits before it. -/
def digitsValue (acc : Nat) (cs : List Char) : Nat :=
  cs.foldl (fun n c => 10 * n + (c.toNat - 48)) acc

/-! ## Plain numerals -/

/-- The greatest count of digits in a plain numeral. -/
def maxLength : Nat := 4300

/-- The value of a plain numeral: digits, the first of which is no zero unless it stands alone,
and perhaps a minus sign in front. A text that begins with too many digits is too long whatever
comes after them. -/
def readPlain (cs : List Char) : Except Defect Int :=
  let negative := cs.head? = some '-'
  let body := if negative then cs.tail else cs
  let digits := body.takeWhile Char.isDigit
  if digits.head? = some '0' then
    if body = ['0'] then .ok 0 else .error .malformed
  else if digits.length > maxLength then .error .tooLong
  else if digits ≠ [] ∧ digits = body then
    let n : Int := digitsValue 0 digits
    .ok (if negative then -n else n)
  else .error .malformed

/-! ## What can be spared -/

/-- Whether a character may stand in a margin: white space of the Unicode standard, which the
four separator controls are not. -/
def isMargin (c : Char) : Bool := Text.isBlank c && !(0x1C ≤ c.toNat && c.toNat ≤ 0x1F)

/-- The text without its margins. -/
def withoutMargins (cs : List Char) : List Char :=
  ((cs.dropWhile isMargin).reverse.dropWhile isMargin).reverse

/-- What comes after zeros, the last character of which is `last`. Underscores may stand among
them. They end at another digit or at a minus sign. A zero in front of a point is kept, and so is
the last character of a text that has nothing else. -/
def afterZeros? (last : Char) : List Char → Option (List Char)
  | [] => some [last]
  | c :: rest =>
      if c = '0' ∨ c = '_' then afterZeros? c rest
      else if c.isDigit ∨ c = '-' then some (c :: rest)
      else if c = '.' then some (last :: c :: rest)
      else none

/-- A text that begins with a digit, without zeros in front. -/
def withoutZeros? : List Char → Option (List Char)
  | '0' :: rest => afterZeros? '0' rest
  | c :: rest => if c.isDigit then some (c :: rest) else none
  | [] => none

/-- The text in front of the first point, if nothing but zeros, and at least one, come after it;
or else the whole text. -/
def withoutFraction (cs : List Char) : List Char :=
  match cs.dropWhile (· ≠ '.') with
  | _ :: '0' :: zeros => if zeros.all (· = '0') then cs.takeWhile (· ≠ '.') else cs
  | _ => cs

/-- The text without underscores, if each of them stands alone between two other characters. -/
def withoutUnderscores (cs : List Char) : List Char :=
  if (cs.splitOn '_').any List.isEmpty then cs else cs.filter (· ≠ '_')

/-- The plain form of a text without a sign. -/
def plainBody? (cs : List Char) : Option (List Char) :=
  (withoutZeros? cs).map fun cs => withoutUnderscores (withoutFraction cs)

/-- The plain form of a text, which is not yet known to be a numeral. -/
def plain? (cs : List Char) : Option (List Char) :=
  match withoutMargins cs with
  | '-' :: cs => (plainBody? cs).map ('-' :: ·)
  | '+' :: cs => plainBody? cs
  | cs => plainBody? cs

/-- The number that a loose numeral stands for. -/
def readLoose? (cs : List Char) : Option Int := do
  (readPlain (← plain? cs)).toOption

/-- The number that a text stands for. -/
def read (s : String) : Except Defect Int :=
  match readPlain s.toList with
  | .error .malformed =>
      match readLoose? s.toList with
      | some n => .ok n
      | none => .error .malformed
  | outcome => outcome

example : (read " +1_000.00 ").toOption = some 1000 := by cbv

example : (read "-0__5").toOption = some (-5) := by cbv

example : (read "5.").toOption = none := by cbv

end BoundSql.Numeral
