import BoundSql.Text.Hex
import BoundSql.Text.Printable

/-!
# Quoted text

How a string or a byte string is shown when it stands inside another value. Single quotes
surround it, or double quotes if it holds a single quote and no double one; the chosen quote,
the backslash and three control characters have short escapes, and every other character that
is not printable is spelled out in hexadecimal with two, four or eight digits.
-/

set_option autoImplicit false

namespace BoundSql.Text

/-- The single quote. -/
def singleQuote : Char := '\x27'

/-- The double quote. -/
def doubleQuote : Char := '\x22'

/-- The quote that surrounds a text: double only where that saves an escape. -/
def quoteFor (cs : List Char) : Char :=
  if cs.contains singleQuote && !cs.contains doubleQuote then doubleQuote else singleQuote

/-- The escape of a character that has a short one. -/
def shortEscape? (quote c : Char) : Option (List Char) :=
  if c = quote || c = '\\' then some ['\\', c]
  else if c = '\n' then some ['\\', 'n']
  else if c = '\r' then some ['\\', 'r']
  else if c = '\t' then some ['\\', 't']
  else none

/-- The escape that spells out a code point, in the shortest of the three widths that holds it. -/
def numericEscape (n : Nat) : List Char :=
  if n < 0x100 then '\\' :: 'x' :: hexDigits 2 n
  else if n < 0x10000 then '\\' :: 'u' :: hexDigits 4 n
  else '\\' :: 'U' :: hexDigits 8 n

/-- One character between quotes. -/
def escapeChar (quote c : Char) : List Char :=
  match shortEscape? quote c with
  | some escape => escape
  | none => if isPrintable c then [c] else numericEscape c.toNat

/-- A text between quotes. -/
def quoted (s : String) : String :=
  let quote := quoteFor s.toList
  String.ofList (quote :: (s.toList.flatMap (escapeChar quote) ++ [quote]))

/-- One byte between quotes; bytes outside the printable ASCII range are spelled out. -/
def escapeByte (quote : Char) (b : UInt8) : List Char :=
  let c := Char.ofNat b.toNat
  match shortEscape? quote c with
  | some escape => escape
  | none => if 0x20 ≤ b.toNat && b.toNat < 0x7F then [c] else numericEscape b.toNat

/-- A byte string between quotes, with its mark `b` in front. -/
def quotedBytes (bytes : List UInt8) : String :=
  let quote := quoteFor (bytes.map fun b => Char.ofNat b.toNat)
  String.ofList ('b' :: quote :: (bytes.flatMap (escapeByte quote) ++ [quote]))

/-- Quoting puts the same quote at both ends. -/
theorem toList_quoted (s : String) :
    (quoted s).toList =
      quoteFor s.toList :: (s.toList.flatMap (escapeChar (quoteFor s.toList))
        ++ [quoteFor s.toList]) := by
  simp [quoted]

end BoundSql.Text
