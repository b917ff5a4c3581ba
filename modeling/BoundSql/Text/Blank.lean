/-!
# Blank characters

A finished statement is trimmed at both ends of every character that counts as blank: the
separators of the Unicode standard together with the control characters that the standard's
bidirectional classes treat as white space or as a separator of lines, paragraphs or segments.
-/

set_option autoImplicit false

namespace BoundSql.Text

/-- The ranges of blank code points, ends included, in ascending order. -/
def blankRanges : List (Nat × Nat) :=
  [(0x09, 0x0D), (0x1C, 0x20), (0x85, 0x85), (0xA0, 0xA0), (0x1680, 0x1680),
   (0x2000, 0x200A), (0x2028, 0x2029), (0x202F, 0x202F), (0x205F, 0x205F), (0x3000, 0x3000)]

/-- Whether a character is blank. -/
def isBlank (c : Char) : Bool :=
  blankRanges.any fun (low, high) => low ≤ c.toNat && c.toNat ≤ high

/-- The characters without the blanks before the first and after the last that is not blank. -/
def trimList (cs : List Char) : List Char :=
  ((cs.dropWhile isBlank).reverse.dropWhile isBlank).reverse

/-- The text without blanks at either end. -/
def trim (s : String) : String := String.ofList (trimList s.toList)

@[simp] theorem toList_trim (s : String) : (trim s).toList = trimList s.toList := by
  simp [trim]

end BoundSql.Text
