/-!
# Hexadecimal text of fixed width

Escapes and generated names both write numbers with a fixed count of lowercase hexadecimal
digits. Digits beyond the width are cut off at the left.
-/

set_option autoImplicit false

namespace BoundSql.Text

/-- The lowercase hexadecimal digit of a number below sixteen. -/
def hexDigit (n : Fin 16) : Char := Nat.digitChar n.val

/-- The last `width` hexadecimal digits of `n`, most significant first. -/
def hexDigits : (width : Nat) → (n : Nat) → List Char
  | 0, _ => []
  | width + 1, n => hexDigits width (n / 16) ++ [hexDigit (Fin.ofNat 16 n)]

/-- The number that a hexadecimal digit of either case stands for. -/
def hexValue? (c : Char) : Option (Fin 16) :=
  if c.isDigit then some (Fin.ofNat 16 (c.toNat - 48))
  else if 97 ≤ c.toNat && c.toNat ≤ 102 then some (Fin.ofNat 16 (c.toNat - 87))
  else if 65 ≤ c.toNat && c.toNat ≤ 70 then some (Fin.ofNat 16 (c.toNat - 55))
  else none

@[simp] theorem length_hexDigits (width n : Nat) : (hexDigits width n).length = width := by
  induction width generalizing n with
  | zero => rfl
  | succ width ih => simp [hexDigits, ih]

/-- Each digit is read back as the number it was written for. -/
theorem hexValue?_hexDigit (d : Fin 16) : hexValue? (hexDigit d) = some d := by
  revert d; decide

theorem hexDigit_injective {d e : Fin 16} (h : hexDigit d = hexDigit e) : d = e := by
  have := congrArg hexValue? h
  simpa [hexValue?_hexDigit] using this

end BoundSql.Text
