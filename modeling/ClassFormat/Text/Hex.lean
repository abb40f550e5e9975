/-
# ClassFormat.Text.Hex: hexadecimal numerals in diagnostics

Diagnostics quote bytes and magic numbers the way a hex dump shows them: `0x`, then lowercase
digits padded with zeros to a fixed width.
-/

namespace ClassFormat.Text

/-- The lowercase digit for a value below sixteen. -/
def hexDigit (value : Nat) : Char :=
  if value < 10 then Char.ofNat ('0'.toNat + value) else Char.ofNat ('a'.toNat + (value - 10))

/-- The last `width` hexadecimal digits of a number, most significant first. -/
def hexDigits : Nat → Nat → List Char
  | 0, _ => []
  | width + 1, value => hexDigits width (value / 16) ++ [hexDigit (value % 16)]

/-- A number of at most `width` hexadecimal digits, written `0x` and padded to that width. -/
def hexNumeral (width value : Nat) : String :=
  "0x" ++ String.ofList (hexDigits width value)

@[simp]
theorem hexDigits_length (width value : Nat) : (hexDigits width value).length = width := by
  induction width generalizing value with
  | zero => rfl
  | succ width ih => simp [hexDigits, ih]

end ClassFormat.Text
