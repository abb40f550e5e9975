/-
# ClassFormat.Text.Utf16: characters from 16-bit code units

A supplementary character is a pair of surrogate units, high then low.  A surrogate outside such a
pair stands for no character and is replaced.
-/

namespace ClassFormat.Text.Utf16

def isHighSurrogate (unit : UInt16) : Bool := 0xD800 ≤ unit && unit ≤ 0xDBFF

def isLowSurrogate (unit : UInt16) : Bool := 0xDC00 ≤ unit && unit ≤ 0xDFFF

def isSurrogate (unit : UInt16) : Bool := isHighSurrogate unit || isLowSurrogate unit

/-- What is shown in place of a surrogate without its partner. -/
def replacement : Char := '\uFFFD'

/-- The character of a unit that is not part of a pair. -/
def single (unit : UInt16) : Char :=
  if isSurrogate unit then replacement else Char.ofNat unit.toNat

/-- The supplementary character of a high and a low surrogate. -/
def pair (high low : UInt16) : Char :=
  Char.ofNat (0x10000 + (high.toNat - 0xD800) * 0x400 + (low.toNat - 0xDC00))

/-- The characters of a sequence of units, pairing surrogates from left to right. -/
def decode : List UInt16 → List Char
  | [] => []
  | [unit] => [single unit]
  | first :: second :: rest =>
    if isHighSurrogate first && isLowSurrogate second then pair first second :: decode rest
    else single first :: decode (second :: rest)

end ClassFormat.Text.Utf16
