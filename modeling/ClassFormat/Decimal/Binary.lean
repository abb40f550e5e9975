/-
# ClassFormat.Decimal.Binary: floating-point words and their text

A word holds a sign, a biased exponent and a fraction.  Its text is the shortest decimal that reads
back, written without an exponent and without a fraction when there is none; a zero keeps its sign.
-/
import ClassFormat.Decimal.Shortest

namespace ClassFormat.Decimal

/-- The layout of a floating-point word. -/
structure BinaryFormat where
  fractionBits : Nat
  exponentBits : Nat

/-- The 32-bit layout. -/
def binary32 : BinaryFormat := ⟨23, 8⟩

/-- The 64-bit layout. -/
def binary64 : BinaryFormat := ⟨52, 11⟩

/-- The absolute value that a word stands for. -/
inductive Magnitude where
  | notANumber
  | infinite
  | zero
  /-- The positive number of the interval. -/
  | finite (interval : Interval)

namespace BinaryFormat

/-- The positive number `significand * 2 ^ exponent`, between the midpoints to its neighbours.  The
neighbour below a power of two is only half as far away, unless that is the smallest normal one. -/
def interval (significand : Nat) (exponent : Int) (nearBelow : Bool) : Interval :=
  let quarters (n : Nat) : Ratio := Ratio.scale ⟨n, 1⟩ 2 (exponent - 2)
  { low := quarters (4 * significand - if nearBelow then 1 else 2)
    value := quarters (4 * significand)
    high := quarters (4 * significand + 2)
    closed := significand % 2 = 0 }

/-- The absolute value of a word. -/
def magnitude (format : BinaryFormat) (word : Nat) : Magnitude :=
  let fraction := word % Nat.pow 2 format.fractionBits
  let biased := word / Nat.pow 2 format.fractionBits % Nat.pow 2 format.exponentBits
  let lowest : Int := 2 - (Nat.pow 2 (format.exponentBits - 1) : Nat) - format.fractionBits
  if biased = Nat.pow 2 format.exponentBits - 1 then
    if fraction = 0 then .infinite else .notANumber
  else if biased = 0 then
    if fraction = 0 then .zero else .finite (interval fraction lowest false)
  else
    .finite (interval (Nat.pow 2 format.fractionBits + fraction) (lowest + (biased - 1))
      (fraction = 0 && 1 < biased))

/-- Whether the sign bit of a word is set. -/
def isNegative (format : BinaryFormat) (word : Nat) : Bool :=
  word / Nat.pow 2 (format.fractionBits + format.exponentBits) % 2 = 1

end BinaryFormat

namespace Numeral

/-- The same number without zeros at the end of its coefficient, dropping at most `fuel`. -/
def trimZeros (numeral : Numeral) : (fuel : Nat) → Numeral
  | 0 => numeral
  | fuel + 1 =>
    if numeral.coefficient ≠ 0 ∧ numeral.coefficient % 10 = 0 then
      trimZeros ⟨numeral.coefficient / 10, numeral.exponent + 1⟩ fuel
    else numeral

/-- All digits of the number, with a point only if some stand behind it. -/
def positional (numeral : Numeral) : String :=
  let digits := Nat.toDigits 10 numeral.coefficient
  match numeral.exponent with
  | .ofNat zeros => String.ofList (digits ++ List.replicate zeros '0')
  | .negSucc places =>
    let padded := List.replicate (places + 2 - digits.length) '0' ++ digits
    let whole := padded.length - (places + 1)
    String.ofList (padded.take whole ++ '.' :: padded.drop whole)

end Numeral

/-- The text of a floating-point word. -/
def BinaryFormat.render (format : BinaryFormat) (word : Nat) : String :=
  let sign := if format.isNegative word then "-" else ""
  match format.magnitude word with
  | .notANumber => "NaN"
  | .infinite => sign ++ "inf"
  | .zero => sign ++ "0"
  | .finite interval => sign ++ (interval.shortest.trimZeros 20).positional

end ClassFormat.Decimal
