/-
# ClassFormat.Text.ModifiedUtf8: the text encoding of class files

Text is stored as 16-bit code units, each in a group of one, two or three bytes.  The differences
from UTF-8 follow from that: a supplementary character takes two groups, and four-byte groups do
not exist.  Groups longer than they need to be are accepted, which is how the null character is
written without a null byte.
-/
import ClassFormat.Error
import ClassFormat.Text.Utf16

namespace ClassFormat.Text.ModifiedUtf8

/-- A byte of the form `10xxxxxx`, which only continues a group. -/
def isContinuation (byte : UInt8) : Bool := byte &&& 0xC0 == 0x80

/-- The unit of a two-byte group. -/
def unit2 (first second : UInt8) : UInt16 :=
  (first.toUInt16 &&& 0x1F) <<< 6 ||| (second.toUInt16 &&& 0x3F)

/-- The unit of a three-byte group. -/
def unit3 (first second third : UInt8) : UInt16 :=
  (first.toUInt16 &&& 0x0F) <<< 12 ||| (second.toUInt16 &&& 0x3F) <<< 6
    ||| (third.toUInt16 &&& 0x3F)

/-- What the first byte of a group says about it. -/
inductive Lead where
  /-- The group is this byte alone. -/
  | one
  /-- One more byte follows. -/
  | two
  /-- Two more bytes follow. -/
  | three
  /-- No group starts with this byte. -/
  | invalid
  deriving DecidableEq

/-- The groups that a byte can start. -/
def lead (first : UInt8) : Lead :=
  if first ≤ 0x7F then .one
  else if 0xC0 ≤ first && first ≤ 0xDF then .two
  else if 0xE0 ≤ first && first ≤ 0xEF then .three
  else .invalid

/-- The units of the bytes, which start at `offset` of the whole text. -/
def unitsFrom : (offset : Nat) → List UInt8 → Except Error (List UInt16)
  | _, [] => .ok []
  | offset, first :: rest =>
    match lead first, rest with
    | .one, rest => (unitsFrom (offset + 1) rest).map (first.toUInt16 :: ·)
    | .two, second :: rest =>
      if isContinuation second then
        (unitsFrom (offset + 2) rest).map (unit2 first second :: ·)
      else .error (.malformed (.textEncoding first offset))
    | .three, second :: third :: rest =>
      if isContinuation second && isContinuation third then
        (unitsFrom (offset + 3) rest).map (unit3 first second third :: ·)
      else .error (.malformed (.textEncoding first offset))
    | _, _ => .error (.malformed (.textEncoding first offset))

/-- The units of a whole text. -/
def units (bytes : List UInt8) : Except Error (List UInt16) := unitsFrom 0 bytes

/-- The text that the bytes store, with a replacement for each unpaired surrogate. -/
def decode (bytes : List UInt8) : Except Error String :=
  (units bytes).map fun units => String.ofList (Utf16.decode units)

end ClassFormat.Text.ModifiedUtf8
