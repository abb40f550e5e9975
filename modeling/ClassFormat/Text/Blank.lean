/-
# ClassFormat.Text.Blank: white space at the ends of a text

The characters with the Unicode property White_Space.
-/

namespace ClassFormat.Text

/-- Whether a character is white space. -/
def isBlank (c : Char) : Bool :=
  let n := c.toNat
  (0x09 ≤ n && n ≤ 0x0D) || n == 0x20 || n == 0x85 || n == 0xA0 || n == 0x1680
    || (0x2000 ≤ n && n ≤ 0x200A) || n == 0x2028 || n == 0x2029 || n == 0x202F || n == 0x205F
    || n == 0x3000

/-- A text without the white space at its two ends. -/
def trim (text : List Char) : List Char :=
  ((text.dropWhile isBlank).reverse.dropWhile isBlank).reverse

/-- Whether two texts are the same up to the case of ASCII letters. -/
def sameIgnoringCase (text other : List Char) : Bool :=
  text.map Char.toLower == other.map Char.toLower

/-- A text with blanks in front, up to a width. -/
def padLeft (width : Nat) (text : String) : String :=
  String.ofList (List.replicate (width - text.length) ' ') ++ text

end ClassFormat.Text
