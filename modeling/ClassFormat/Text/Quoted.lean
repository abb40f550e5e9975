/-
# ClassFormat.Text.Quoted: string literals

A literal stands between double quotes.  A quote, a backslash, a line feed, a carriage return and a
tab are written with a backslash; every other character stands for itself.
-/

namespace ClassFormat.Text.Quoted

/-- The letter that follows the backslash, for a character that needs one. -/
def escape? : Char → Option Char
  | '"' => some '"'
  | '\\' => some '\\'
  | '\n' => some 'n'
  | '\r' => some 'r'
  | '\t' => some 't'
  | _ => none

/-- A character as it stands inside a literal. -/
def encodeChar (c : Char) : List Char :=
  match escape? c with
  | some letter => ['\\', letter]
  | none => [c]

/-- The literal of a text. -/
def encode (text : List Char) : List Char :=
  '"' :: text.flatMap encodeChar ++ ['"']

/-- The literal of a string. -/
def quote (text : String) : String := String.ofList (encode text.toList)

end ClassFormat.Text.Quoted
