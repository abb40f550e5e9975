/-
# ClassFormat.Descriptor: the type grammar of class files

A type is spelled as a run of `[` for its array dimensions and then a base type letter, a class
`Lname;` or a type variable `Tname;`.  A return type may also be `V`.  A method descriptor is
`(parameters)result`.  Every text is either one spelling of one type or it is refused as a whole.

The source rendering of a type is its keyword or dotted name, followed by `[]` for each dimension.
The dimensions are counted in 32 bits, signed and without a check for overflow, so the count goes
round: behind 2^31 brackets it is negative, and nothing follows the name; behind 2^32 it is zero,
and `V` is accepted.  No text in a class file is long enough for that.
-/
import ClassFormat.Error
import ClassFormat.Text.Split

namespace ClassFormat

/-! ## Types -/

/-- The primitive types. -/
inductive BaseType where
  | byte
  | char
  | double
  | float
  | int
  | long
  | short
  | boolean
  deriving DecidableEq

namespace BaseType

/-- The primitive type of a descriptor letter. -/
def ofLetter? : Char → Option BaseType
  | 'B' => some byte
  | 'C' => some char
  | 'D' => some double
  | 'F' => some float
  | 'I' => some int
  | 'J' => some long
  | 'S' => some short
  | 'Z' => some boolean
  | _ => none

/-- The letter of a primitive type. -/
def letter : BaseType → Char
  | byte => 'B'
  | char => 'C'
  | double => 'D'
  | float => 'F'
  | int => 'I'
  | long => 'J'
  | short => 'S'
  | boolean => 'Z'

/-- The keyword of a primitive type. -/
def keyword : BaseType → String
  | byte => "byte"
  | char => "char"
  | double => "double"
  | float => "float"
  | int => "int"
  | long => "long"
  | short => "short"
  | boolean => "boolean"

end BaseType

/-- A package separator is written `.` in source text and `/` in class files. -/
def dotted (name : List Char) : List Char :=
  name.map fun c => if c = '/' then '.' else c

/-- The type of an array's innermost elements. -/
inductive ElementType where
  | base (type : BaseType)
  | object (name : List Char)
  | variable (name : List Char)
  deriving DecidableEq

/-- The type of a field, a parameter or a returned value. -/
structure FieldType where
  dimensions : Int32
  element : ElementType
  deriving DecidableEq

/-- What a method returns. -/
inductive ReturnType where
  | void
  | value (type : FieldType)
  deriving DecidableEq

/-- The parameters and the result of a method. -/
structure MethodDescriptor where
  parameters : List FieldType
  result : ReturnType
  deriving DecidableEq

/-! ## Reading and rendering -/

namespace ElementType

/-- A name that ends at the next `;` and is not empty. -/
def parseName? (text : List Char) : Option (List Char × List Char) :=
  (Text.splitFirst? ';' text).filter fun (name, _) => !name.isEmpty

/-- The type at the front of a text, which is not an array, and what follows it. -/
def parse? : List Char → Option (ElementType × List Char)
  | [] => none
  | 'L' :: rest => (parseName? rest).map fun (name, rest) => (.object name, rest)
  | 'T' :: rest => (parseName? rest).map fun (name, rest) => (.variable name, rest)
  | letter :: rest => (BaseType.ofLetter? letter).map fun type => (.base type, rest)

/-- The source rendering. -/
def render : ElementType → String
  | .base type => type.keyword
  | .object name | .variable name => String.ofList (dotted name)

end ElementType

namespace FieldType

/-- The brackets at the front of a text, counted on from `dimensions`, and what follows them. -/
def skipBrackets (dimensions : Int32) : List Char → Int32 × List Char
  | '[' :: rest => skipBrackets (dimensions + 1) rest
  | text => (dimensions, text)

/-- The type at the front of a text, and what follows it. -/
def parse? (text : List Char) : Option (FieldType × List Char) :=
  let (dimensions, rest) := skipBrackets 0 text
  (ElementType.parse? rest).map fun (element, rest) => (⟨dimensions, element⟩, rest)

/-- The source rendering: a negative number of dimensions is shown like none. -/
def render (type : FieldType) : String :=
  type.element.render ++ String.join (List.replicate type.dimensions.toInt.toNat "[]")

/-- The types up to the closing parenthesis of a parameter list; each takes at least one
character, so `fuel` is the length of the text. -/
def parseParameters? : (fuel : Nat) → List Char → Option (List FieldType × List Char)
  | _, ')' :: rest => some ([], rest)
  | 0, _ => none
  | fuel + 1, text => do
    let (first, rest) ← parse? text
    let (others, rest) ← parseParameters? fuel rest
    return (first :: others, rest)

end FieldType

namespace ReturnType

/-- The return type at the front of a text, and what follows it. -/
def parse? (text : List Char) : Option (ReturnType × List Char) :=
  match FieldType.skipBrackets 0 text with
  | (dimensions, 'V' :: rest) => if dimensions = 0 then some (.void, rest) else none
  | _ => (FieldType.parse? text).map fun (type, rest) => (.value type, rest)

/-- The source rendering. -/
def render : ReturnType → String
  | void => "void"
  | value type => type.render

end ReturnType

namespace MethodDescriptor

/-- The descriptor that a whole text spells. -/
def parse? : List Char → Option MethodDescriptor
  | '(' :: text => do
    let (parameters, rest) ← FieldType.parseParameters? text.length text
    let (result, rest) ← ReturnType.parse? rest
    if rest.isEmpty then some ⟨parameters, result⟩ else none
  | _ => none

/-- The rendered parameter types between parentheses. -/
def signature (descriptor : MethodDescriptor) : String :=
  "(" ++ ", ".intercalate (descriptor.parameters.map FieldType.render) ++ ")"

end MethodDescriptor

/-! ## Descriptors as texts -/

namespace Descriptor

/-- The rendering of a text that is one field type, or `V`. -/
def typeName (text : String) : Except Error String :=
  match ReturnType.parse? text.toList with
  | some (type, []) => .ok type.render
  | _ => .error (.badDescriptor text)

/-- The method descriptor that a text spells. -/
def method (text : String) : Except Error MethodDescriptor :=
  match MethodDescriptor.parse? text.toList with
  | some descriptor => .ok descriptor
  | none => .error (.badDescriptor text)

/-- The rendered parameter list of a method descriptor. -/
def signature (text : String) : Except Error String :=
  (method text).map MethodDescriptor.signature

/-- The rendered parameter types of a method descriptor. -/
def parameterTypes (text : String) : Except Error (List String) :=
  (method text).map fun descriptor => descriptor.parameters.map FieldType.render

/-- The number of parameters of a method descriptor, whatever their widths. -/
def parameterCount (text : String) : Except Error Nat :=
  (method text).map fun descriptor => descriptor.parameters.length

/-- The rendered return type of a method descriptor. -/
def returnType (text : String) : Except Error String :=
  (method text).map fun descriptor => descriptor.result.render

end Descriptor

end ClassFormat
