/-
# ClassFormat.Error: why a class file, or a query on one, was refused

`Error` separates the causes a caller may want to tell apart.  Everything that breaks the layout of
the file is an `Error.malformed`, which says how by a `Defect`.  The wording is in
`Defect.message` and `Error.message`, and nowhere else.
-/
import ClassFormat.Constant.Kind
import ClassFormat.Text.Hex

namespace ClassFormat

/-- An index into the constant pool.  Index 0 is never an entry. -/
abbrev PoolIndex := UInt16

/-- How the bytes of a class file break its layout. -/
inductive Defect where
  /-- A fixed-size item starts before the end of the input and ends behind it. -/
  | endOfInput
  /-- A run of bytes is longer than what is left. -/
  | missingBytes (expected found : Nat)
  /-- The file does not start with the class file signature. -/
  | magicNumber (found : UInt32)
  /-- A byte that starts no group of the text encoding. -/
  | textEncoding (byte : UInt8) (offset : Nat)
  /-- An eight-byte constant does not fit below the declared pool size. -/
  | poolOverrun (kind : ConstantKind) (index count : Nat)
  /-- The body of a known attribute is longer than its layout. -/
  | attributeLength (name : String) (declared used : Nat)
  | handleKind (kind : UInt8)
  | elementTag (tag : UInt8)
  | targetType (tag : UInt8)
  | verificationTag (tag : UInt8)
  /-- An instruction needs a byte behind the end of the code. -/
  | operandPastEnd (position : Nat)
  | switchBounds (start : Nat) (low high : Int)
  | switchPairs (start : Nat) (count : Int)
  | wideOpcode (opcode : UInt8) (position : Nat)
  | undefinedOpcode (opcode : UInt8) (start : Nat)
  | notInstructionStart (pc : Nat)
  deriving DecidableEq

/-- Why reading a class file, or resolving something in it, failed. -/
inductive Error where
  /-- The source of the bytes failed, for a reason other than having no more of them. -/
  | unreadable (reason : String)
  | malformed (defect : Defect)
  /-- A constant pool entry starts with an undefined tag. -/
  | unknownTag (tag : UInt8) (index : Nat)
  /-- The index is zero, too large, or the second index of an eight-byte constant. -/
  | invalidIndex (index : PoolIndex)
  /-- The entry exists and is none of the expected kinds. -/
  | kindMismatch (index : PoolIndex) (expected : List ConstantKind) (found : ConstantKind)
  | reservedFrame (tag : UInt8)
  | badDescriptor (text : String)
  /-- A dynamic constant names a bootstrap method that the class does not have. -/
  | missingBootstrap (index : UInt16)
  deriving DecidableEq

/-- The wording of a defect. -/
def Defect.message : Defect → String
  | endOfInput => "unexpected end of input"
  | missingBytes expected found => s!"expected {expected} bytes, but input ended after {found}"
  | magicNumber found => s!"bad magic number {Text.hexNumeral 8 found.toNat}"
  | textEncoding byte offset =>
    s!"invalid modified UTF-8 byte {Text.hexNumeral 2 byte.toNat} at {offset}"
  | poolOverrun kind index count =>
    s!"{kind.label} constant at index {index} overruns constant pool of size {count}"
  | attributeLength name declared used =>
    s!"{name} attribute declares {declared} bytes but only {used} were read"
  | handleKind kind => s!"invalid method handle reference kind {kind}"
  | elementTag tag => s!"invalid element value tag {Text.hexNumeral 2 tag.toNat}"
  | targetType tag => s!"invalid type annotation target type {Text.hexNumeral 2 tag.toNat}"
  | verificationTag tag => s!"invalid verification type tag {tag}"
  | operandPastEnd position =>
    s!"instruction operand at offset {position} is past the end of the code"
  | switchBounds start low high => s!"tableswitch at {start} has low {low} above high {high}"
  | switchPairs start count => s!"lookupswitch at {start} has {count} pairs"
  | wideOpcode opcode position =>
    s!"wide cannot prefix opcode {Text.hexNumeral 2 opcode.toNat} at {position}"
  | undefinedOpcode opcode start =>
    s!"undefined opcode {Text.hexNumeral 2 opcode.toNat} at {start}"
  | notInstructionStart pc => s!"offset {pc} is not the start of an instruction"

/-- The wording of an error. -/
def Error.message : Error → String
  | unreadable reason => s!"I/O error: {reason}"
  | malformed defect => s!"malformed class file: {defect.message}"
  | unknownTag tag index => s!"unknown constant pool tag {tag} at index {index}"
  | invalidIndex index => s!"invalid constant pool index {index}"
  | kindMismatch index expected found =>
    s!"constant pool index {index} is {found.label}, expected {ConstantKind.alternatives expected}"
  | reservedFrame tag => s!"reserved stack map frame type {tag}"
  | badDescriptor text => s!"bad descriptor '{text}'"
  | missingBootstrap index => s!"no bootstrap method at index {index}"

end ClassFormat
