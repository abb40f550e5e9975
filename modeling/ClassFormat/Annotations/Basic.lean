/-
# ClassFormat.Annotations.Basic: annotations and their element values

An annotation names its interface and gives values to some of its elements.  A value is a constant,
an enumeration constant, a class, another annotation, or an array of values, so annotations nest.

Every level of nesting starts with a tag byte, so the number of bytes left bounds the depth.
-/
import ClassFormat.Constant.Pool

namespace ClassFormat

/-- The element values that are one pool entry: a literal of a primitive type or a text. -/
inductive LiteralTag where
  | base (type : BaseType)
  | string
  deriving DecidableEq

mutual

/-- The value of an annotation element. -/
inductive ElementValue where
  | literal (tag : LiteralTag) (index : PoolIndex)
  | enumConstant (typeName constName : PoolIndex)
  | classLiteral (descriptor : PoolIndex)
  | nested (value : Annot)
  | array (values : List ElementValue)

/-- An annotation: the descriptor of its interface and the elements it gives values to. -/
structure Annot where
  typeIndex : PoolIndex
  pairs : List ElementPair

/-- An element and its value. -/
structure ElementPair where
  name : PoolIndex
  value : ElementValue

end

namespace LiteralTag

/-- The tag character of a literal. -/
def letter : LiteralTag → Char
  | base type => type.letter
  | string => 's'

/-- The literal that a tag character announces. -/
def ofLetter? (letter : Char) : Option LiteralTag :=
  if letter = 's' then some string else (BaseType.ofLetter? letter).map base

end LiteralTag

/-- The tag character of a value. -/
def ElementValue.letter : ElementValue → Char
  | literal tag _ => tag.letter
  | enumConstant _ _ => 'e'
  | classLiteral _ => 'c'
  | nested _ => '@'
  | array _ => '['

/-! ## Layout -/

/-- An element and its value, given how values are read. -/
def ElementPair.readerOf (value : Reader ElementValue) : Reader ElementPair := do
  let name ← Reader.u16
  return ⟨name, ← value⟩

/-- An annotation, given how values are read. -/
def Annot.readerOf (value : Reader ElementValue) : Reader Annot := do
  let typeIndex ← Reader.u16
  return ⟨typeIndex, ← Reader.table (ElementPair.readerOf value)⟩

/-- The value that a tag byte announces, given how the values inside it are read. -/
def ElementValue.bodyReader (inner : Reader ElementValue) (tag : UInt8) : Reader ElementValue :=
  match Char.ofNat tag.toNat with
  | 'e' => do
    let typeName ← Reader.u16
    let constName ← Reader.u16
    return .enumConstant typeName constName
  | 'c' => return .classLiteral (← Reader.u16)
  | '@' => return .nested (← Annot.readerOf inner)
  | '[' => return .array (← Reader.table inner)
  | letter =>
    match LiteralTag.ofLetter? letter with
    | some literalTag => return .literal literalTag (← Reader.u16)
    | none => Reader.fail (.malformed (.elementTag tag))

/-- A value with at most `depth` levels of nesting. -/
def ElementValue.readerWithin : (depth : Nat) → Reader ElementValue
  | 0 => Reader.exhausted
  | depth + 1 => do
    let tag ← Reader.u8
    ElementValue.bodyReader (readerWithin depth) tag

/-- A value.  With no bytes left there is no tag to read, which is what depth zero says. -/
def ElementValue.reader : Reader ElementValue := fun input =>
  ElementValue.readerWithin input.bytes.length input

def ElementPair.reader : Reader ElementPair := ElementPair.readerOf ElementValue.reader

def Annot.reader : Reader Annot := Annot.readerOf ElementValue.reader

/-- The annotations of one formal parameter after another. -/
def Annot.parametersReader : Reader (List (List Annot)) :=
  Reader.shortTable (Reader.table Annot.reader)

/-- The name of the annotation interface. -/
def Annot.typeName (annot : Annot) (pool : ConstantPool) : Except Error String := do
  Descriptor.typeName (← pool.utf8 annot.typeIndex)

def ElementPair.resolveName (pair : ElementPair) (pool : ConstantPool) : Except Error String :=
  pool.utf8 pair.name

end ClassFormat
