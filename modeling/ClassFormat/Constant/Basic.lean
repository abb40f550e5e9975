/-
# ClassFormat.Constant.Basic: constant pool entries and their layout

An entry is stored as a tag and the layout of its kind.  Entries refer to each other by index, also
forwards, so reading resolves nothing.
-/
import ClassFormat.Reader
import ClassFormat.SlotTable
import ClassFormat.Text.ModifiedUtf8

namespace ClassFormat

/-! ## Method handles -/

/-- What a method handle does with the member it refers to. -/
inductive HandleKind where
  | getField
  | getStatic
  | putField
  | putStatic
  | invokeVirtual
  | invokeStatic
  | invokeSpecial
  | newInvokeSpecial
  | invokeInterface
  deriving DecidableEq

namespace HandleKind

/-- Every kind, in the order of the stored numbers. -/
def all : List HandleKind :=
  [getField, getStatic, putField, putStatic, invokeVirtual, invokeStatic, invokeSpecial,
   newInvokeSpecial, invokeInterface]

/-- The number that is stored for a kind. -/
def number : HandleKind → UInt8
  | getField => 1
  | getStatic => 2
  | putField => 3
  | putStatic => 4
  | invokeVirtual => 5
  | invokeStatic => 6
  | invokeSpecial => 7
  | newInvokeSpecial => 8
  | invokeInterface => 9

/-- The kind stored as a number. -/
def ofNumber (number : UInt8) : Except Error HandleKind :=
  match all.find? fun kind => kind.number == number with
  | some kind => .ok kind
  | none => .error (.malformed (.handleKind number))

/-- The word that names the kind. -/
def label : HandleKind → String
  | getField => "getField"
  | getStatic => "getStatic"
  | putField => "putField"
  | putStatic => "putStatic"
  | invokeVirtual => "invokeVirtual"
  | invokeStatic => "invokeStatic"
  | invokeSpecial => "invokeSpecial"
  | newInvokeSpecial => "newInvokeSpecial"
  | invokeInterface => "invokeInterface"

def reader : Reader HandleKind := do
  Reader.lift (ofNumber (← Reader.u8))

@[simp]
theorem ofNumber_number (kind : HandleKind) : ofNumber kind.number = .ok kind := by
  cases kind <;> rfl

end HandleKind

/-! ## Entries -/

/-- A field or method of some class. -/
structure MemberRef where
  owner : PoolIndex
  nameAndType : PoolIndex
  deriving DecidableEq

/-- The name and the descriptor of a field or method. -/
structure NameAndType where
  name : PoolIndex
  descriptor : PoolIndex
  deriving DecidableEq

/-- A member and what to do with it. -/
structure MethodHandle where
  kind : HandleKind
  reference : PoolIndex
  deriving DecidableEq

/-- A constant or call site computed by a bootstrap method of the class. -/
structure DynamicRef where
  /-- Position in the table of bootstrap methods, not in the pool. -/
  bootstrap : UInt16
  nameAndType : PoolIndex
  deriving DecidableEq

/-- A constant pool entry.  Floating-point constants are kept as the words that are stored. -/
inductive Constant where
  | utf8 (text : String)
  | integer (value : Int32)
  | float (word : UInt32)
  | long (value : Int64)
  | double (word : UInt64)
  | classRef (name : PoolIndex)
  | string (text : PoolIndex)
  | fieldRef (field : MemberRef)
  | methodRef (method : MemberRef)
  | interfaceMethodRef (method : MemberRef)
  | nameAndType (pair : NameAndType)
  | methodHandle (handle : MethodHandle)
  | methodType (descriptor : PoolIndex)
  | dynamic (constant : DynamicRef)
  | invokeDynamic (callSite : DynamicRef)
  | moduleRef (name : PoolIndex)
  | packageRef (name : PoolIndex)
  deriving DecidableEq

/-! ## Layout -/

def MemberRef.reader : Reader MemberRef := do
  let owner ← Reader.u16
  let nameAndType ← Reader.u16
  return { owner, nameAndType }

def NameAndType.reader : Reader NameAndType := do
  let name ← Reader.u16
  let descriptor ← Reader.u16
  return { name, descriptor }

def MethodHandle.reader : Reader MethodHandle := do
  let kind ← HandleKind.reader
  let reference ← Reader.u16
  return { kind, reference }

def DynamicRef.reader : Reader DynamicRef := do
  let bootstrap ← Reader.u16
  let nameAndType ← Reader.u16
  return { bootstrap, nameAndType }

namespace Constant

def kind : Constant → ConstantKind
  | utf8 _ => .utf8
  | integer _ => .integer
  | float _ => .float
  | long _ => .long
  | double _ => .double
  | classRef _ => .classRef
  | string _ => .string
  | fieldRef _ => .fieldRef
  | methodRef _ => .methodRef
  | interfaceMethodRef _ => .interfaceMethodRef
  | nameAndType _ => .nameAndType
  | methodHandle _ => .methodHandle
  | methodType _ => .methodType
  | dynamic _ => .dynamic
  | invokeDynamic _ => .invokeDynamic
  | moduleRef _ => .moduleRef
  | packageRef _ => .packageRef

instance : HasWidth Constant where
  width constant := constant.kind.width

/-- Text stored as its length in bytes and that many bytes. -/
def textReader : Reader String := do
  let length ← Reader.u16
  let bytes ← Reader.run length.toNat
  Reader.lift (Text.ModifiedUtf8.decode bytes)

/-- The layout behind the tag of each kind. -/
def bodyReader : ConstantKind → Reader Constant
  | .utf8 => return utf8 (← textReader)
  | .integer => return integer (← Reader.i32)
  | .float => return float (← Reader.u32)
  | .long => return long (← Reader.i64)
  | .double => return double (← Reader.u64)
  | .classRef => return classRef (← Reader.u16)
  | .string => return string (← Reader.u16)
  | .fieldRef => return fieldRef (← MemberRef.reader)
  | .methodRef => return methodRef (← MemberRef.reader)
  | .interfaceMethodRef => return interfaceMethodRef (← MemberRef.reader)
  | .nameAndType => return nameAndType (← NameAndType.reader)
  | .methodHandle => return methodHandle (← MethodHandle.reader)
  | .methodType => return methodType (← Reader.u16)
  | .dynamic => return dynamic (← DynamicRef.reader)
  | .invokeDynamic => return invokeDynamic (← DynamicRef.reader)
  | .moduleRef => return moduleRef (← Reader.u16)
  | .packageRef => return packageRef (← Reader.u16)

/-- One entry, which will have the given index. -/
def reader (index : Nat) : Reader Constant := do
  let tag ← Reader.u8
  match ConstantKind.ofTag? tag with
  | some kind => bodyReader kind
  | none => Reader.fail (.unknownTag tag index)

end Constant

end ClassFormat
