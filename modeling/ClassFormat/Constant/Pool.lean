/-
# ClassFormat.Constant.Pool: the constant pool

Entries are numbered from 1, and an eight-byte constant takes two numbers, of which the second
finds nothing.  The declared size of a pool is one more than its largest number.

Each accessor follows an index to an entry of the kinds it expects and says which kinds those were
when it finds another.
-/
import ClassFormat.Constant.Basic
import ClassFormat.Name

namespace ClassFormat

/-- The constants of one class file. -/
structure ConstantPool where
  slots : SlotTable Constant

namespace ConstantPool

/-- The pool of the given entries. -/
def ofList (constants : List Constant) : ConstantPool := ⟨SlotTable.ofListFrom 1 constants⟩

/-- Entries until their numbers reach `count`; every entry takes a number, so `fuel` is `count`. -/
def slotsReader (count : Nat) : (fuel : Nat) → SlotTable Constant → Reader (SlotTable Constant)
  | 0, slots => return slots
  | fuel + 1, slots => do
    if slots.next < count then
      let constant ← Constant.reader slots.next
      if count < slots.next + HasWidth.width constant then
        Reader.fail (.malformed (.poolOverrun constant.kind slots.next count))
      else
        slotsReader count fuel (slots.push constant)
    else
      return slots

/-- The declared size and then the entries. -/
def reader : Reader ConstantPool := do
  let count ← Reader.u16
  return ⟨← slotsReader count.toNat count.toNat (SlotTable.startingAt 1)⟩

/-- Number of entries. -/
def size (pool : ConstantPool) : Nat := pool.slots.size

def isEmpty (pool : ConstantPool) : Bool := pool.slots.isEmpty

/-- One more than the largest number in use. -/
def count (pool : ConstantPool) : UInt16 := UInt16.ofNat pool.slots.next

/-- Every entry with its index, in order. -/
def entries (pool : ConstantPool) : List (PoolIndex × Constant) :=
  pool.slots.toList.map fun (offset, _, constant) => (UInt16.ofNat offset, constant)

/-- The entry at an index. -/
def get (pool : ConstantPool) (index : PoolIndex) : Except Error Constant :=
  match (pool.slots.lookup index.toNat).element? with
  | some constant => .ok constant
  | none => .error (.invalidIndex index)

/-- The part of the entry at an index that `select` picks from one of the expected kinds. -/
def expect {α : Type} (pool : ConstantPool) (index : PoolIndex) (expected : List ConstantKind)
    (select : Constant → Option α) : Except Error α := do
  let constant ← pool.get index
  match select constant with
  | some part => return part
  | none => throw (.kindMismatch index expected constant.kind)

/-! ## Accessors -/

/-- A text. -/
def utf8 (pool : ConstantPool) (index : PoolIndex) : Except Error String :=
  pool.expect index [.utf8] fun
    | .utf8 text => some text
    | _ => none

/-- The index of the name of a class. -/
def classRef (pool : ConstantPool) (index : PoolIndex) : Except Error PoolIndex :=
  pool.expect index [.classRef] fun
    | .classRef name => some name
    | _ => none

/-- The dotted name of a class. -/
def className (pool : ConstantPool) (index : PoolIndex) : Except Error String := do
  Name.className (← pool.utf8 (← pool.classRef index))

/-- The value of a string constant. -/
def string (pool : ConstantPool) (index : PoolIndex) : Except Error String := do
  let text ← pool.expect index [.string] fun
    | .string text => some text
    | _ => none
  pool.utf8 text

def nameAndType (pool : ConstantPool) (index : PoolIndex) : Except Error NameAndType :=
  pool.expect index [.nameAndType] fun
    | .nameAndType pair => some pair
    | _ => none

/-- A field or a method. -/
def memberRef (pool : ConstantPool) (index : PoolIndex) : Except Error MemberRef :=
  pool.expect index [.fieldRef, .methodRef, .interfaceMethodRef] fun
    | .fieldRef ref | .methodRef ref | .interfaceMethodRef ref => some ref
    | _ => none

def fieldRef (pool : ConstantPool) (index : PoolIndex) : Except Error MemberRef :=
  pool.expect index [.fieldRef] fun
    | .fieldRef ref => some ref
    | _ => none

/-- A method of a class or of an interface. -/
def methodRef (pool : ConstantPool) (index : PoolIndex) : Except Error MemberRef :=
  pool.expect index [.methodRef, .interfaceMethodRef] fun
    | .methodRef ref | .interfaceMethodRef ref => some ref
    | _ => none

def methodHandle (pool : ConstantPool) (index : PoolIndex) : Except Error MethodHandle :=
  pool.expect index [.methodHandle] fun
    | .methodHandle handle => some handle
    | _ => none

/-- A dynamic constant or call site. -/
def dynamicRef (pool : ConstantPool) (index : PoolIndex) : Except Error DynamicRef :=
  pool.expect index [.dynamic, .invokeDynamic] fun
    | .dynamic ref | .invokeDynamic ref => some ref
    | _ => none

/-- The name of a module. -/
def moduleName (pool : ConstantPool) (index : PoolIndex) : Except Error String := do
  let name ← pool.expect index [.moduleRef] fun
    | .moduleRef name => some name
    | _ => none
  pool.utf8 name

/-- The dotted name of a package. -/
def packageName (pool : ConstantPool) (index : PoolIndex) : Except Error String := do
  let name ← pool.expect index [.packageRef] fun
    | .packageRef name => some name
    | _ => none
  return Name.dottedName (← pool.utf8 name)

end ConstantPool

end ClassFormat
