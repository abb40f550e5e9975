/-
# ClassFormat.Constant.Render: constants as a reader sees them

Every entry has a text, found by following its indices through the pool: the value of a literal,
the dotted name of a class, module or package, `class.name` for a field and `class.name(types)` for
a method.  A rendering fails with the first thing that does not resolve.

The text of a method handle ends with that of the entry it refers to.  This may be a handle as well,
and from a handle that leads back to itself rendering goes round for ever.
-/
import ClassFormat.Constant.Pool
import ClassFormat.Decimal.Binary

namespace ClassFormat

/-- The outcome of a rendering: a text, or the cause for which there is none.  A rendering that does
not end has no outcome. -/
abbrev Rendering (α : Type) := ExceptT Error Option α

/-- A rendering that does not end. -/
def Rendering.endless {α : Type} : Rendering α := ExceptT.mk none

namespace NameAndType

def resolveName (pair : NameAndType) (pool : ConstantPool) : Except Error String :=
  pool.utf8 pair.name

def resolveDescriptor (pair : NameAndType) (pool : ConstantPool) : Except Error String :=
  pool.utf8 pair.descriptor

/-- The rendered type of a field. -/
def fieldType (pair : NameAndType) (pool : ConstantPool) : Except Error String := do
  Descriptor.typeName (← pair.resolveDescriptor pool)

/-- The name of a method with its parameter types. -/
def signature (pair : NameAndType) (pool : ConstantPool) : Except Error String := do
  let parameters ← Descriptor.signature (← pair.resolveDescriptor pool)
  return (← pair.resolveName pool) ++ parameters

end NameAndType

namespace MemberRef

/-- The dotted name of the class named as the owner. -/
def ownerName (ref : MemberRef) (pool : ConstantPool) : Except Error String :=
  pool.className ref.owner

def name (ref : MemberRef) (pool : ConstantPool) : Except Error String := do
  (← pool.nameAndType ref.nameAndType).resolveName pool

def descriptor (ref : MemberRef) (pool : ConstantPool) : Except Error String := do
  (← pool.nameAndType ref.nameAndType).resolveDescriptor pool

/-- The member's name with its parameter types, for a method. -/
def signature (ref : MemberRef) (pool : ConstantPool) : Except Error String := do
  (← pool.nameAndType ref.nameAndType).signature pool

/-- The owner and the name with a point between them. -/
def fullName (ref : MemberRef) (pool : ConstantPool) : Except Error String := do
  return (← ref.ownerName pool) ++ "." ++ (← ref.name pool)

/-- The owner and the signature with a point between them. -/
def fullSignature (ref : MemberRef) (pool : ConstantPool) : Except Error String := do
  return (← ref.ownerName pool) ++ "." ++ (← ref.signature pool)

end MemberRef

namespace DynamicRef

def name (ref : DynamicRef) (pool : ConstantPool) : Except Error String := do
  (← pool.nameAndType ref.nameAndType).resolveName pool

def descriptor (ref : DynamicRef) (pool : ConstantPool) : Except Error String := do
  (← pool.nameAndType ref.nameAndType).resolveDescriptor pool

/-- The name with its parameter types, for a call site. -/
def signature (ref : DynamicRef) (pool : ConstantPool) : Except Error String := do
  (← pool.nameAndType ref.nameAndType).signature pool

end DynamicRef

namespace MethodHandle

/-- The entry a handle refers to. -/
def target (handle : MethodHandle) (pool : ConstantPool) : Except Error Constant :=
  pool.get handle.reference

/-- The field or method a handle refers to. -/
def member (handle : MethodHandle) (pool : ConstantPool) : Except Error MemberRef :=
  pool.memberRef handle.reference

end MethodHandle

namespace Constant

/-- The text of an entry, as long as no more than `fuel` method handles have to be followed. -/
def renderWithin (pool : ConstantPool) : (fuel : Nat) → Constant → Rendering String
  | _, utf8 text => return text
  | _, integer value => return toString value.toInt
  | _, float word => return Decimal.binary32.render word.toNat
  | _, long value => return toString value.toInt
  | _, double word => return Decimal.binary64.render word.toNat
  | _, classRef name => do Name.className (← pool.utf8 name)
  | _, string text => pool.utf8 text
  | _, fieldRef field => field.fullName pool
  | _, methodRef method | _, interfaceMethodRef method => method.fullSignature pool
  | _, nameAndType pair => do
    return (← pair.resolveName pool) ++ " " ++ (← pair.resolveDescriptor pool)
  | 0, methodHandle _ => .endless
  | fuel + 1, methodHandle handle => do
    return handle.kind.label ++ " " ++ (← renderWithin pool fuel (← handle.target pool))
  | _, methodType descriptor => pool.utf8 descriptor
  | _, dynamic constant => constant.name pool
  | _, invokeDynamic callSite => callSite.signature pool
  | _, moduleRef name => pool.utf8 name
  | _, packageRef name => do return Name.dottedName (← pool.utf8 name)

/-- The text of an entry.  A chain of handles that ends is no longer than the pool, with one more
for a handle that is not in the pool itself. -/
def render (constant : Constant) (pool : ConstantPool) : Rendering String :=
  constant.renderWithin pool (pool.size + 1)

end Constant

end ClassFormat
