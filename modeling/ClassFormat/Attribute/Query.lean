/-
# ClassFormat.Attribute.Query: looking into attribute tables

An owner may carry several attributes of one kind.  A query that expects one takes the first; tables
that may be split over several attributes are read one after the other.
-/
import ClassFormat.Attribute.Basic
import ClassFormat.Constant.Render

namespace ClassFormat

namespace Attribute

/-- The contents of the first attribute of a kind. -/
def find? (attributes : List Attribute) (kind : AttributeKind) : Option AttributeInfo :=
  (attributes.map Attribute.info).find? fun info => info.kind? == some kind

def has (attributes : List Attribute) (kind : AttributeKind) : Bool :=
  (find? attributes kind).isSome

/-- The generic signature of the owner, if it has one. -/
def genericSignature (attributes : List Attribute) (pool : ConstantPool) :
    Except Error (Option String) :=
  match find? attributes .signature with
  | some (.signature index) => (pool.utf8 index).map some
  | _ => .ok none

/-- The annotations of the owner, visible to the running program or not. -/
def annotations (attributes : List Attribute) : List Annot :=
  attributes.flatMap fun held =>
    match held.info with
    | .annotations _ annots => annots
    | _ => []

def resolveName (held : Attribute) (pool : ConstantPool) : Except Error String :=
  pool.utf8 held.nameIndex

end Attribute

namespace InnerClass

def innerName (entry : InnerClass) (pool : ConstantPool) : Except Error String :=
  pool.className entry.inner

def outerName (entry : InnerClass) (pool : ConstantPool) : Except Error (Option String) :=
  entry.outer.mapM pool.className

/-- The name in the source. -/
def sourceName (entry : InnerClass) (pool : ConstantPool) : Except Error (Option String) :=
  entry.name.mapM pool.utf8

def isMember (entry : InnerClass) : Bool := entry.outer.isSome

def isAnonymous (entry : InnerClass) : Bool := entry.name.isNone

end InnerClass

namespace EnclosingMethod

def ownerName (method : EnclosingMethod) (pool : ConstantPool) : Except Error String :=
  pool.className method.owner

/-- The name of the method with its parameter types. -/
def signature (method : EnclosingMethod) (pool : ConstantPool) : Except Error (Option String) :=
  method.method.mapM fun index => do (← pool.nameAndType index).signature pool

end EnclosingMethod

namespace LocalVariable

/-- Whether the variable lives at an offset: from its start to just before its end. -/
def covers (entry : LocalVariable) (pc : Nat) : Bool :=
  entry.startPc.toNat ≤ pc && pc < entry.startPc.toNat + entry.length.toNat

def resolveName (entry : LocalVariable) (pool : ConstantPool) : Except Error String :=
  pool.utf8 entry.name

def resolveDescriptor (entry : LocalVariable) (pool : ConstantPool) : Except Error String :=
  pool.utf8 entry.descriptor

/-- The rendered type, for an entry that has a descriptor and not a generic signature. -/
def typeName (entry : LocalVariable) (pool : ConstantPool) : Except Error String := do
  Descriptor.typeName (← entry.resolveDescriptor pool)

end LocalVariable

def MethodParameter.resolveName (parameter : MethodParameter) (pool : ConstantPool) :
    Except Error (Option String) :=
  parameter.name.mapM pool.utf8

namespace RecordComponent

def resolveName (component : RecordComponent) (pool : ConstantPool) : Except Error String :=
  pool.utf8 component.name

def typeName (component : RecordComponent) (pool : ConstantPool) : Except Error String := do
  Descriptor.typeName (← pool.utf8 component.descriptor)

end RecordComponent

namespace ExceptionHandler

def catchTypeName (handler : ExceptionHandler) (pool : ConstantPool) :
    Except Error (Option String) :=
  handler.catchType.mapM pool.className

/-- Whether the instruction at an offset is protected. -/
def covers (handler : ExceptionHandler) (pc : Nat) : Bool :=
  handler.startPc.toNat ≤ pc && pc < handler.endPc.toNat

end ExceptionHandler

end ClassFormat
