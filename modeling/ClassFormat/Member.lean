/-
# ClassFormat.Member: fields and methods as they are stored

Fields and methods have the same layout: flags, name, descriptor and attributes.  Only the flags
differ in meaning.
-/
import ClassFormat.Attribute.Layout
import ClassFormat.Attribute.Query

namespace ClassFormat

/-- A field or method of a class. -/
structure Member (carrier : FlagCarrier) where
  flags : Flags carrier
  nameIndex : PoolIndex
  descriptorIndex : PoolIndex
  attributes : List Attribute

abbrev Field := Member .ofField
abbrev Method := Member .ofMethod

namespace Member

variable {carrier : FlagCarrier}

def reader (pool : ConstantPool) : Reader (Member carrier) := do
  let flags ← Flags.reader
  let nameIndex ← Reader.u16
  let descriptorIndex ← Reader.u16
  let attributes ← Attribute.tableReader pool
  return { flags, nameIndex, descriptorIndex, attributes }

def name (member : Member carrier) (pool : ConstantPool) : Except Error String :=
  pool.utf8 member.nameIndex

def descriptor (member : Member carrier) (pool : ConstantPool) : Except Error String :=
  pool.utf8 member.descriptorIndex

def has (member : Member carrier) (flag : AccessFlag) : Bool := member.flags.has flag

/-- Neither public, protected nor private. -/
def isPackagePrivate (member : Member carrier) : Bool := !member.flags.hasAccessLevel

/-- By its flags or by an attribute. -/
def isSynthetic (member : Member carrier) : Bool :=
  member.has .accSynthetic || Attribute.has member.attributes .synthetic

def isDeprecated (member : Member carrier) : Bool := Attribute.has member.attributes .deprecated

def isGeneric (member : Member carrier) : Bool := Attribute.has member.attributes .signature

end Member

end ClassFormat
