/-
# ClassFormat.Constant.Kind: the kinds of constant pool entry

Seventeen kinds of entry are defined.  Each has the tag it is stored under, the label it is shown
with, and the number of pool indices it occupies.
-/

namespace ClassFormat

/-- What a constant pool entry is. -/
inductive ConstantKind where
  | utf8
  | integer
  | float
  | long
  | double
  | classRef
  | string
  | fieldRef
  | methodRef
  | interfaceMethodRef
  | nameAndType
  | methodHandle
  | methodType
  | dynamic
  | invokeDynamic
  | moduleRef
  | packageRef
  deriving DecidableEq

namespace ConstantKind

/-- The byte that announces an entry of this kind. -/
def tag : ConstantKind → UInt8
  | utf8 => 1
  | integer => 3
  | float => 4
  | long => 5
  | double => 6
  | classRef => 7
  | string => 8
  | fieldRef => 9
  | methodRef => 10
  | interfaceMethodRef => 11
  | nameAndType => 12
  | methodHandle => 15
  | methodType => 16
  | dynamic => 17
  | invokeDynamic => 18
  | moduleRef => 19
  | packageRef => 20

/-- Every kind, in the order of the tags. -/
def all : List ConstantKind :=
  [utf8, integer, float, long, double, classRef, string, fieldRef, methodRef, interfaceMethodRef,
   nameAndType, methodHandle, methodType, dynamic, invokeDynamic, moduleRef, packageRef]

/-- The kind stored under a tag, if the tag is defined. -/
def ofTag? (tag : UInt8) : Option ConstantKind :=
  all.find? fun kind => kind.tag == tag

/-- The word that names the kind in listings and diagnostics. -/
def label : ConstantKind → String
  | utf8 => "Utf8"
  | integer => "Integer"
  | float => "Float"
  | long => "Long"
  | double => "Double"
  | classRef => "Class"
  | string => "String"
  | fieldRef => "Fieldref"
  | methodRef => "Methodref"
  | interfaceMethodRef => "InterfaceMethodref"
  | nameAndType => "NameAndType"
  | methodHandle => "MethodHandle"
  | methodType => "MethodType"
  | dynamic => "Dynamic"
  | invokeDynamic => "InvokeDynamic"
  | moduleRef => "Module"
  | packageRef => "Package"

/-- Eight-byte constants take two pool indices, all others one. -/
def width : ConstantKind → Nat
  | long | double => 2
  | _ => 1

theorem width_pos (kind : ConstantKind) : 0 < kind.width := by
  cases kind <;> decide

@[simp]
theorem ofTag?_tag (kind : ConstantKind) : ofTag? kind.tag = some kind := by
  cases kind <;> rfl

/-- The labels of several kinds as an English list: `A`, `A or B`, `A, B, or C`. -/
def alternatives : List ConstantKind → String
  | [] => ""
  | [only] => only.label
  | [first, second] => s!"{first.label} or {second.label}"
  | kinds => ", ".intercalate (kinds.dropLast.map label) ++ ", or "
      ++ (kinds.getLast?.map label).getD ""

end ConstantKind

end ClassFormat
