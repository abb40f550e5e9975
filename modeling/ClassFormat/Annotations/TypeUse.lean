/-
# ClassFormat.Annotations.TypeUse: annotations on uses of types

Such an annotation says which kind of type use it stands on, then where that use is, in a layout
that the kind decides, and which part of the type it belongs to.
-/
import ClassFormat.Annotations.Basic

namespace ClassFormat

/-! ## Kinds of type use -/

/-- The kinds of type use. -/
inductive TargetType where
  | classTypeParameter
  | methodTypeParameter
  | classExtends
  | classTypeParameterBound
  | methodTypeParameterBound
  | field
  | methodReturn
  | methodReceiver
  | methodFormalParameter
  | throwsClause
  | localVariable
  | resourceVariable
  | exceptionParameter
  | instanceOf
  | new
  | constructorReference
  | methodReference
  | cast
  | constructorInvocationTypeArgument
  | methodInvocationTypeArgument
  | constructorReferenceTypeArgument
  | methodReferenceTypeArgument
  deriving DecidableEq

namespace TargetType

/-- The byte stored for a kind of type use. -/
def tag : TargetType → UInt8
  | classTypeParameter => 0x00
  | methodTypeParameter => 0x01
  | classExtends => 0x10
  | classTypeParameterBound => 0x11
  | methodTypeParameterBound => 0x12
  | field => 0x13
  | methodReturn => 0x14
  | methodReceiver => 0x15
  | methodFormalParameter => 0x16
  | throwsClause => 0x17
  | localVariable => 0x40
  | resourceVariable => 0x41
  | exceptionParameter => 0x42
  | instanceOf => 0x43
  | new => 0x44
  | constructorReference => 0x45
  | methodReference => 0x46
  | cast => 0x47
  | constructorInvocationTypeArgument => 0x48
  | methodInvocationTypeArgument => 0x49
  | constructorReferenceTypeArgument => 0x4A
  | methodReferenceTypeArgument => 0x4B

/-- Every kind of type use, in the order of the tags. -/
def all : List TargetType :=
  [classTypeParameter, methodTypeParameter, classExtends, classTypeParameterBound,
   methodTypeParameterBound, field, methodReturn, methodReceiver, methodFormalParameter,
   throwsClause, localVariable, resourceVariable, exceptionParameter, instanceOf, new,
   constructorReference, methodReference, cast, constructorInvocationTypeArgument,
   methodInvocationTypeArgument, constructorReferenceTypeArgument, methodReferenceTypeArgument]

/-- The kind of type use that a byte stands for. -/
def ofTag? (tag : UInt8) : Option TargetType := all.find? fun target => target.tag == tag

@[simp]
theorem ofTag?_tag (target : TargetType) : ofTag? target.tag = some target := by
  cases target <;> rfl

/-- The name of a kind of type use. -/
def label : TargetType → String
  | classTypeParameter => "ClassTypeParameter"
  | methodTypeParameter => "MethodTypeParameter"
  | classExtends => "ClassExtends"
  | classTypeParameterBound => "ClassTypeParameterBound"
  | methodTypeParameterBound => "MethodTypeParameterBound"
  | field => "Field"
  | methodReturn => "MethodReturn"
  | methodReceiver => "MethodReceiver"
  | methodFormalParameter => "MethodFormalParameter"
  | throwsClause => "Throws"
  | localVariable => "LocalVariable"
  | resourceVariable => "ResourceVariable"
  | exceptionParameter => "ExceptionParameter"
  | instanceOf => "InstanceOf"
  | new => "New"
  | constructorReference => "ConstructorReference"
  | methodReference => "MethodReference"
  | cast => "Cast"
  | constructorInvocationTypeArgument => "ConstructorInvocationTypeArgument"
  | methodInvocationTypeArgument => "MethodInvocationTypeArgument"
  | constructorReferenceTypeArgument => "ConstructorReferenceTypeArgument"
  | methodReferenceTypeArgument => "MethodReferenceTypeArgument"

def reader : Reader TargetType := do
  let tag ← Reader.u8
  match ofTag? tag with
  | some target => return target
  | none => Reader.fail (.malformed (.targetType tag))

end TargetType

/-! ## Where and on which part of a type -/

/-- A range of code in which a local variable has a value. -/
structure LocalVarTarget where
  startPc : UInt16
  length : UInt16
  index : UInt16
  deriving DecidableEq

/-- Where the annotated type is used. -/
inductive TargetInfo where
  | typeParameter (index : UInt8)
  /-- The superclass is 65535, and an interface its position in the list of interfaces. -/
  | supertype (index : UInt16)
  | typeParameterBound (index bound : UInt8)
  | empty
  | formalParameter (index : UInt8)
  | throwsType (index : UInt16)
  | localVar (ranges : List LocalVarTarget)
  | catchType (index : UInt16)
  | offset (pc : UInt16)
  | typeArgument (pc : UInt16) (index : UInt8)
  deriving DecidableEq

/-- One step from a type to a part of it. -/
structure TypePathStep where
  /-- Into an array 0, into a nested type 1, to a wildcard bound 2, to a type argument 3. -/
  kind : UInt8
  argument : UInt8
  deriving DecidableEq

/-- An annotation on a use of a type. -/
structure TypeAnnot where
  target : TargetType
  info : TargetInfo
  path : List TypePathStep
  typeIndex : PoolIndex
  pairs : List ElementPair

/-! ## Layout -/

def LocalVarTarget.reader : Reader LocalVarTarget := do
  let startPc ← Reader.u16
  let length ← Reader.u16
  let index ← Reader.u16
  return { startPc, length, index }

def TypePathStep.reader : Reader TypePathStep := do
  let kind ← Reader.u8
  let argument ← Reader.u8
  return { kind, argument }

/-- The place of a type use, in the layout of its kind. -/
def TargetInfo.reader : TargetType → Reader TargetInfo
  | .classTypeParameter | .methodTypeParameter => return typeParameter (← Reader.u8)
  | .classExtends => return supertype (← Reader.u16)
  | .classTypeParameterBound | .methodTypeParameterBound => do
    let index ← Reader.u8
    let bound ← Reader.u8
    return typeParameterBound index bound
  | .field | .methodReturn | .methodReceiver => return empty
  | .methodFormalParameter => return formalParameter (← Reader.u8)
  | .throwsClause => return throwsType (← Reader.u16)
  | .localVariable | .resourceVariable => return localVar (← Reader.table LocalVarTarget.reader)
  | .exceptionParameter => return catchType (← Reader.u16)
  | .instanceOf | .new | .constructorReference | .methodReference => return offset (← Reader.u16)
  | .cast | .constructorInvocationTypeArgument | .methodInvocationTypeArgument
  | .constructorReferenceTypeArgument | .methodReferenceTypeArgument => do
    let pc ← Reader.u16
    let index ← Reader.u8
    return typeArgument pc index

def TypeAnnot.reader : Reader TypeAnnot := do
  let target ← TargetType.reader
  let info ← TargetInfo.reader target
  let path ← Reader.shortTable TypePathStep.reader
  let typeIndex ← Reader.u16
  let pairs ← Reader.table ElementPair.reader
  return { target, info, path, typeIndex, pairs }

/-- The name of the annotation interface. -/
def TypeAnnot.typeName (annot : TypeAnnot) (pool : ConstantPool) : Except Error String := do
  Descriptor.typeName (← pool.utf8 annot.typeIndex)

end ClassFormat
