/-
# ClassFormat.Attribute.Basic: attributes and what they hold

Attributes stand on classes, fields, methods, record components and method bodies.  Two of them,
the method body and the record, hold attributes again, so these types are defined together.
-/
import ClassFormat.AccessFlags
import ClassFormat.Annotations.TypeUse
import ClassFormat.Attribute.Kind
import ClassFormat.Bytecode.Instruction
import ClassFormat.ModuleInfo
import ClassFormat.StackMap

namespace ClassFormat

/-! ## Entries of tables -/

/-- A class that is a member of another, or local, or anonymous. -/
structure InnerClass where
  inner : PoolIndex
  /-- The class it is a member of, absent unless it is a member. -/
  outer : Option PoolIndex
  /-- The name in the source, absent for an anonymous class. -/
  name : Option PoolIndex
  flags : InnerClassFlags
  deriving DecidableEq

/-- The class and, if there is one, the method that a local or anonymous class is declared in. -/
structure EnclosingMethod where
  owner : PoolIndex
  method : Option PoolIndex
  deriving DecidableEq

/-- The source line of the code from an offset on. -/
structure LineNumber where
  startPc : UInt16
  line : UInt16
  deriving DecidableEq

/-- A local variable, its slot and the range of code it lives in. -/
structure LocalVariable where
  startPc : UInt16
  length : UInt16
  name : PoolIndex
  descriptor : PoolIndex
  slot : UInt16
  deriving DecidableEq

/-- A method that computes dynamic constants, and its arguments. -/
structure BootstrapMethod where
  method : PoolIndex
  arguments : List PoolIndex
  deriving DecidableEq

/-- A formal parameter, whose name may be unknown. -/
structure MethodParameter where
  name : Option PoolIndex
  flags : ParameterFlags
  deriving DecidableEq

/-- A range of code and where to go when an exception is thrown in it. -/
structure ExceptionHandler where
  startPc : UInt16
  endPc : UInt16
  handlerPc : UInt16
  /-- The class of exceptions that is caught, absent when all are. -/
  catchType : Option PoolIndex
  deriving DecidableEq

/-! ## Attributes -/

mutual

/-- An attribute: the index of its name, and what it holds. -/
structure Attribute where
  nameIndex : PoolIndex
  info : AttributeInfo

/-- What an attribute holds. -/
inductive AttributeInfo where
  | constantValue (index : PoolIndex)
  | code (body : Code)
  | stackMapTable (frames : List Frame)
  | exceptions (classes : List PoolIndex)
  | innerClasses (classes : List InnerClass)
  | enclosingMethod (method : EnclosingMethod)
  | synthetic
  | signature (index : PoolIndex)
  | sourceFile (index : PoolIndex)
  | sourceDebugExtension (bytes : List UInt8)
  | lineNumberTable (lines : List LineNumber)
  | localVariableTable (entries : List LocalVariable)
  | localVariableTypeTable (entries : List LocalVariable)
  | deprecated
  | annotations (visibility : Visibility) (annots : List Annot)
  | parameterAnnotations (visibility : Visibility) (parameters : List (List Annot))
  | typeAnnotations (visibility : Visibility) (annots : List TypeAnnot)
  | annotationDefault (value : ElementValue)
  | bootstrapMethods (methods : List BootstrapMethod)
  | methodParameters (parameters : List MethodParameter)
  | moduleInfo (info : ModuleInfo)
  | modulePackages (packages : List PoolIndex)
  | moduleMainClass (index : PoolIndex)
  | nestHost (index : PoolIndex)
  | nestMembers (classes : List PoolIndex)
  | record (components : List RecordComponent)
  | permittedSubclasses (classes : List PoolIndex)
  /-- The bytes of an attribute whose layout is not known. -/
  | custom (bytes : List UInt8)

/-- The body of a method. -/
structure Code where
  maxStack : UInt16
  maxLocals : UInt16
  bytes : List UInt8
  /-- In the order in which they are tried. -/
  handlers : List ExceptionHandler
  attributes : List Attribute

/-- A component of a record class. -/
structure RecordComponent where
  name : PoolIndex
  descriptor : PoolIndex
  attributes : List Attribute

end

/-- The known layout that the contents follow. -/
def AttributeInfo.kind? : AttributeInfo → Option AttributeKind
  | constantValue _ => some .constantValue
  | code _ => some .code
  | stackMapTable _ => some .stackMapTable
  | exceptions _ => some .exceptions
  | innerClasses _ => some .innerClasses
  | enclosingMethod _ => some .enclosingMethod
  | synthetic => some .synthetic
  | signature _ => some .signature
  | sourceFile _ => some .sourceFile
  | sourceDebugExtension _ => some .sourceDebugExtension
  | lineNumberTable _ => some .lineNumberTable
  | localVariableTable _ => some .localVariableTable
  | localVariableTypeTable _ => some .localVariableTypeTable
  | deprecated => some .deprecated
  | annotations visibility _ => some (.annotations visibility)
  | parameterAnnotations visibility _ => some (.parameterAnnotations visibility)
  | typeAnnotations visibility _ => some (.typeAnnotations visibility)
  | annotationDefault _ => some .annotationDefault
  | bootstrapMethods _ => some .bootstrapMethods
  | methodParameters _ => some .methodParameters
  | moduleInfo _ => some .moduleInfo
  | modulePackages _ => some .modulePackages
  | moduleMainClass _ => some .moduleMainClass
  | nestHost _ => some .nestHost
  | nestMembers _ => some .nestMembers
  | record _ => some .record
  | permittedSubclasses _ => some .permittedSubclasses
  | custom _ => none

end ClassFormat
