/-
# ClassFormat.Attribute.Kind: the attributes with a known layout

An attribute is recognised by its name alone, wherever it stands, and the name has to match
exactly.
-/

namespace ClassFormat

/-- Whether an annotation can be seen by the running program. -/
inductive Visibility where
  | visible
  | invisible
  deriving DecidableEq

/-- The attributes whose layout is known. -/
inductive AttributeKind where
  | constantValue
  | code
  | stackMapTable
  | exceptions
  | innerClasses
  | enclosingMethod
  | synthetic
  | signature
  | sourceFile
  | sourceDebugExtension
  | lineNumberTable
  | localVariableTable
  | localVariableTypeTable
  | deprecated
  | annotations (visibility : Visibility)
  | parameterAnnotations (visibility : Visibility)
  | typeAnnotations (visibility : Visibility)
  | annotationDefault
  | bootstrapMethods
  | methodParameters
  | moduleInfo
  | modulePackages
  | moduleMainClass
  | nestHost
  | nestMembers
  | record
  | permittedSubclasses
  deriving DecidableEq

namespace AttributeKind

/-- The name that the attribute is stored under. -/
def name : AttributeKind → String
  | constantValue => "ConstantValue"
  | code => "Code"
  | stackMapTable => "StackMapTable"
  | exceptions => "Exceptions"
  | innerClasses => "InnerClasses"
  | enclosingMethod => "EnclosingMethod"
  | synthetic => "Synthetic"
  | signature => "Signature"
  | sourceFile => "SourceFile"
  | sourceDebugExtension => "SourceDebugExtension"
  | lineNumberTable => "LineNumberTable"
  | localVariableTable => "LocalVariableTable"
  | localVariableTypeTable => "LocalVariableTypeTable"
  | deprecated => "Deprecated"
  | annotations .visible => "RuntimeVisibleAnnotations"
  | annotations .invisible => "RuntimeInvisibleAnnotations"
  | parameterAnnotations .visible => "RuntimeVisibleParameterAnnotations"
  | parameterAnnotations .invisible => "RuntimeInvisibleParameterAnnotations"
  | typeAnnotations .visible => "RuntimeVisibleTypeAnnotations"
  | typeAnnotations .invisible => "RuntimeInvisibleTypeAnnotations"
  | annotationDefault => "AnnotationDefault"
  | bootstrapMethods => "BootstrapMethods"
  | methodParameters => "MethodParameters"
  | moduleInfo => "Module"
  | modulePackages => "ModulePackages"
  | moduleMainClass => "ModuleMainClass"
  | nestHost => "NestHost"
  | nestMembers => "NestMembers"
  | record => "Record"
  | permittedSubclasses => "PermittedSubclasses"

/-- Every attribute with a known layout. -/
def all : List AttributeKind :=
  [constantValue, code, stackMapTable, exceptions, innerClasses, enclosingMethod, synthetic,
   signature, sourceFile, sourceDebugExtension, lineNumberTable, localVariableTable,
   localVariableTypeTable, deprecated, annotations .visible, annotations .invisible,
   parameterAnnotations .visible, parameterAnnotations .invisible, typeAnnotations .visible,
   typeAnnotations .invisible, annotationDefault, bootstrapMethods, methodParameters, moduleInfo,
   modulePackages, moduleMainClass, nestHost, nestMembers, record, permittedSubclasses]

/-- The attribute of a name. -/
def ofName? (name : String) : Option AttributeKind := all.find? fun kind => kind.name == name

end AttributeKind

end ClassFormat
