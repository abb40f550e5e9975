/-
# ClassFormat.Attribute.Layout: how attributes are stored

An attribute is stored as the index of its name, the length of its body, and the body.  The body of
an attribute with a known name has to follow the layout of that name and to be used up by it; the
body of any other attribute is kept as it is.

Method bodies and records hold attributes again.  Their layouts are written over a reader for the
attributes inside them, and the nesting is tied by its depth: every attribute takes six bytes before
its body, so the number of bytes left bounds the depth.
-/
import ClassFormat.Attribute.Basic

namespace ClassFormat

/-! ## Entries of tables -/

def InnerClass.reader : Reader InnerClass := do
  let inner ← Reader.u16
  let outer ← Reader.optionalIndex
  let name ← Reader.optionalIndex
  let flags ← Flags.reader
  return { inner, outer, name, flags }

def EnclosingMethod.reader : Reader EnclosingMethod := do
  let owner ← Reader.u16
  let method ← Reader.optionalIndex
  return { owner, method }

def LineNumber.reader : Reader LineNumber := do
  let startPc ← Reader.u16
  let line ← Reader.u16
  return { startPc, line }

def LocalVariable.reader : Reader LocalVariable := do
  let startPc ← Reader.u16
  let length ← Reader.u16
  let name ← Reader.u16
  let descriptor ← Reader.u16
  let slot ← Reader.u16
  return { startPc, length, name, descriptor, slot }

def BootstrapMethod.reader : Reader BootstrapMethod := do
  let method ← Reader.u16
  let arguments ← Reader.table Reader.u16
  return { method, arguments }

def MethodParameter.reader : Reader MethodParameter := do
  let name ← Reader.optionalIndex
  let flags ← Flags.reader
  return { name, flags }

def ExceptionHandler.reader : Reader ExceptionHandler := do
  let startPc ← Reader.u16
  let endPc ← Reader.u16
  let handlerPc ← Reader.u16
  let catchType ← Reader.optionalIndex
  return { startPc, endPc, handlerPc, catchType }

/-! ## Layouts over the attributes inside them -/

/-- Passes when a code array decodes to its end. -/
def Code.check (bytes : List UInt8) : Except Error Unit :=
  match (Listing.decode bytes).fault with
  | some fault => .error fault
  | none => .ok ()

/-- A method body, given how the attributes inside it are read. -/
def Code.readerOf (inner : Reader Attribute) : Reader Code := do
  let maxStack ← Reader.u16
  let maxLocals ← Reader.u16
  let length ← Reader.u32
  let bytes ← Reader.run length.toNat
  Reader.lift (Code.check bytes)
  let handlers ← Reader.table ExceptionHandler.reader
  let attributes ← Reader.table inner
  return { maxStack, maxLocals, bytes, handlers, attributes }

/-- A record component, given how the attributes on it are read. -/
def RecordComponent.readerOf (inner : Reader Attribute) : Reader RecordComponent := do
  let name ← Reader.u16
  let descriptor ← Reader.u16
  let attributes ← Reader.table inner
  return { name, descriptor, attributes }

/-- The layout of a known attribute's body, given how attributes inside it are read. -/
def AttributeInfo.readerOf (inner : Reader Attribute) : AttributeKind → Reader AttributeInfo
  | .constantValue => return constantValue (← Reader.u16)
  | .code => return code (← Code.readerOf inner)
  | .stackMapTable => return stackMapTable (← Reader.table Frame.reader)
  | .exceptions => return exceptions (← Reader.table Reader.u16)
  | .innerClasses => return innerClasses (← Reader.table InnerClass.reader)
  | .enclosingMethod => return enclosingMethod (← EnclosingMethod.reader)
  | .synthetic => return synthetic
  | .signature => return signature (← Reader.u16)
  | .sourceFile => return sourceFile (← Reader.u16)
  | .sourceDebugExtension => return sourceDebugExtension (← Reader.toEnd)
  | .lineNumberTable => return lineNumberTable (← Reader.table LineNumber.reader)
  | .localVariableTable => return localVariableTable (← Reader.table LocalVariable.reader)
  | .localVariableTypeTable => return localVariableTypeTable (← Reader.table LocalVariable.reader)
  | .deprecated => return deprecated
  | .annotations visibility => return annotations visibility (← Reader.table Annot.reader)
  | .parameterAnnotations visibility =>
    return parameterAnnotations visibility (← Annot.parametersReader)
  | .typeAnnotations visibility =>
    return typeAnnotations visibility (← Reader.table TypeAnnot.reader)
  | .annotationDefault => return annotationDefault (← ElementValue.reader)
  | .bootstrapMethods => return bootstrapMethods (← Reader.table BootstrapMethod.reader)
  | .methodParameters => return methodParameters (← Reader.shortTable MethodParameter.reader)
  | .moduleInfo => return moduleInfo (← ModuleInfo.reader)
  | .modulePackages => return modulePackages (← Reader.table Reader.u16)
  | .moduleMainClass => return moduleMainClass (← Reader.u16)
  | .nestHost => return nestHost (← Reader.u16)
  | .nestMembers => return nestMembers (← Reader.table Reader.u16)
  | .record => return record (← Reader.table (RecordComponent.readerOf inner))
  | .permittedSubclasses => return permittedSubclasses (← Reader.table Reader.u16)

/-- What a whole body holds under a name: every byte of a known layout has to be used. -/
def AttributeInfo.ofBody (inner : Reader Attribute) (name : String) (body : List UInt8) :
    Except Error AttributeInfo :=
  match AttributeKind.ofName? name with
  | none => .ok (.custom body)
  | some kind =>
    match AttributeInfo.readerOf inner kind { bytes := body } with
    | .error cause => .error cause
    | .ok (info, left) =>
      if left.bytes.isEmpty then .ok info
      else
        .error (.malformed (.attributeLength name body.length (body.length - left.bytes.length)))

/-! ## Tying the nesting -/

/-- An attribute with at most `depth` levels of attributes inside it. -/
def Attribute.readerWithin (pool : ConstantPool) : (depth : Nat) → Reader Attribute
  | 0 => Reader.exhausted
  | depth + 1 => do
    let nameIndex ← Reader.u16
    let name ← Reader.lift (pool.utf8 nameIndex)
    let length ← Reader.u32
    let body ← Reader.run length.toNat
    let info ← Reader.lift (AttributeInfo.ofBody (readerWithin pool depth) name body)
    return { nameIndex, info }

/-- An attribute.  With no bytes left there is no name to read, which is what depth zero says. -/
def Attribute.reader (pool : ConstantPool) : Reader Attribute := fun input =>
  Attribute.readerWithin pool input.bytes.length input

/-- The attributes of one owner. -/
def Attribute.tableReader (pool : ConstantPool) : Reader (List Attribute) :=
  Reader.table (Attribute.reader pool)

/-- The body of an attribute of a known kind. -/
def AttributeInfo.reader (pool : ConstantPool) (kind : AttributeKind) : Reader AttributeInfo :=
  AttributeInfo.readerOf (Attribute.reader pool) kind

def Code.reader (pool : ConstantPool) : Reader Code := Code.readerOf (Attribute.reader pool)

def RecordComponent.reader (pool : ConstantPool) : Reader RecordComponent :=
  RecordComponent.readerOf (Attribute.reader pool)

end ClassFormat
