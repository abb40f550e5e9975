/-
# ClassFormat.Traversal: everything in a class file, in order

A traversal lists every part of a class file once, each before what it contains: fields, methods,
then the attributes of the class.  A method body is followed by its instructions, its handlers and
its attributes; a frame by its locals and its stack items; an annotation by its pairs.

The constant pool is not part of a class file's traversal and has one of its own.  Lists of classes
in attributes lead to the entries they name, as far as those exist.
-/
import ClassFormat.Declaration

namespace ClassFormat

/-- A part of a class file, as a traversal meets it. -/
inductive Visit where
  | classFile (file : ClassFile)
  | pool (pool : ConstantPool)
  | constant (index : PoolIndex) (constant : Constant)
  /-- The second index of an eight-byte constant. -/
  | unusable (index : PoolIndex)
  | field (field : Field)
  | method (method : Method)
  /-- Any attribute, before what it holds. -/
  | anyAttribute (held : Attribute)
  /-- What an attribute other than a method body holds. -/
  | contents (held : Attribute)
  | code (body : Code)
  | instruction (instruction : Instruction)
  | handler (handler : ExceptionHandler)
  | innerClass (entry : InnerClass)
  | lineNumber (entry : LineNumber)
  | localVariable (entry : LocalVariable)
  | localVariableType (entry : LocalVariable)
  | bootstrapMethod (method : BootstrapMethod)
  | methodParameter (parameter : MethodParameter)
  | recordComponent (component : RecordComponent)
  | requires (directive : Requires)
  | exports (directive : PackageDirective)
  | opens (directive : PackageDirective)
  | uses (service : PoolIndex)
  | provides (directive : Provides)
  | frame (frame : Frame)
  | verificationType (type : VerificationType)
  | annot (annot : Annot)
  | parameterAnnots (annots : List Annot)
  | typeAnnot (annot : TypeAnnot)
  | elementPair (pair : ElementPair)
  /-- Any element value, before what it holds. -/
  | anyElementValue (value : ElementValue)
  /-- What an element value holds. -/
  | elementValue (value : ElementValue)

/-! ## Annotations -/

mutual

def ElementValue.visits : ElementValue → List Visit
  | .nested inner =>
    .anyElementValue (.nested inner) :: .elementValue (.nested inner) :: Annot.visits inner
  | .array values =>
    .anyElementValue (.array values) :: .elementValue (.array values) :: valuesVisits values
  | value => [.anyElementValue value, .elementValue value]

def Annot.visits : Annot → List Visit
  | ⟨typeIndex, pairs⟩ => .annot ⟨typeIndex, pairs⟩ :: pairsVisits pairs

def ElementPair.visits : ElementPair → List Visit
  | ⟨name, value⟩ => .elementPair ⟨name, value⟩ :: ElementValue.visits value

/-- The parts of several element values. -/
def valuesVisits : List ElementValue → List Visit
  | [] => []
  | value :: values => ElementValue.visits value ++ valuesVisits values

/-- The parts of several elements with their values. -/
def pairsVisits : List ElementPair → List Visit
  | [] => []
  | pair :: pairs => ElementPair.visits pair ++ pairsVisits pairs

end

/-- The annotations of one formal parameter. -/
def parameterVisits (annots : List Annot) : List Visit :=
  .parameterAnnots annots :: annots.flatMap Annot.visits

def TypeAnnot.visits (annot : TypeAnnot) : List Visit :=
  .typeAnnot annot :: pairsVisits annot.pairs

/-! ## Frames, modules and tables -/

def Frame.visits (frame : Frame) : List Visit :=
  .frame frame :: (frame.locals ++ frame.stack).map .verificationType

/-- The directives of a module, kind by kind. -/
def ModuleInfo.visits (info : ModuleInfo) : List Visit :=
  info.requires.map .requires ++ info.exports.map .exports ++ info.opens.map .opens
    ++ info.uses.map .uses ++ info.provides.map .provides

/-- The entries that a list of class indices leads to. -/
def classVisits (pool : ConstantPool) (classes : List PoolIndex) : List Visit :=
  classes.filterMap fun index =>
    match pool.get index with
    | .ok constant => some (.constant index constant)
    | .error _ => none

/-- The parts of what an attribute holds, for attributes that hold no attributes. -/
def AttributeInfo.parts (pool : ConstantPool) : AttributeInfo → List Visit
  | .stackMapTable frames => frames.flatMap Frame.visits
  | .exceptions classes | .nestMembers classes | .permittedSubclasses classes =>
    classVisits pool classes
  | .innerClasses classes => classes.map .innerClass
  | .lineNumberTable lines => lines.map .lineNumber
  | .localVariableTable entries => entries.map .localVariable
  | .localVariableTypeTable entries => entries.map .localVariableType
  | .annotations _ annots => annots.flatMap Annot.visits
  | .parameterAnnotations _ parameters => parameters.flatMap parameterVisits
  | .typeAnnotations _ annots => annots.flatMap TypeAnnot.visits
  | .annotationDefault value => value.visits
  | .bootstrapMethods methods => methods.map .bootstrapMethod
  | .methodParameters parameters => parameters.map .methodParameter
  | .moduleInfo info => info.visits
  | _ => []

/-! ## Attributes -/

mutual

def Attribute.visits (pool : ConstantPool) : Attribute → List Visit
  | ⟨nameIndex, info⟩ =>
    .anyAttribute ⟨nameIndex, info⟩ :: AttributeInfo.visits pool nameIndex info

/-- What an attribute of a name holds, and its parts. -/
def AttributeInfo.visits (pool : ConstantPool) (nameIndex : PoolIndex) :
    AttributeInfo → List Visit
  | .code body => Code.visits pool body
  | .record components =>
    .contents ⟨nameIndex, .record components⟩ :: componentsVisits pool components
  | info => .contents ⟨nameIndex, info⟩ :: info.parts pool

def Code.visits (pool : ConstantPool) : Code → List Visit
  | ⟨maxStack, maxLocals, bytes, handlers, attributes⟩ =>
    .code ⟨maxStack, maxLocals, bytes, handlers, attributes⟩
      :: ((Listing.decode bytes).instructions.map .instruction ++ handlers.map .handler
        ++ attributesVisits pool attributes)

def RecordComponent.visits (pool : ConstantPool) : RecordComponent → List Visit
  | ⟨name, descriptor, attributes⟩ =>
    .recordComponent ⟨name, descriptor, attributes⟩ :: attributesVisits pool attributes

/-- The parts of a table of attributes. -/
def attributesVisits (pool : ConstantPool) : List Attribute → List Visit
  | [] => []
  | held :: others => Attribute.visits pool held ++ attributesVisits pool others

/-- The parts of the components of a record. -/
def componentsVisits (pool : ConstantPool) : List RecordComponent → List Visit
  | [] => []
  | component :: others =>
    RecordComponent.visits pool component ++ componentsVisits pool others

end

/-! ## Pools and class files -/

/-- Every index of the pool: its entries, and the second index of those that take two. -/
def ConstantPool.visits (pool : ConstantPool) : List Visit :=
  .pool pool :: pool.entries.flatMap fun (index, constant) =>
    .constant index constant
      :: (List.range (HasWidth.width constant - 1)).map fun i =>
        .unusable (index + UInt16.ofNat (i + 1))

def Field.visits (pool : ConstantPool) (field : Field) : List Visit :=
  .field field :: attributesVisits pool field.attributes

def Method.visits (pool : ConstantPool) (method : Method) : List Visit :=
  .method method :: attributesVisits pool method.attributes

def ClassFile.visits (file : ClassFile) : List Visit :=
  .classFile file
    :: (file.fields.flatMap (Field.visits file.pool)
      ++ file.methods.flatMap (Method.visits file.pool)
      ++ attributesVisits file.pool file.attributes)

end ClassFormat
