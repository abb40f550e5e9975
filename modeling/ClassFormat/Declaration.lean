/-
# ClassFormat.Declaration: classes, fields and methods in source form

Declarations list the modifiers, the types and the names as source text would.  A constructor is
declared under the simple name of its class and has no return type; the static initializer is
`static {}`.
-/
import ClassFormat.ClassFile
import ClassFormat.Code
import ClassFormat.Constant.Render
import ClassFormat.Text.Quoted

namespace ClassFormat

/-- Modifiers with a blank after each. -/
def writtenModifiers (modifiers : List String) : String :=
  String.join (modifiers.map (· ++ " "))

/-- A keyword and a list of names, or nothing when the list is written as nothing. -/
def clause (keyword : String) (names : String) : String :=
  if names.isEmpty then "" else s!" {keyword} {names}"

/-- The declaration of a class or interface, with its supertypes. -/
def ClassFile.declaration (file : ClassFile) : Except Error String := do
  let modifiers := writtenModifiers file.flags.modifiers
  let interfaces := ", ".intercalate (← file.interfaceNames)
  let name ← file.name
  if file.has .accInterface then
    return modifiers ++ "interface " ++ name ++ clause "extends" interfaces
  else
    let superclass := match ← file.superclassName with
      | some superclass => " extends " ++ superclass
      | none => ""
    return modifiers ++ "class " ++ name ++ superclass ++ clause "implements" interfaces

/-! ## Fields -/

namespace Field

/-- The rendered type of a field. -/
def typeName (field : Field) (file : ClassFile) : Except Error String := do
  Descriptor.typeName (← field.descriptor file.pool)

/-- The class and the name with a point between them. -/
def fullName (field : Field) (file : ClassFile) : Except Error String := do
  return (← file.name) ++ "." ++ (← field.name file.pool)

/-- The index of the initial value. -/
def constantValue? (field : Field) : Option PoolIndex :=
  match Attribute.find? field.attributes .constantValue with
  | some (.constantValue index) => some index
  | _ => none

/-- A constant as a literal: a string between quotes, anything else as it is rendered. -/
def literalOf (pool : ConstantPool) (index : PoolIndex) : Rendering String := do
  match ← pool.get index with
  | .string text => return Text.Quoted.quote (← pool.utf8 text)
  | constant => constant.render pool

/-- The initial value as a literal. -/
def literal (field : Field) (file : ClassFile) : Rendering (Option String) :=
  field.constantValue?.mapM (literalOf file.pool)

/-- The declaration of a field, with its initial value if it has one. -/
def declaration (field : Field) (file : ClassFile) : Rendering String := do
  let type ← typeName field file
  let name ← field.name file.pool
  let initial := match ← literal field file with
    | some value => " = " ++ value
    | none => ""
  return writtenModifiers field.flags.modifiers ++ type ++ " " ++ name ++ initial

end Field

/-! ## Methods -/

namespace Method

def isConstructor (method : Method) (file : ClassFile) : Except Error Bool := do
  return (← method.name file.pool) == Name.constructor

def isStaticInitializer (method : Method) (file : ClassFile) : Except Error Bool := do
  return (← method.name file.pool) == Name.staticInitializer

/-- The name of a method, as source text has it, with its parameter types. -/
def signature (method : Method) (file : ClassFile) : Except Error String := do
  let name ← method.name file.pool
  if name == Name.staticInitializer then return "static \x7b\x7d"
  let parameters ← Descriptor.signature (← method.descriptor file.pool)
  if name == Name.constructor then return (← file.simpleName) ++ parameters
  return name ++ parameters

/-- The class and the name with a point between them. -/
def fullName (method : Method) (file : ClassFile) : Except Error String := do
  return (← file.name) ++ "." ++ (← method.name file.pool)

/-- The class and the signature with a point between them. -/
def fullSignature (method : Method) (file : ClassFile) : Except Error String := do
  return (← file.name) ++ "." ++ (← signature method file)

def returnType (method : Method) (file : ClassFile) : Except Error String := do
  Descriptor.returnType (← method.descriptor file.pool)

def parameterTypes (method : Method) (file : ClassFile) : Except Error (List String) := do
  Descriptor.parameterTypes (← method.descriptor file.pool)

def parameterCount (method : Method) (file : ClassFile) : Except Error Nat := do
  Descriptor.parameterCount (← method.descriptor file.pool)

/-- The exceptions that the method declares. -/
def exceptions (method : Method) : List PoolIndex :=
  match Attribute.find? method.attributes .exceptions with
  | some (.exceptions classes) => classes
  | _ => []

def exceptionNames (method : Method) (file : ClassFile) : Except Error (List String) :=
  (exceptions method).mapM file.pool.className

/-- The formal parameters, where their names are kept. -/
def parameters (method : Method) : List MethodParameter :=
  match Attribute.find? method.attributes .methodParameters with
  | some (.methodParameters parameters) => parameters
  | _ => []

/-- The body of the method. -/
def code? (method : Method) : Option Code :=
  match Attribute.find? method.attributes .code with
  | some (.code body) => some body
  | _ => none

/-- The declaration of a method, with the exceptions it throws. -/
def declaration (method : Method) (file : ClassFile) : Except Error String := do
  let isConstructor ← isConstructor method file
  let isStaticInitializer ← isStaticInitializer method file
  let modifiers := method.flags.modifiers.filter fun modifier =>
    !(isStaticInitializer && modifier == "static")
  let result ←
    if isConstructor || isStaticInitializer then pure ""
    else (returnType method file).map (· ++ " ")
  let signature ← signature method file
  let exceptions ← exceptionNames method file
  let thrown := if exceptions.isEmpty then "" else " throws " ++ ", ".intercalate exceptions
  return writtenModifiers modifiers ++ result ++ signature ++ thrown

end Method

/-- The entries that the method handles among the bootstrap arguments of the instruction's dynamic
entry refer to; an instruction without a dynamic entry has none. -/
def Instruction.dynamicTargets (instruction : Instruction) (file : ClassFile) :
    Except Error (List Constant) := do
  match ← instruction.constant? file.pool with
  | some (.dynamic ref) | some (.invokeDynamic ref) =>
    match file.bootstrapMethod? ref.bootstrap.toNat with
    | none => throw (.missingBootstrap ref.bootstrap)
    | some bootstrap =>
      let targets ← bootstrap.arguments.mapM fun argument => do
        match ← file.pool.get argument with
        | .methodHandle handle => return some (← handle.target file.pool)
        | _ => return none
      return targets.filterMap id
  | _ => return []

end ClassFormat
