/-
# ClassFormat.ClassFile: the class file

A class file is read once from front to back.  A class has to have a name: it is resolved as soon as
its index is known, before anything behind it is read.
-/
import ClassFormat.Member
import ClassFormat.Version

namespace ClassFormat

/-- A decoded class file. -/
structure ClassFile where
  version : Version
  pool : ConstantPool
  flags : ClassFlags
  thisClass : PoolIndex
  superClass : Option PoolIndex
  interfaces : List PoolIndex
  fields : List Field
  methods : List Method
  attributes : List Attribute

namespace ClassFile

/-- The signature that every class file starts with. -/
def magic : UInt32 := 0xCAFEBABE

/-- The signature. -/
def magicReader : Reader Unit := do
  let found ← Reader.u32
  if found ≠ magic then Reader.fail (.malformed (.magicNumber found))

def reader : Reader ClassFile := do
  magicReader
  let version ← Version.reader
  let pool ← ConstantPool.reader
  let flags ← Flags.reader
  let thisClass ← Reader.u16
  let _ ← Reader.lift (pool.className thisClass)
  let superClass ← Reader.optionalIndex
  let interfaces ← Reader.table Reader.u16
  let fields ← Reader.table (Member.reader pool)
  let methods ← Reader.table (Member.reader pool)
  let attributes ← Attribute.tableReader pool
  return { version, pool, flags, thisClass, superClass, interfaces, fields, methods, attributes }

/-- The class file at the front of some bytes. -/
def decode (bytes : List UInt8) : Except Error ClassFile :=
  (reader { bytes }).map Prod.fst

/-! ## Queries -/

/-- The dotted name of the class. -/
def name (file : ClassFile) : Except Error String := file.pool.className file.thisClass

/-- The package of the class, empty for the default package. -/
def packageName (file : ClassFile) : Except Error String := file.name.map Name.packageOf

/-- The name of the class without its package. -/
def simpleName (file : ClassFile) : Except Error String := file.name.map Name.simple

def superclassName (file : ClassFile) : Except Error (Option String) :=
  file.superClass.mapM file.pool.className

def interfaceNames (file : ClassFile) : Except Error (List String) :=
  file.interfaces.mapM file.pool.className

def has (file : ClassFile) (flag : AccessFlag) : Bool := file.flags.has flag

/-- By its flags or by an attribute. -/
def isSynthetic (file : ClassFile) : Bool :=
  file.has .accSynthetic || Attribute.has file.attributes .synthetic

def isDeprecated (file : ClassFile) : Bool := Attribute.has file.attributes .deprecated

def isGeneric (file : ClassFile) : Bool := Attribute.has file.attributes .signature

/-- The name of the source file, if it is known. -/
def sourceFile (file : ClassFile) : Except Error (Option String) :=
  match Attribute.find? file.attributes .sourceFile with
  | some (.sourceFile index) => (file.pool.utf8 index).map some
  | _ => .ok none

/-- The classes listed as inner ones, the class itself among them if it is one. -/
def innerClasses (file : ClassFile) : List InnerClass :=
  match Attribute.find? file.attributes .innerClasses with
  | some (.innerClasses classes) => classes
  | _ => []

def enclosingMethod? (file : ClassFile) : Option EnclosingMethod :=
  match Attribute.find? file.attributes .enclosingMethod with
  | some (.enclosingMethod method) => some method
  | _ => none

def bootstrapMethods (file : ClassFile) : List BootstrapMethod :=
  match Attribute.find? file.attributes .bootstrapMethods with
  | some (.bootstrapMethods methods) => methods
  | _ => []

def bootstrapMethod? (file : ClassFile) (index : Nat) : Option BootstrapMethod :=
  file.bootstrapMethods[index]?

/-- The module that the class file declares. -/
def moduleInfo? (file : ClassFile) : Option ModuleInfo :=
  match Attribute.find? file.attributes .moduleInfo with
  | some (.moduleInfo info) => some info
  | _ => none

def recordComponents (file : ClassFile) : List RecordComponent :=
  match Attribute.find? file.attributes .record with
  | some (.record components) => components
  | _ => []

/-! ## Inner classes -/

/-- The first element for which a fallible test holds; an element whose test fails stops the
search. -/
def findFirst? {α : Type} (test : α → Except Error Bool) : List α → Except Error (Option α)
  | [] => .ok none
  | x :: xs => do
    if ← test x then return some x else findFirst? test xs

/-- The entry that describes the class itself among the inner classes. -/
def ownInnerClass (file : ClassFile) : Except Error (Option InnerClass) := do
  let name ← file.name
  findFirst? (fun entry => return (← entry.innerName file.pool) == name) file.innerClasses

def isInnerClass (file : ClassFile) : Except Error Bool :=
  file.ownInnerClass.map Option.isSome

def isMemberClass (file : ClassFile) : Except Error Bool :=
  file.ownInnerClass.map (·.any InnerClass.isMember)

/-- Whether the class has a name and is declared in a method. -/
def isLocalClass (file : ClassFile) : Except Error Bool :=
  file.ownInnerClass.map fun own =>
    file.enclosingMethod?.isSome && own.any fun entry => !entry.isAnonymous

def isAnonymousClass (file : ClassFile) : Except Error Bool :=
  file.ownInnerClass.map (·.any InnerClass.isAnonymous)

end ClassFile

end ClassFormat
