/-
# ClassFormat.ModuleInfo: module declarations

The body of the attribute that makes a class file declare a module: what the module requires,
exports, opens, uses and provides.
-/
import ClassFormat.AccessFlags
import ClassFormat.Constant.Pool

namespace ClassFormat

/-- A module that is required. -/
structure Requires where
  moduleIndex : PoolIndex
  flags : RequiresFlags
  version : Option PoolIndex

/-- A package that is exported or opened, to the listed modules or to all when none is listed. -/
structure PackageDirective where
  package : PoolIndex
  flags : ExportsFlags
  targets : List PoolIndex

/-- A service and the classes that implement it. -/
structure Provides where
  service : PoolIndex
  implementations : List PoolIndex

/-- The declaration of a module. -/
structure ModuleInfo where
  name : PoolIndex
  flags : ModuleFlags
  version : Option PoolIndex
  requires : List Requires
  exports : List PackageDirective
  opens : List PackageDirective
  /-- The services that the module looks up. -/
  uses : List PoolIndex
  provides : List Provides

def Requires.reader : Reader Requires := do
  let moduleIndex ← Reader.u16
  let flags ← Flags.reader
  let version ← Reader.optionalIndex
  return { moduleIndex, flags, version }

def PackageDirective.reader : Reader PackageDirective := do
  let package ← Reader.u16
  let flags ← Flags.reader
  let targets ← Reader.table Reader.u16
  return { package, flags, targets }

def Provides.reader : Reader Provides := do
  let service ← Reader.u16
  let implementations ← Reader.table Reader.u16
  return { service, implementations }

def ModuleInfo.reader : Reader ModuleInfo := do
  let name ← Reader.u16
  let flags ← Flags.reader
  let version ← Reader.optionalIndex
  let requires ← Reader.table Requires.reader
  let exports ← Reader.table PackageDirective.reader
  let opens ← Reader.table PackageDirective.reader
  let uses ← Reader.table Reader.u16
  let provides ← Reader.table Provides.reader
  return { name, flags, version, requires, exports, opens, uses, provides }

namespace ModuleInfo

def resolveName (info : ModuleInfo) (pool : ConstantPool) : Except Error String :=
  pool.moduleName info.name

def resolveVersion (info : ModuleInfo) (pool : ConstantPool) : Except Error (Option String) :=
  info.version.mapM pool.utf8

def isOpen (info : ModuleInfo) : Bool := info.flags.has .accOpen

end ModuleInfo

def Requires.moduleName (requires : Requires) (pool : ConstantPool) : Except Error String :=
  pool.moduleName requires.moduleIndex

def PackageDirective.packageName (directive : PackageDirective) (pool : ConstantPool) :
    Except Error String :=
  pool.packageName directive.package

/-- Whether only the listed modules are meant. -/
def PackageDirective.isQualified (directive : PackageDirective) : Bool :=
  !directive.targets.isEmpty

def Provides.serviceName (provides : Provides) (pool : ConstantPool) : Except Error String :=
  pool.className provides.service

def Provides.implementationNames (provides : Provides) (pool : ConstantPool) :
    Except Error (List String) :=
  provides.implementations.mapM pool.className

end ClassFormat
