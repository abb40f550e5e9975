/-
# ClassFormat.Loading.Loader: loading class files from paths

A loader takes paths of class files, directories and archives, decodes every class file it finds
and keeps the results by name, the latest of each name.  What happens is logged in order: sessions
hold groups (one for each path, archive or nested archive), groups hold files, and a file that is a
class file is reported again once it has been decoded.  A file that cannot be read or decoded is
logged and passed over.

A loader keeps the names of the groups that are open.  A file is reported as one of the innermost of
them, and a group that ends is reported under the name that is taken off.
-/
import ClassFormat.Hierarchy
import ClassFormat.Loading.FileTree
import ClassFormat.Loading.MultiRelease
import ClassFormat.Warning

namespace ClassFormat.Loading

/-! ## What is reported -/

/-- The progress of a load. -/
inductive Event where
  | beginSession
  | beginGroup (group : String) (size : Nat)
  | beginFile (group file : String)
  | beginClassFile (group file : String)
  /-- The class file was decoded. -/
  | endClassFile (group file : String) (decoded : ClassFile)
  | endFile (group file : String)
  | endGroup (group : String)
  | endSession

/-- What a load reports. -/
inductive LogEntry where
  | event (event : Event)
  | warning (warning : Warning)

/-! ## Names and archives -/

/-- What a file name says about how to load the file. -/
inductive FileKind where
  | classFile
  | jar
  | zip
  | other
  deriving DecidableEq

/-- By the end of the name, in any case. -/
def FileKind.ofName (name : String) : FileKind :=
  let lower := name.toList.map Char.toLower
  if ".class".toList.isSuffixOf lower then .classFile
  else if ".jar".toList.isSuffixOf lower then .jar
  else if ".zip".toList.isSuffixOf lower then .zip
  else .other

/-- The entry that a look-up by name finds: the last of that name. -/
def findEntry? (entries : List ArchiveEntry) (name : String) : Option ArchiveEntry :=
  entries.reverse.find? fun entry => entry.name == name

/-- Whether the manifest of an archive asks for multi-release handling.  The manifest has to be
readable text if there is one. -/
def asksMultiRelease (entries : List ArchiveEntry) : Except LoadError Bool :=
  match findEntry? entries manifestPath with
  | none => .ok false
  | some entry =>
    match entry.state with
    | .unsupported => .error .badArchive
    | .corrupt => .error .unreadable
    | .sound =>
      match entry.contents.text? with
      | some manifest => .ok (declaresMultiRelease manifest.toList)
      | none => .error .unreadable

/-- Whether an archive gets multi-release handling, which is for jars that ask for it. -/
def isMultiRelease (jar : Bool) (entries : List ArchiveEntry) : Except LoadError Bool :=
  if jar then asksMultiRelease entries else .ok false

/-- The entries of an archive that are no directories, with their positions. -/
def fileEntries (entries : List ArchiveEntry) : List (ArchiveEntry × Nat) :=
  entries.zipIdx.filter fun (entry, _) => !entry.isDirectory

/-- The positions of those entries that are selected by their names, in the order to load them. -/
def selectedPositions (target : Option Nat) (multiRelease : Bool) (entries : List ArchiveEntry) :
    List Nat :=
  let files := fileEntries entries
  let selected := selectEntries (files.map fun (entry, _) => entry.name) multiRelease target
  selected.filterMap fun position => files[position]?.map Prod.snd

/-- The positions of the entries of an archive to load, in the order to load them. -/
def entriesToLoad (target : Option Nat) (jar : Bool) (entries : List ArchiveEntry) :
    Except LoadError (List Nat) := do
  let multiRelease ← isMultiRelease jar entries
  if entries.any fun entry => entry.state = .unsupported then .error .badArchive
  else .ok (selectedPositions target multiRelease entries)

/-! ## Loaders at work -/

/-- The classes loaded so far. -/
structure Loader where
  /-- The platform release whose versions of classes are loaded, or the newest. -/
  target : Option Nat := none
  classes : Repository := .empty
  /-- The names of the groups that are open, innermost first. -/
  groups : List String := []

/-- A loader at work and what it has reported. -/
structure Progress extends Loader where
  log : Array LogEntry := #[]

/-- A step of a load. -/
abbrev LoadM := StateM Progress

/-- The name of the innermost group that is open, empty without one. -/
def Progress.currentGroup (progress : Progress) : String := progress.groups.headD ""

def report (entry : LogEntry) : LoadM Unit :=
  modify fun progress => { progress with log := progress.log.push entry }

def announce (event : Event) : LoadM Unit := report (.event event)

def warn (warning : Warning) : LoadM Unit := report (.warning warning)

def beginGroup (name : String) (size : Nat) : LoadM Unit := do
  announce (.beginGroup name size)
  modify fun progress => { progress with groups := name :: progress.groups }

/-- Ends the innermost group, if there is one. -/
def endGroup : LoadM Unit := do
  match (← get).groups with
  | [] => return
  | name :: outer =>
    modify fun progress => { progress with groups := outer }
    announce (.endGroup name)

/-- Does the steps of a group between its beginning and its end. -/
def inGroup {α : Type} (name : String) (size : Nat) (steps : LoadM α) : LoadM α := do
  beginGroup name size
  let result ← steps
  endGroup
  return result

/-- Keeps a class file under a name, in place of any other of that name. -/
def keep (name : String) (file : ClassFile) : LoadM Unit :=
  modify fun progress => { progress with classes := progress.classes.insert name file }

/-! ## Files and archives -/

/-- Decodes a class file of the current group and keeps it under the name of its class. -/
def loadClassFile (name : String) (bytes : List UInt8) : LoadM Unit := do
  let group := (← get).currentGroup
  announce (.beginClassFile group name)
  let decoded := do
    let file ← ClassFile.decode bytes
    return (← file.name, file)
  match decoded with
  | .ok (className, file) =>
    announce (.endClassFile group name file)
    keep className file
  | .error cause => warn (.classNotLoaded name cause)

/-- Loads an archive as a group of its own, given how to load each of its entries. -/
def loadEntries (target : Option Nat) (name : String) (jar : Bool) (entries : List ArchiveEntry)
    (loads : List (LoadM Unit)) : LoadM (Except LoadError Unit) := do
  match entriesToLoad target jar entries with
  | .error cause => return .error cause
  | .ok selected =>
    inGroup name selected.length (selected.forM fun position => loads.getD position (return))
    return .ok ()

/-- Does a step that can fail, and reports why it did. -/
def orWarn (warning : LoadError → Warning) (step : LoadM (Except LoadError Unit)) : LoadM Unit := do
  match ← step with
  | .ok () => return
  | .error cause => warn (warning cause)

/-- Loads one file of the current group as its name says, given its bytes and how to load it as an
archive with or without multi-release handling.  A file of another kind is only reported. -/
def loadByName (name : String) (bytes : List UInt8)
    (asArchive : (jar : Bool) → LoadM (Except LoadError Unit)) : LoadM Unit := do
  let group := (← get).currentGroup
  announce (.beginFile group name)
  match FileKind.ofName name with
  | .classFile => loadClassFile name bytes
  | .jar => orWarn (.nestedArchiveNotLoaded name) (asArchive true)
  | .zip => orWarn (.nestedArchiveNotLoaded name) (asArchive false)
  | .other => pure ()
  announce (.endFile group name)

mutual

/-- Loads one file of the current group. -/
def loadFile (target : Option Nat) (name : String) : Contents → LoadM Unit
  | .plain bytes => loadByName name bytes fun _ => return .error .badArchive
  | .archive entries =>
    loadByName name (Contents.archive entries).front fun jar =>
      loadEntries target name jar entries (entryLoads target name entries)

/-- How to load each entry of an archive. -/
def entryLoads (target : Option Nat) (archive : String) : List ArchiveEntry → List (LoadM Unit)
  | [] => []
  | entry :: others => loadEntry target archive entry :: entryLoads target archive others

/-- Loads one entry of an archive, or reports that it cannot be read. -/
def loadEntry (target : Option Nat) (archive : String) : ArchiveEntry → LoadM Unit
  | ⟨name, state, contents⟩ =>
    if state = .corrupt then warn (.entryNotRead name archive)
    else loadFile target name contents

end

/-- Loads an archive as a group of its own. -/
def loadArchive (target : Option Nat) (name : String) (jar : Bool) :
    Contents → LoadM (Except LoadError Unit)
  | .plain _ => return .error .badArchive
  | .archive entries => loadEntries target name jar entries (entryLoads target name entries)

/-! ## Paths and sessions -/

/-- Loads a file found in a directory, or reports that it cannot be read.  Only files that can hold
classes are read. -/
def loadFound (target : Option Nat) (name : String) (contents : Option Contents) : LoadM Unit :=
  if FileKind.ofName name = .other then loadFile target name (.plain [])
  else
    match contents with
    | some contents => loadFile target name contents
    | none => warn (.fileNotRead name)

/-- Loads every file below a directory as one group. -/
def loadDirectory (target : Option Nat) (path : String) (node : FileNode) : LoadM Unit := do
  let items := node.walk path
  items.forM fun
    | .skipped => warn (.entrySkipped path)
    | .file _ _ => return
  let files := items.filterMap fun
    | .file file contents => some (file, contents)
    | .skipped => none
  inGroup path files.length (files.forM fun (file, contents) => loadFound target file contents)

/-- Loads the archive at a path. -/
def loadArchiveAt (target : Option Nat) (files : FileLookup) (path : String) (jar : Bool) :
    LoadM (Except LoadError Unit) :=
  match files.contents? path with
  | none => return .error .unreadable
  | some contents => loadArchive target path jar contents

/-- Loads the class file at a path as a group of its own. -/
def loadClassFileAt (target : Option Nat) (files : FileLookup) (path : String) :
    LoadM (Except LoadError Unit) :=
  inGroup path 1 do
    match files.contents? path with
    | some contents =>
      loadFile target path contents
      return .ok ()
    | none => return .error .unreadable

/-- Loads the file at a path as a class file or an archive, by its name. -/
def loadFileAt (target : Option Nat) (files : FileLookup) (path : String) :
    LoadM (Except LoadError Unit) :=
  match FileKind.ofName path with
  | .classFile => loadClassFileAt target files path
  | .jar => loadArchiveAt target files path true
  | .zip => loadArchiveAt target files path false
  | .other => return .ok ()

/-- Loads what is at a path, a directory or a file. -/
def loadPlace (target : Option Nat) (files : FileLookup) (path : String) :
    LoadM (Except LoadError Unit) := do
  match files path with
  | some (.directory children) =>
    loadDirectory target path (.directory children)
    return .ok ()
  | _ => loadFileAt target files path

/-- Loads what is at a path, or reports why it cannot be loaded. -/
def loadPath (target : Option Nat) (files : FileLookup) (path : String) : LoadM Unit :=
  orWarn (.pathNotLoaded path) (loadPlace target files path)

/-- Loads several paths in one session. -/
def loadSession (target : Option Nat) (files : FileLookup) (paths : List String) : LoadM Unit := do
  announce .beginSession
  paths.forM (loadPath target files)
  announce .endSession

/-! ## Loaders -/

namespace Loader

/-- Lets a loader do a step of a load: the result, the loader afterwards and what it reported. -/
def perform {α : Type} (loader : Loader) (step : LoadM α) : α × Loader × List LogEntry :=
  let (result, progress) := step.run { loader with }
  (result, progress.toLoader, progress.log.toList)

/-- Loads several paths in one session. -/
def load (loader : Loader) (files : FileLookup) (paths : List String) : Loader × List LogEntry :=
  (loader.perform (loadSession loader.target files paths)).2

/-- Loads what is at one path, outside any session. -/
def loadPath (loader : Loader) (files : FileLookup) (path : String) : Loader × List LogEntry :=
  (loader.perform (Loading.loadPath loader.target files path)).2

/-- Loads an archive, outside any session. -/
def loadArchive (loader : Loader) (name : String) (jar : Bool) (contents : Contents) :
    Except LoadError Unit × Loader × List LogEntry :=
  loader.perform (Loading.loadArchive loader.target name jar contents)

end Loader

/-- The class file at a path. -/
def classFileAt (files : FileLookup) (path : String) : Except Error ClassFile :=
  match files.contents? path with
  | some contents => ClassFile.decode contents.front
  | none => .error (.unreadable "no such file")

end ClassFormat.Loading
