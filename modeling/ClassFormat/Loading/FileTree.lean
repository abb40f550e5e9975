/-
# ClassFormat.Loading.FileTree: files, directories and archives

What a loader finds at a path: a file, a directory, or a link that leads nowhere.  The contents of a
file are bytes or, for an archive, its entries, whose contents are of the same kind again.  There
can be files that may not be read.

The names in a directory are kept in increasing order, and a directory is walked in that order.
-/
import ClassFormat.Text.Split

namespace ClassFormat.Loading

/-! ## Contents of files -/

/-- Whether an archive entry can be read. -/
inductive EntryState where
  | sound
  /-- It can be opened, and its contents cannot be read. -/
  | corrupt
  /-- It cannot be opened. -/
  | unsupported
  deriving DecidableEq

mutual

/-- What is in a file. -/
inductive Contents where
  | plain (bytes : List UInt8)
  | archive (entries : List ArchiveEntry)

/-- An entry of an archive. -/
structure ArchiveEntry where
  name : String
  state : EntryState
  contents : Contents

end

instance : Inhabited Contents := ⟨.plain []⟩

/-- An entry that stands for a directory says so by the end of its name. -/
def ArchiveEntry.isDirectory (entry : ArchiveEntry) : Bool :=
  match entry.name.toList.getLast? with
  | some '/' | some '\\' => true
  | _ => false

/-- What ends every archive, and all there is of one without entries. -/
def endRecord : List UInt8 := [0x50, 0x4B, 0x05, 0x06] ++ List.replicate 18 0

/-- The bytes of a file, for a reader that does not know archives.  Of an archive with entries only
the signature at its front is given, which tells it apart from everything else. -/
def Contents.front : Contents → List UInt8
  | plain bytes => bytes
  | archive [] => endRecord
  | archive (_ :: _) => [0x50, 0x4B, 0x03, 0x04]

/-- The text of a file whose bytes are UTF-8.  An archive with entries is never text: its directory
keeps the mode of a regular file for each of them, and `A4` behind a null byte is in no
character. -/
def Contents.text? : Contents → Option String
  | plain bytes => String.fromUTF8? ⟨bytes.toArray⟩
  | archive [] => String.fromUTF8? ⟨endRecord.toArray⟩
  | archive (_ :: _) => none

/-! ## Places -/

/-- What is at a path. -/
inductive FileNode where
  | file (contents : Contents)
  /-- A file whose contents cannot be read. -/
  | unreadableFile
  | directory (children : List (String × FileNode))
  /-- A link that leads nowhere. -/
  | danglingLink

namespace FileNode

def isDirectory : FileNode → Bool
  | directory _ => true
  | _ => false

def children : FileNode → List (String × FileNode)
  | directory children => children
  | _ => []

/-- Puts a named node among others by its name, in place of any other of that name. -/
def insertChild (name : String) (node : FileNode) :
    List (String × FileNode) → List (String × FileNode)
  | [] => [(name, node)]
  | (other, held) :: children =>
    if name < other then (name, node) :: (other, held) :: children
    else if name = other then (name, node) :: children
    else (other, held) :: insertChild name node children

/-- What is at a place where one node was and another is put.  Two directories become one that holds
what is in either; anything else gives way. -/
def overlay (held added : FileNode) : FileNode :=
  match held, added with
  | directory children, directory others =>
    directory (others.foldl (fun children (name, node) => insertChild name node children) children)
  | _, _ => added

/-- Puts a node at a path below another, making the directories on the way. -/
def insert (root : FileNode) (path : List String) (node : FileNode) : FileNode :=
  match path with
  | [] => root.overlay node
  | name :: path =>
    let below := (root.children.lookup name).getD (directory [])
    directory (insertChild name (below.insert path node) root.children)

/-- The steps of a path: the names between its slashes. -/
def steps (path : String) : List String := (Text.splitAll '/' path.toList).map String.ofList

/-- Puts a node at the end of some steps that start where a path leads.  An empty step or `.` stays,
and `..` goes back from a directory that is made if it is not there. -/
def placeFrom (root : FileNode) (here : List String) :
    (steps : List String) → (node : FileNode) → FileNode
  | [], node => root.insert here node
  | step :: steps, node =>
    if step = "" ∨ step = "." then placeFrom root here steps node
    else if step = ".." then
      placeFrom (root.insert here (directory [])) here.dropLast steps node
    else placeFrom root (here ++ [step]) steps node

/-- Puts a node at a path written with slashes.  A directory that is there already keeps what it
holds. -/
def place (root : FileNode) (path : String) (node : FileNode) : FileNode :=
  root.placeFrom [] (steps path) node

/-- Follows steps from the innermost of some nested directories.  An empty step or `.` stays, `..`
goes back, and both need a directory to start from. -/
def follow? : (steps : List String) → (trail : List FileNode) → Option FileNode
  | [], trail => trail.head?
  | step :: steps, trail =>
    match trail with
    | directory children :: outer =>
      if step = "" ∨ step = "." then follow? steps trail
      else if step = ".." then
        if outer.isEmpty then none else follow? steps outer
      else
        match children.lookup step with
        | some child => follow? steps (child :: trail)
        | none => none
    | _ => none

/-- What is at a relative path; the empty path is nothing. -/
def at? (root : FileNode) (path : String) : Option FileNode :=
  if path.isEmpty then none else follow? (steps path) [root]

end FileNode

/-- What there is at each path. -/
abbrev FileLookup := String → Option FileNode

/-- The contents of the file at a path. -/
def FileLookup.contents? (files : FileLookup) (path : String) : Option Contents :=
  match files path with
  | some (.file contents) => some contents
  | _ => none

/-! ## Walks -/

/-- What a walk through a directory meets besides directories. -/
inductive WalkItem where
  /-- A file, with its contents if they can be read. -/
  | file (path : String) (contents : Option Contents)
  | skipped

/-- A name below a path. -/
def joinPath (path name : String) : String :=
  if path.toList.getLast? = some '/' then path ++ name else path ++ "/" ++ name

mutual

/-- Everything below a path, depth first and by name. -/
def FileNode.walk (path : String) : FileNode → List WalkItem
  | .file contents => [.file path (some contents)]
  | .unreadableFile => [.file path none]
  | .directory children => walkChildren path children
  | .danglingLink => [.skipped]

/-- Everything below the children of a directory. -/
def walkChildren (path : String) : List (String × FileNode) → List WalkItem
  | [] => []
  | (name, node) :: others => FileNode.walk (joinPath path name) node ++ walkChildren path others

end

end ClassFormat.Loading
