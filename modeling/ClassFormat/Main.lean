/-
# ClassFormat.Main: the `classdump` program

Reads what is at the paths among the arguments and hands it to the command.  Archives are handed
over as plain bytes, so the command reports them as archives that cannot be opened.
-/
import ClassFormat.CommandLine

namespace ClassFormat

open Loading

/-- What is at a path of the file system; a name that leads nowhere is a dangling link. -/
partial def readNode (path : String) : IO FileNode := do
  let place := (← IO.currentDir) / path
  if ← place.isDir then
    let names := (← place.readDir).toList.map fun entry => entry.fileName
    let children ← names.mapM fun name => return (name, ← readNode (joinPath path name))
    return children.foldl (fun node (name, child) => node.insert [name] child) (.directory [])
  else if ← place.pathExists then
    try return .file (.plain (← IO.FS.readBinFile place).toList)
    catch _ => return .unreadableFile
  else
    return .danglingLink

/-- The paths that a list of arguments names as inputs. -/
def CommandLine.inputs (arguments : List String) : List String :=
  match CommandLine.parse arguments with
  | .dump request => request.inputs
  | _ => []

end ClassFormat

/-- Prints the answer of the command and ends with its status. -/
def main (arguments : List String) : IO UInt32 := do
  let inputs := ClassFormat.CommandLine.inputs arguments
  let found ← inputs.mapM fun path => return (path, ← ClassFormat.readNode path)
  match (ClassFormat.CommandLine.run (fun path => found.lookup path) arguments).1 with
  | some answer =>
    IO.print answer.output
    return UInt32.ofNat answer.status
  -- What does not end uses up the stack, and the program is aborted.
  | none => return 134
