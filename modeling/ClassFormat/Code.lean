/-
# ClassFormat.Code: questions about a method body

The line and local variable tables of a body may be unsorted and split over several attributes.
The answers here depend on the entries alone: the line of an offset is that of the last entry among
those with the greatest start up to it, and a variable is the first entry that covers the offset.
-/
import ClassFormat.Attribute.Query

namespace ClassFormat.Code

/-- The instructions of the body, and why they stop early if they do. -/
def listing (code : Code) : Listing := Listing.decode code.bytes

/-- The instructions of the body, up to the first that does not decode. -/
def instructions (code : Code) : List Instruction := code.listing.instructions

/-- The entries of all line tables. -/
def lineNumbers (code : Code) : List LineNumber :=
  code.attributes.flatMap fun held =>
    match held.info with
    | .lineNumberTable lines => lines
    | _ => []

/-- The entries of all local variable tables. -/
def localVariables (code : Code) : List LocalVariable :=
  code.attributes.flatMap fun held =>
    match held.info with
    | .localVariableTable entries => entries
    | _ => []

/-- The entry with the greatest start, the later of two with the same one. -/
def latest (best : Option LineNumber) (entry : LineNumber) : Option LineNumber :=
  match best with
  | none => some entry
  | some best => if best.startPc ≤ entry.startPc then some entry else some best

/-- The source line of the instruction at an offset, if the tables tell. -/
def lineAt? (code : Code) (pc : Nat) : Option UInt16 :=
  let candidates := code.lineNumbers.filter fun entry => entry.startPc.toNat ≤ pc
  (candidates.foldl latest none).map LineNumber.line

/-- The local variable that is in a slot at an offset. -/
def variableAt? (code : Code) (slot : UInt16) (pc : Nat) : Option LocalVariable :=
  code.localVariables.find? fun entry => entry.slot == slot && entry.covers pc

/-- The frames of the stack map. -/
def frames (code : Code) : List Frame :=
  match Attribute.find? code.attributes .stackMapTable with
  | some (.stackMapTable frames) => frames
  | _ => []

/-- Passes when an instruction of the body starts at the offset. -/
def checkInstructionStart (code : Code) (pc : Nat) : Except Error Unit :=
  code.listing.checkStart pc

end ClassFormat.Code

namespace ClassFormat.Instruction

/-- The offset at which the instruction's local variable is looked up.  A variable that is written
comes into being behind the instruction that writes it. -/
def variablePc? (instruction : Instruction) : Option Nat :=
  if instruction.isStore then some (instruction.start + instruction.length)
  else if instruction.isLoad then some instruction.start
  else none

/-- The local variable that the instruction reads or writes, as the tables of its body name it. -/
def localVariable? (instruction : Instruction) (code : Code) : Option LocalVariable := do
  let pc ← instruction.variablePc?
  code.variableAt? (← instruction.index?) pc

/-- The pool entry that the instruction names, if it names one. -/
def constant? (instruction : Instruction) (pool : ConstantPool) :
    Except Error (Option Constant) :=
  if instruction.refersToPool then instruction.index?.mapM pool.get else .ok none

end ClassFormat.Instruction
