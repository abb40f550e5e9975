/-
# ClassFormat.Bytecode.Instruction: instructions of a code array

Instructions stand one after the other.  The length of most follows from the opcode.  A `wide`
instruction depends on the opcode it widens, and a switch on its bounds or its number of pairs; the
operands of a switch start at the next multiple of four from the start of the code, so its length
depends on where it stands too.

Decoding works on the bytes that are left and on their position, so it never looks back.
-/
import ClassFormat.Bytecode.Opcode
import ClassFormat.Reader

namespace ClassFormat

/-! ## Instructions and operands -/

/-- The bytes of one instruction and the offset of the first. -/
structure Instruction where
  start : Nat
  bytes : List UInt8
  deriving DecidableEq

/-- The branches of a switch, relative to its own start. -/
structure SwitchTable where
  default : Int
  /-- Each key with its branch. -/
  targets : List (Int × Int)
  deriving DecidableEq

/-- Where an instruction keeps an operand. -/
inductive Operand where
  /-- In the opcode itself. -/
  | implied (value : Int)
  /-- In `width` bytes at `position`, without a sign. -/
  | unsigned (position width : Nat)
  /-- In `width` bytes at `position`, in two's complement. -/
  | signed (position width : Nat)
  deriving DecidableEq

namespace Operand

/-- The value of an operand, taken from the bytes of its instruction. -/
def value (bytes : List UInt8) : Operand → Int
  | implied value => value
  | unsigned position width => bigEndian ((bytes.drop position).take width)
  | signed position width => bigEndianSigned ((bytes.drop position).take width)

/-- How many bytes of the instruction the operand needs. -/
def extent : Operand → Nat
  | implied _ => 0
  | unsigned position width | signed position width => position + width

end Operand

/-! ## Lengths -/

namespace Instruction

/-- The bytes between the opcode of a switch and its operands. -/
def switchPadding (start : Nat) : Nat := 3 - start % 4

/-- The error of an instruction that needs the byte at `position`. -/
def pastEnd (position : Nat) : Error := .malformed (.operandPastEnd position)

/-- The four-byte number at `distance` from the instruction at `start`. -/
def wordAt (start : Nat) (bytes : List UInt8) (distance : Nat) : Except Error Int :=
  match splitExact 4 (bytes.drop distance) with
  | some (word, _) => .ok (bigEndianSigned word)
  | none => .error (pastEnd (start + distance))

/-- The length of the `tableswitch` at the front of `bytes`. -/
def tableswitchLength (start : Nat) (bytes : List UInt8) : Except Error Nat := do
  let operands := 1 + switchPadding start
  let low ← wordAt start bytes (operands + 4)
  let high ← wordAt start bytes (operands + 8)
  if high < low then throw (.malformed (.switchBounds start low high))
  return operands + 12 + 4 * (high - low + 1).toNat

/-- The length of the `lookupswitch` at the front of `bytes`. -/
def lookupswitchLength (start : Nat) (bytes : List UInt8) : Except Error Nat := do
  let operands := 1 + switchPadding start
  let pairs ← wordAt start bytes (operands + 4)
  if pairs < 0 then throw (.malformed (.switchPairs start pairs))
  return operands + 8 + 8 * pairs.toNat

/-- The length of the `wide` instruction whose widened part is `operands`. -/
def wideLength (start : Nat) (operands : List UInt8) : Except Error Nat :=
  match operands with
  | [] => .error (pastEnd (start + 1))
  | widened :: _ =>
    if widened = Opcode.iinc then .ok 6
    else if Opcode.isWidenable widened then .ok 4
    else .error (.malformed (.wideOpcode widened (start + 1)))

/-- The length that the instruction at the front of `bytes` declares. -/
def declaredLength (start : Nat) (bytes : List UInt8) : Except Error Nat :=
  match bytes with
  | [] => .error (pastEnd start)
  | opcode :: operands =>
    if opcode = Opcode.tableswitch then tableswitchLength start bytes
    else if opcode = Opcode.lookupswitch then lookupswitchLength start bytes
    else if opcode = Opcode.wide then wideLength start operands
    else
      match Opcode.operandLength? opcode with
      | some length => .ok (1 + length)
      | none => .error (.malformed (.undefinedOpcode opcode start))

/-- The instruction at the front of `bytes`, which stand at `start`, and the bytes behind it. -/
def next (start : Nat) (bytes : List UInt8) : Except Error (Instruction × List UInt8) := do
  let length ← declaredLength start bytes
  match splitExact length bytes with
  | some (own, rest) => return (⟨start, own⟩, rest)
  | none => throw (pastEnd (start + length - 1))

/-- The length of the instruction at an offset of a code array, if it ends within the array. -/
def lengthAt (code : List UInt8) (start : Nat) : Except Error Nat := do
  return (← next start (code.drop start)).1.bytes.length

/-! ## What an instruction says -/

def length (instruction : Instruction) : Nat := instruction.bytes.length

def opcode (instruction : Instruction) : UInt8 := instruction.bytes.headD 0

def isWide (instruction : Instruction) : Bool := instruction.opcode == Opcode.wide

/-- The opcode that decides what the instruction does, behind any `wide`. -/
def effectiveOpcode (instruction : Instruction) : UInt8 :=
  if instruction.isWide then instruction.bytes.getD 1 0 else instruction.opcode

/-- The name of an opcode, also of an undefined one. -/
def opcodeName (opcode : UInt8) : String := (Opcode.mnemonic? opcode).getD "undefined"

def mnemonic (instruction : Instruction) : String := opcodeName instruction.opcode

/-- The mnemonic, or `wide` and the mnemonic of the widened instruction. -/
def render (instruction : Instruction) : String :=
  if instruction.isWide then "wide " ++ opcodeName instruction.effectiveOpcode
  else instruction.mnemonic

def refersToPool (instruction : Instruction) : Bool := Opcode.refersToPool instruction.opcode

/-- Whether a local variable is read, also by `iinc` and `ret`. -/
def isLoad (instruction : Instruction) : Bool :=
  let opcode := instruction.effectiveOpcode
  Opcode.within 0x15 0x2d opcode || opcode == Opcode.iinc || opcode == Opcode.ret

/-- Whether a local variable is written. -/
def isStore (instruction : Instruction) : Bool :=
  Opcode.within 0x36 0x4e instruction.effectiveOpcode

/-- Where the local variable slot or the pool index is. -/
def indexOperand? (instruction : Instruction) : Option Operand :=
  let opcode := instruction.opcode
  if opcode = Opcode.wide then some (.unsigned 2 2)
  else if Opcode.within 0x1a 0x2d opcode then some (.implied ((opcode.toNat - 0x1a) % 4 : Nat))
  else if Opcode.within 0x3b 0x4e opcode then some (.implied ((opcode.toNat - 0x3b) % 4 : Nat))
  else if opcode == 0x12 || Opcode.isWidenable opcode then some (.unsigned 1 1)
  else if Opcode.takesPoolIndex opcode then some (.unsigned 1 2)
  else none

/-- Where the branch offset is, the default one for a switch. -/
def offsetOperand? (instruction : Instruction) : Option Operand :=
  let opcode := instruction.opcode
  if Opcode.isShortBranch opcode then some (.signed 1 2)
  else if Opcode.isLongBranch opcode then some (.signed 1 4)
  else if Opcode.isSwitch opcode then some (.signed (1 + switchPadding instruction.start) 4)
  else none

/-- Where the immediate value is: a constant to push, an increment, an element type or a number of
dimensions. -/
def valueOperand? (instruction : Instruction) : Option Operand :=
  let opcode := instruction.opcode
  if Opcode.within 0x02 0x08 opcode then some (.implied ((opcode.toNat : Int) - 3))
  else if Opcode.within 0x09 0x0a opcode then some (.implied ((opcode.toNat : Int) - 0x09))
  else if Opcode.within 0x0b 0x0d opcode then some (.implied ((opcode.toNat : Int) - 0x0b))
  else if Opcode.within 0x0e 0x0f opcode then some (.implied ((opcode.toNat : Int) - 0x0e))
  else if opcode = 0x10 then some (.signed 1 1)
  else if opcode = 0x11 then some (.signed 1 2)
  else if opcode = Opcode.iinc then some (.signed 2 1)
  else if opcode = 0xbc then some (.unsigned 1 1)
  else if opcode = 0xc5 then some (.unsigned 3 1)
  else if opcode = Opcode.wide ∧ instruction.effectiveOpcode = Opcode.iinc then
    some (.signed 4 2)
  else none

/-- The local variable slot or pool index. -/
def index? (instruction : Instruction) : Option UInt16 :=
  instruction.indexOperand?.map fun operand =>
    UInt16.ofNat (operand.value instruction.bytes).toNat

/-- The branch offset, relative to the start of the instruction. -/
def offset? (instruction : Instruction) : Option Int :=
  instruction.offsetOperand?.map (Operand.value instruction.bytes)

/-- The immediate value. -/
def value? (instruction : Instruction) : Option Int :=
  instruction.valueOperand?.map (Operand.value instruction.bytes)

/-- The four-byte number at a position of a switch. -/
def switchWord (instruction : Instruction) (position : Nat) : Int :=
  (Operand.signed position 4).value instruction.bytes

/-- The jump table of a switch.  The keys of a `tableswitch` run from its low to its high bound. -/
def switchTable? (instruction : Instruction) : Option SwitchTable :=
  let operands := 1 + switchPadding instruction.start
  let default := instruction.switchWord operands
  if instruction.opcode = Opcode.tableswitch then
    let low := instruction.switchWord (operands + 4)
    let high := instruction.switchWord (operands + 8)
    some ⟨default, (List.range (high - low + 1).toNat).map fun (i : Nat) =>
      (low + (i : Int), instruction.switchWord (operands + 12 + 4 * i))⟩
  else if instruction.opcode = Opcode.lookupswitch then
    let pairs := instruction.switchWord (operands + 4)
    some ⟨default, (List.range pairs.toNat).map fun i =>
      (instruction.switchWord (operands + 8 + 8 * i),
       instruction.switchWord (operands + 12 + 8 * i))⟩
  else none

end Instruction

/-! ## Whole code arrays -/

/-- The instructions of a code array up to the first that does not decode, and why it does not. -/
structure Listing where
  instructions : List Instruction
  fault : Option Error

namespace Listing

/-- The instructions of `bytes`, which stand at `start`; every instruction has a byte, so `fuel` is
the number of bytes. -/
def decodeFrom : (fuel start : Nat) → (bytes : List UInt8) → Listing
  | _, _, [] => ⟨[], none⟩
  | 0, _, _ :: _ => ⟨[], none⟩
  | fuel + 1, start, byte :: bytes =>
    match Instruction.next start (byte :: bytes) with
    | .ok (instruction, rest) =>
      let others := decodeFrom fuel (start + instruction.length) rest
      ⟨instruction :: others.instructions, others.fault⟩
    | .error fault => ⟨[], some fault⟩

/-- The instructions of a whole code array. -/
def decode (code : List UInt8) : Listing := decodeFrom code.length 0 code

/-- Passes when an instruction of the listing starts at the offset. -/
def checkStart (listing : Listing) (pc : Nat) : Except Error Unit :=
  if listing.instructions.any fun instruction => instruction.start == pc then .ok ()
  else .error (.malformed (.notInstructionStart pc))

end Listing

end ClassFormat
