/-
# ClassFormat.Bytecode.Opcode: the instruction set

An instruction starts with an opcode byte.  The opcode gives its mnemonic and, apart from the two
switches and `wide`, the number of operand bytes that follow.
-/

namespace ClassFormat.Opcode

/-- The mnemonics of opcodes `0x00` to `0xca`, in order. -/
def mnemonics : List String :=
  ["nop", "aconst_null", "iconst_m1", "iconst_0", "iconst_1", "iconst_2", "iconst_3", "iconst_4",
   "iconst_5", "lconst_0", "lconst_1", "fconst_0", "fconst_1", "fconst_2", "dconst_0", "dconst_1",
   "bipush", "sipush", "ldc", "ldc_w", "ldc2_w", "iload", "lload", "fload",
   "dload", "aload", "iload_0", "iload_1", "iload_2", "iload_3", "lload_0", "lload_1",
   "lload_2", "lload_3", "fload_0", "fload_1", "fload_2", "fload_3", "dload_0", "dload_1",
   "dload_2", "dload_3", "aload_0", "aload_1", "aload_2", "aload_3", "iaload", "laload",
   "faload", "daload", "aaload", "baload", "caload", "saload", "istore", "lstore",
   "fstore", "dstore", "astore", "istore_0", "istore_1", "istore_2", "istore_3", "lstore_0",
   "lstore_1", "lstore_2", "lstore_3", "fstore_0", "fstore_1", "fstore_2", "fstore_3", "dstore_0",
   "dstore_1", "dstore_2", "dstore_3", "astore_0", "astore_1", "astore_2", "astore_3", "iastore",
   "lastore", "fastore", "dastore", "aastore", "bastore", "castore", "sastore", "pop",
   "pop2", "dup", "dup_x1", "dup_x2", "dup2", "dup2_x1", "dup2_x2", "swap",
   "iadd", "ladd", "fadd", "dadd", "isub", "lsub", "fsub", "dsub",
   "imul", "lmul", "fmul", "dmul", "idiv", "ldiv", "fdiv", "ddiv",
   "irem", "lrem", "frem", "drem", "ineg", "lneg", "fneg", "dneg",
   "ishl", "lshl", "ishr", "lshr", "iushr", "lushr", "iand", "land",
   "ior", "lor", "ixor", "lxor", "iinc", "i2l", "i2f", "i2d",
   "l2i", "l2f", "l2d", "f2i", "f2l", "f2d", "d2i", "d2l",
   "d2f", "i2b", "i2c", "i2s", "lcmp", "fcmpl", "fcmpg", "dcmpl",
   "dcmpg", "ifeq", "ifne", "iflt", "ifge", "ifgt", "ifle", "if_icmpeq",
   "if_icmpne", "if_icmplt", "if_icmpge", "if_icmpgt", "if_icmple", "if_acmpeq", "if_acmpne",
   "goto",
   "jsr", "ret", "tableswitch", "lookupswitch", "ireturn", "lreturn", "freturn", "dreturn",
   "areturn", "return", "getstatic", "putstatic", "getfield", "putfield", "invokevirtual",
   "invokespecial",
   "invokestatic", "invokeinterface", "invokedynamic", "new", "newarray", "anewarray",
   "arraylength", "athrow",
   "checkcast", "instanceof", "monitorenter", "monitorexit", "wide", "multianewarray", "ifnull",
   "ifnonnull",
   "goto_w", "jsr_w", "breakpoint"]

def iinc : UInt8 := 0x84
def ret : UInt8 := 0xa9
def tableswitch : UInt8 := 0xaa
def lookupswitch : UInt8 := 0xab
def wide : UInt8 := 0xc4

/-- The mnemonic of a defined opcode. -/
def mnemonic? (opcode : UInt8) : Option String :=
  if opcode = 0xfe then some "impdep1"
  else if opcode = 0xff then some "impdep2"
  else mnemonics[opcode.toNat]?

/-- Opcodes from `low` to `high`. -/
def within (low high opcode : UInt8) : Bool := low ≤ opcode && opcode ≤ high

/-- The instructions with a local variable slot as their only operand: loads and stores. -/
def takesSlot (opcode : UInt8) : Bool :=
  within 0x15 0x19 opcode || within 0x36 0x3a opcode

/-- The conditional and unconditional branches with a two-byte offset. -/
def isShortBranch (opcode : UInt8) : Bool :=
  within 0x99 0xa8 opcode || within 0xc6 0xc7 opcode

/-- The branches with a four-byte offset. -/
def isLongBranch (opcode : UInt8) : Bool := within 0xc8 0xc9 opcode

/-- The two instructions that carry a jump table. -/
def isSwitch (opcode : UInt8) : Bool := opcode == tableswitch || opcode == lookupswitch

/-- The instructions with a two-byte pool index. -/
def takesPoolIndex (opcode : UInt8) : Bool :=
  opcode == 0x13 || opcode == 0x14 || within 0xb2 0xbb opcode || opcode == 0xbd
    || within 0xc0 0xc1 opcode || opcode == 0xc5

/-- The instructions that name a constant pool entry: constants, members and types. -/
def refersToPool (opcode : UInt8) : Bool := opcode == 0x12 || takesPoolIndex opcode

/-- The instructions that `wide` can widen. -/
def isWidenable (opcode : UInt8) : Bool := takesSlot opcode || opcode == iinc || opcode == ret

/-- The number of operand bytes of a defined opcode whose length does not vary. -/
def operandLength? (opcode : UInt8) : Option Nat :=
  if opcode == 0x10 || opcode == 0x12 || takesSlot opcode || opcode == ret || opcode == 0xbc then
    some 1
  else if opcode == 0xc5 then some 3
  else if within 0xb9 0xba opcode || isLongBranch opcode then some 4
  else if opcode == 0x11 || takesPoolIndex opcode || opcode == iinc || isShortBranch opcode then
    some 2
  else if isSwitch opcode || opcode == wide then none
  else (mnemonic? opcode).map fun _ => 0

end ClassFormat.Opcode
