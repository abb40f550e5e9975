/-
# ClassFormat.StackMap: stack map frames

A frame describes the types of the local variables and of the operand stack at one place in the
code, relative to the frame before it.  Its first byte alone decides its layout, and often holds a
count or an offset as well.
-/
import ClassFormat.Constant.Pool

namespace ClassFormat

/-! ## Verification types -/

/-- The type of a local variable or stack item, as the verifier sees it. -/
inductive VerificationType where
  | top
  | integer
  | float
  | double
  | long
  | null
  /-- The receiver of a constructor that has not called another one yet. -/
  | uninitializedThis
  | object (classIndex : PoolIndex)
  /-- An object made by the `new` instruction at an offset and not initialized yet. -/
  | uninitialized (pc : UInt16)
  deriving DecidableEq

namespace VerificationType

def tag : VerificationType → UInt8
  | top => 0
  | integer => 1
  | float => 2
  | double => 3
  | long => 4
  | null => 5
  | uninitializedThis => 6
  | object _ => 7
  | uninitialized _ => 8

def isReference : VerificationType → Bool
  | top | integer | float | double | long => false
  | null | uninitializedThis | object _ | uninitialized _ => true

/-- Eight-byte values take two local variable slots. -/
instance : HasWidth VerificationType where
  width
    | double | long => 2
    | _ => 1

def render (type : VerificationType) (pool : ConstantPool) : Except Error String :=
  match type with
  | top => .ok "top"
  | integer => .ok "int"
  | float => .ok "float"
  | double => .ok "double"
  | long => .ok "long"
  | null => .ok "null"
  | uninitializedThis => .ok "uninitializedThis"
  | object classIndex => pool.className classIndex
  | uninitialized pc => .ok s!"uninitialized({pc})"

def reader : Reader VerificationType := do
  let tag ← Reader.u8
  match tag.toNat with
  | 0 => return top
  | 1 => return integer
  | 2 => return float
  | 3 => return double
  | 4 => return long
  | 5 => return null
  | 6 => return uninitializedThis
  | 7 => return object (← Reader.u16)
  | 8 => return uninitialized (← Reader.u16)
  | _ => Reader.fail (.malformed (.verificationTag tag))

end VerificationType

/-! ## Frames -/

/-- The layouts of a frame. -/
inductive FrameKind where
  | same
  | sameLocals1StackItem
  | sameLocals1StackItemExtended
  | chop
  | sameExtended
  | append
  | full
  deriving DecidableEq

namespace FrameKind

/-- The layout that a first byte announces; 128 to 246 are reserved. -/
def ofTag (tag : UInt8) : Except Error FrameKind :=
  if tag ≤ 63 then .ok same
  else if tag ≤ 127 then .ok sameLocals1StackItem
  else if tag ≤ 246 then .error (.reservedFrame tag)
  else if tag = 247 then .ok sameLocals1StackItemExtended
  else if tag ≤ 250 then .ok chop
  else if tag = 251 then .ok sameExtended
  else if tag ≤ 254 then .ok append
  else .ok full

/-- The name of a layout. -/
def label : FrameKind → String
  | same => "Same"
  | sameLocals1StackItem => "SameLocals1StackItem"
  | sameLocals1StackItemExtended => "SameLocals1StackItemExtended"
  | chop => "Chop"
  | sameExtended => "SameExtended"
  | append => "Append"
  | full => "Full"

end FrameKind

/-- A frame, relative to the one before it. -/
inductive Frame where
  /-- The same locals and an empty stack; the tag is the offset. -/
  | same (tag : UInt8)
  /-- The same locals and one stack item; the tag is the offset plus 64. -/
  | sameLocals1StackItem (tag : UInt8) (item : VerificationType)
  | sameLocals1StackItemExtended (offset : UInt16) (item : VerificationType)
  /-- The same locals without the last `251 - tag` of them. -/
  | chop (tag : UInt8) (offset : UInt16)
  | sameExtended (offset : UInt16)
  /-- The same locals and `tag - 251` more. -/
  | append (tag : UInt8) (offset : UInt16) (locals : List VerificationType)
  | full (offset : UInt16) (locals stack : List VerificationType)
  deriving DecidableEq

namespace Frame

/-- The byte that a frame starts with. -/
def tag : Frame → UInt8
  | same tag | sameLocals1StackItem tag _ | chop tag _ | append tag _ _ => tag
  | sameLocals1StackItemExtended _ _ => 247
  | sameExtended _ => 251
  | full _ _ _ => 255

def kind : Frame → FrameKind
  | same _ => .same
  | sameLocals1StackItem _ _ => .sameLocals1StackItem
  | sameLocals1StackItemExtended _ _ => .sameLocals1StackItemExtended
  | chop _ _ => .chop
  | sameExtended _ => .sameExtended
  | append _ _ _ => .append
  | full _ _ _ => .full

/-- The distance from the frame before, less one unless this is the first. -/
def offsetDelta : Frame → Nat
  | same tag => tag.toNat
  | sameLocals1StackItem tag _ => tag.toNat - 64
  | sameLocals1StackItemExtended offset _ | chop _ offset | sameExtended offset
  | append _ offset _ | full offset _ _ => offset.toNat

/-- How many locals a chop frame takes away. -/
def choppedLocals : Frame → Nat
  | chop tag _ => 251 - tag.toNat
  | _ => 0

/-- The locals that the frame lists. -/
def locals : Frame → List VerificationType
  | append _ _ locals | full _ locals _ => locals
  | _ => []

/-- The stack items that the frame lists. -/
def stack : Frame → List VerificationType
  | sameLocals1StackItem _ item | sameLocals1StackItemExtended _ item => [item]
  | full _ _ stack => stack
  | _ => []

/-- The layout behind the first byte. -/
def bodyReader (tag : UInt8) : FrameKind → Reader Frame
  | .same => return same tag
  | .sameLocals1StackItem => return sameLocals1StackItem tag (← VerificationType.reader)
  | .sameLocals1StackItemExtended => do
    let offset ← Reader.u16
    return sameLocals1StackItemExtended offset (← VerificationType.reader)
  | .chop => return chop tag (← Reader.u16)
  | .sameExtended => return sameExtended (← Reader.u16)
  | .append => do
    let offset ← Reader.u16
    return append tag offset (← Reader.times (tag.toNat - 251) VerificationType.reader)
  | .full => do
    let offset ← Reader.u16
    let locals ← Reader.table VerificationType.reader
    let stack ← Reader.table VerificationType.reader
    return full offset locals stack

def reader : Reader Frame := do
  let tag ← Reader.u8
  bodyReader tag (← Reader.lift (FrameKind.ofTag tag))

end Frame

end ClassFormat
