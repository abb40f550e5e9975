/-
# ClassFormat.Proofs.Layout.Frames: stack map frames as they are written

The first byte of a frame decides its layout, so a frame can be written only if its tag announces
the layout it has, and an append frame only if its tag counts its locals.
-/
import ClassFormat.Proofs.Layout.Reads
import ClassFormat.StackMap

namespace ClassFormat

/-! ## Verification types -/

namespace VerificationType

/-- What stands behind the tag of a type. -/
def encodeBody : VerificationType → List UInt8
  | object classIndex => Writer.u16 classIndex
  | uninitialized pc => Writer.u16 pc
  | _ => []

def encode (type : VerificationType) : List UInt8 := Writer.u8 type.tag ++ type.encodeBody

theorem reads (type : VerificationType) : Reads reader type.encode type := by
  refine (Reads.u8 type.tag).bind ?_
  cases type with
  | object classIndex => exact (Reads.u16 classIndex).map
  | uninitialized pc => exact (Reads.u16 pc).map
  | _ => exact Reads.pure _

end VerificationType

/-! ## Frames -/

namespace Frame

/-- What stands behind the first byte of a frame. -/
def encodeBody : Frame → List UInt8
  | same _ => []
  | sameLocals1StackItem _ item => item.encode
  | sameLocals1StackItemExtended offset item => Writer.u16 offset ++ item.encode
  | chop _ offset => Writer.u16 offset
  | sameExtended offset => Writer.u16 offset
  | append _ offset locals => Writer.u16 offset ++ locals.flatMap VerificationType.encode
  | full offset locals stack =>
    Writer.u16 offset ++ (Writer.table VerificationType.encode locals
      ++ Writer.table VerificationType.encode stack)

def encode (frame : Frame) : List UInt8 := Writer.u8 frame.tag ++ frame.encodeBody

/-- The lists of a frame are as long as its layout says they can be. -/
def ListsFit : Frame → Prop
  | append tag _ locals => locals.length = tag.toNat - 251
  | full _ locals stack => locals.length < UInt16.size ∧ stack.length < UInt16.size
  | _ => True

/-- The frame has the layout that its tag announces. -/
structure Fits (frame : Frame) : Prop where
  layout : FrameKind.ofTag frame.tag = .ok frame.kind
  lists : frame.ListsFit

theorem reads_body {frame : Frame} (h : frame.ListsFit) :
    Reads (bodyReader frame.tag frame.kind) frame.encodeBody frame := by
  have htypes : ∀ types : List VerificationType, ∀ type ∈ types,
      Reads VerificationType.reader type.encode type := fun _ type _ => type.reads
  cases frame with
  | same tag => exact Reads.pure _
  | sameLocals1StackItem tag item => exact item.reads.map
  | sameLocals1StackItemExtended offset item =>
    exact (Reads.u16 offset).bind item.reads.map
  | chop tag offset => exact (Reads.u16 offset).map
  | sameExtended offset => exact (Reads.u16 offset).map
  | append tag offset locals =>
    have hcount : locals.length = tag.toNat - 251 := h
    have hlocals := Reads.times (htypes locals)
    rw [hcount] at hlocals
    exact (Reads.u16 offset).bind hlocals.map
  | full offset locals stack =>
    exact (Reads.u16 offset).bind
      ((Reads.table h.1 (htypes locals)).bind (Reads.table h.2 (htypes stack)).map)

theorem reads {frame : Frame} (h : frame.Fits) : Reads reader frame.encode frame :=
  (Reads.u8 frame.tag).bind (Reads.lift_bind h.layout (reads_body h.lists))

end Frame

end ClassFormat
