/-
# ClassFormat.AccessFlags: access and property flags

Flags are bits of a 16-bit word.  Which bits are defined depends on what carries them, and an
undefined bit is dropped when a word is read, so a flag set holds defined bits only.  The same bit
means different things on different carriers.
-/
import ClassFormat.Reader

namespace ClassFormat

/-! ## Flags and their bits -/

/-- The flags of the format. -/
inductive AccessFlag where
  | accPublic
  | accPrivate
  | accProtected
  | accStatic
  | accFinal
  | accSuper
  | accSynchronized
  | accOpen
  | accTransitive
  | accVolatile
  | accBridge
  | accStaticPhase
  | accTransient
  | accVarargs
  | accNative
  | accInterface
  | accAbstract
  | accStrict
  | accSynthetic
  | accAnnotationType
  | accEnum
  | accModule
  | accMandated
  deriving DecidableEq

namespace AccessFlag

/-- The bit of a flag. -/
def bit : AccessFlag → UInt16
  | accPublic => 0x0001
  | accPrivate => 0x0002
  | accProtected => 0x0004
  | accStatic => 0x0008
  | accFinal => 0x0010
  | accSuper | accSynchronized | accOpen | accTransitive => 0x0020
  | accVolatile | accBridge | accStaticPhase => 0x0040
  | accTransient | accVarargs => 0x0080
  | accNative => 0x0100
  | accInterface => 0x0200
  | accAbstract => 0x0400
  | accStrict => 0x0800
  | accSynthetic => 0x1000
  | accAnnotationType => 0x2000
  | accEnum => 0x4000
  | accModule | accMandated => 0x8000

/-- The source modifier of a flag that has one. -/
def keyword? : AccessFlag → Option String
  | accPublic => some "public"
  | accPrivate => some "private"
  | accProtected => some "protected"
  | accStatic => some "static"
  | accFinal => some "final"
  | accSynchronized => some "synchronized"
  | accVolatile => some "volatile"
  | accTransient => some "transient"
  | accNative => some "native"
  | accAbstract => some "abstract"
  | _ => none

end AccessFlag

/-! ## Which flags stand where -/

/-- What carries a set of flags. -/
inductive FlagCarrier where
  | ofClass
  | ofMethod
  | ofField
  | ofInnerClass
  | ofParameter
  | ofModule
  | ofRequires
  | ofExports
  deriving DecidableEq

namespace FlagCarrier

open AccessFlag

/-- The flags defined on a carrier. -/
def defined : FlagCarrier → List AccessFlag
  | ofClass =>
    [accPublic, accFinal, accSuper, accInterface, accAbstract, accSynthetic, accAnnotationType,
     accEnum, accModule]
  | ofMethod =>
    [accPublic, accPrivate, accProtected, accStatic, accFinal, accSynchronized, accBridge,
     accVarargs, accNative, accAbstract, accStrict, accSynthetic]
  | ofField =>
    [accPublic, accPrivate, accProtected, accStatic, accFinal, accVolatile, accTransient,
     accSynthetic, accEnum]
  | ofInnerClass =>
    [accPublic, accPrivate, accProtected, accStatic, accFinal, accInterface, accAbstract,
     accSynthetic, accAnnotationType, accEnum]
  | ofParameter => [accFinal, accSynthetic, accMandated]
  | ofModule => [accOpen, accSynthetic, accMandated]
  | ofRequires => [accTransitive, accStaticPhase, accSynthetic, accMandated]
  | ofExports => [accSynthetic, accMandated]

/-- The defined bits of a carrier. -/
def mask (carrier : FlagCarrier) : UInt16 :=
  carrier.defined.foldl (fun bits flag => bits ||| flag.bit) 0

/-- The flags of a carrier that are written as source modifiers, in the order they are written. -/
def modifierOrder : FlagCarrier → List AccessFlag
  | ofClass => [accPublic, accFinal, accAbstract]
  | ofMethod =>
    [accPublic, accProtected, accPrivate, accStatic, accFinal, accSynchronized, accNative,
     accAbstract]
  | ofField =>
    [accPublic, accProtected, accPrivate, accStatic, accFinal, accTransient, accVolatile]
  | ofInnerClass => [accPublic, accProtected, accPrivate, accStatic, accAbstract, accFinal]
  | ofParameter | ofModule | ofRequires | ofExports => []

end FlagCarrier

/-! ## Sets of flags -/

/-- A set of flags that are all defined on the carrier. -/
structure Flags (carrier : FlagCarrier) where
  bits : UInt16
  defined : bits &&& carrier.mask = bits
  deriving DecidableEq

namespace Flags

variable {carrier : FlagCarrier}

/-- The defined bits of a word. -/
def ofWord (word : UInt16) : Flags carrier where
  bits := word &&& carrier.mask
  defined := by rw [UInt16.and_assoc, UInt16.and_self]

def reader : Reader (Flags carrier) := do
  return ofWord (← Reader.u16)

def has (flags : Flags carrier) (flag : AccessFlag) : Bool := flags.bits &&& flag.bit == flag.bit

/-- Whether any of the three source access levels is set. -/
def hasAccessLevel (flags : Flags carrier) : Bool :=
  flags.has .accPublic || flags.has .accProtected || flags.has .accPrivate

/-- Every interface is abstract, so only other classes say it. -/
def isWritten (flags : Flags carrier) (flag : AccessFlag) : Bool :=
  flags.has flag
    && !(flag == .accAbstract && carrier.defined.contains .accInterface && flags.has .accInterface)

/-- The source modifiers of the flags, in declaration order. -/
def modifiers (flags : Flags carrier) : List String :=
  (carrier.modifierOrder.filter flags.isWritten).filterMap AccessFlag.keyword?

end Flags

abbrev ClassFlags := Flags .ofClass
abbrev MethodFlags := Flags .ofMethod
abbrev FieldFlags := Flags .ofField
abbrev InnerClassFlags := Flags .ofInnerClass
abbrev ParameterFlags := Flags .ofParameter
abbrev ModuleFlags := Flags .ofModule
abbrev RequiresFlags := Flags .ofRequires
abbrev ExportsFlags := Flags .ofExports

end ClassFormat
