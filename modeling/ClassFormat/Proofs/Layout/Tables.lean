/-
# ClassFormat.Proofs.Layout.Tables: the entries of attribute tables as they are written

Entries are runs of two-byte numbers and flags.  The only thing that can stand in the way of writing
one is an index that is present and zero: zero is how an absent index is written.
-/
import ClassFormat.Attribute.Layout
import ClassFormat.Proofs.Layout.Reads

namespace ClassFormat

/-- A table whose entries can be written and fit their two-byte number. -/
structure TableFits {α : Type} (fits : α → Prop) (items : List α) : Prop where
  count : items.length < UInt16.size
  items : ∀ item ∈ items, fits item

theorem Reads.tableOf {α : Type} {item : Reader α} {write : α → List UInt8} {fits : α → Prop}
    {items : List α} (h : TableFits fits items)
    (hread : ∀ {x : α}, fits x → Reads item (write x) x) :
    Reads (Reader.table item) (Writer.table write items) items :=
  Reads.table h.count fun x hx => hread (h.items x hx)

/-! ## Flags -/

def Flags.encode {carrier : FlagCarrier} (flags : Flags carrier) : List UInt8 :=
  Writer.u16 flags.bits

/-- No bit of a flag set is dropped, because all of them are defined. -/
theorem Flags.ofWord_bits {carrier : FlagCarrier} (flags : Flags carrier) :
    (Flags.ofWord flags.bits : Flags carrier) = flags := by
  cases flags with
  | mk bits hdefined =>
    rw [Flags.ofWord, Flags.mk.injEq]
    exact hdefined

theorem Flags.reads {carrier : FlagCarrier} (flags : Flags carrier) :
    Reads Flags.reader flags.encode flags := by
  have hread : Reads Flags.reader flags.encode (Flags.ofWord flags.bits : Flags carrier) :=
    (Reads.u16 flags.bits).map
  rwa [Flags.ofWord_bits] at hread

/-! ## Classes, lines and variables -/

def InnerClass.encode (entry : InnerClass) : List UInt8 :=
  Writer.u16 entry.inner ++ (Writer.optionalIndex entry.outer
    ++ (Writer.optionalIndex entry.name ++ entry.flags.encode))

structure InnerClass.Fits (entry : InnerClass) : Prop where
  outer : entry.outer ≠ some 0
  name : entry.name ≠ some 0

theorem InnerClass.reads {entry : InnerClass} (h : entry.Fits) :
    Reads InnerClass.reader entry.encode entry :=
  (Reads.u16 entry.inner).bind ((Reads.optionalIndex h.outer).bind
    ((Reads.optionalIndex h.name).bind entry.flags.reads.map))

def EnclosingMethod.encode (enclosing : EnclosingMethod) : List UInt8 :=
  Writer.u16 enclosing.owner ++ Writer.optionalIndex enclosing.method

theorem EnclosingMethod.reads {enclosing : EnclosingMethod} (h : enclosing.method ≠ some 0) :
    Reads EnclosingMethod.reader enclosing.encode enclosing :=
  (Reads.u16 enclosing.owner).bind (Reads.optionalIndex h).map

def LineNumber.encode (entry : LineNumber) : List UInt8 :=
  Writer.u16 entry.startPc ++ Writer.u16 entry.line

theorem LineNumber.reads (entry : LineNumber) : Reads LineNumber.reader entry.encode entry :=
  (Reads.u16 entry.startPc).bind (Reads.u16 entry.line).map

def LocalVariable.encode (entry : LocalVariable) : List UInt8 :=
  Writer.u16 entry.startPc ++ (Writer.u16 entry.length ++ (Writer.u16 entry.name
    ++ (Writer.u16 entry.descriptor ++ Writer.u16 entry.slot)))

theorem LocalVariable.reads (entry : LocalVariable) :
    Reads LocalVariable.reader entry.encode entry :=
  (Reads.u16 entry.startPc).bind ((Reads.u16 entry.length).bind ((Reads.u16 entry.name).bind
    ((Reads.u16 entry.descriptor).bind (Reads.u16 entry.slot).map)))

/-! ## Methods -/

def BootstrapMethod.encode (bootstrap : BootstrapMethod) : List UInt8 :=
  Writer.u16 bootstrap.method ++ Writer.table Writer.u16 bootstrap.arguments

theorem BootstrapMethod.reads {bootstrap : BootstrapMethod}
    (h : bootstrap.arguments.length < UInt16.size) :
    Reads BootstrapMethod.reader bootstrap.encode bootstrap :=
  (Reads.u16 bootstrap.method).bind (Reads.numbers h).map

def MethodParameter.encode (parameter : MethodParameter) : List UInt8 :=
  Writer.optionalIndex parameter.name ++ parameter.flags.encode

theorem MethodParameter.reads {parameter : MethodParameter} (h : parameter.name ≠ some 0) :
    Reads MethodParameter.reader parameter.encode parameter :=
  (Reads.optionalIndex h).bind parameter.flags.reads.map

def ExceptionHandler.encode (handler : ExceptionHandler) : List UInt8 :=
  Writer.u16 handler.startPc ++ (Writer.u16 handler.endPc ++ (Writer.u16 handler.handlerPc
    ++ Writer.optionalIndex handler.catchType))

theorem ExceptionHandler.reads {handler : ExceptionHandler} (h : handler.catchType ≠ some 0) :
    Reads ExceptionHandler.reader handler.encode handler :=
  (Reads.u16 handler.startPc).bind ((Reads.u16 handler.endPc).bind
    ((Reads.u16 handler.handlerPc).bind (Reads.optionalIndex h).map))

/-! ## Modules -/

def Requires.encode (directive : Requires) : List UInt8 :=
  Writer.u16 directive.moduleIndex ++ (directive.flags.encode
    ++ Writer.optionalIndex directive.version)

theorem Requires.reads {directive : Requires} (h : directive.version ≠ some 0) :
    Reads Requires.reader directive.encode directive :=
  (Reads.u16 directive.moduleIndex).bind
    (directive.flags.reads.bind (Reads.optionalIndex h).map)

def PackageDirective.encode (directive : PackageDirective) : List UInt8 :=
  Writer.u16 directive.package ++ (directive.flags.encode
    ++ Writer.table Writer.u16 directive.targets)

theorem PackageDirective.reads {directive : PackageDirective}
    (h : directive.targets.length < UInt16.size) :
    Reads PackageDirective.reader directive.encode directive :=
  (Reads.u16 directive.package).bind (directive.flags.reads.bind (Reads.numbers h).map)

def Provides.encode (directive : Provides) : List UInt8 :=
  Writer.u16 directive.service ++ Writer.table Writer.u16 directive.implementations

theorem Provides.reads {directive : Provides} (h : directive.implementations.length < UInt16.size) :
    Reads Provides.reader directive.encode directive :=
  (Reads.u16 directive.service).bind (Reads.numbers h).map

namespace ModuleInfo

def encode (info : ModuleInfo) : List UInt8 :=
  Writer.u16 info.name ++ (info.flags.encode ++ (Writer.optionalIndex info.version
    ++ (Writer.table Requires.encode info.requires
      ++ (Writer.table PackageDirective.encode info.exports
        ++ (Writer.table PackageDirective.encode info.opens
          ++ (Writer.table Writer.u16 info.uses
            ++ Writer.table Provides.encode info.provides))))))

structure Fits (info : ModuleInfo) : Prop where
  version : info.version ≠ some 0
  requires : TableFits (fun directive : Requires => directive.version ≠ some 0) info.requires
  exports : TableFits (fun directive : PackageDirective => directive.targets.length < UInt16.size)
    info.exports
  opens : TableFits (fun directive : PackageDirective => directive.targets.length < UInt16.size)
    info.opens
  uses : info.uses.length < UInt16.size
  provides : TableFits (fun directive : Provides => directive.implementations.length < UInt16.size)
    info.provides

theorem reads {info : ModuleInfo} (h : info.Fits) : Reads reader info.encode info := by
  have hrequires := Reads.tableOf h.requires Requires.reads
  have hexports := Reads.tableOf h.exports PackageDirective.reads
  have hopens := Reads.tableOf h.opens PackageDirective.reads
  have hprovides := Reads.tableOf h.provides Provides.reads
  exact (Reads.u16 info.name).bind (info.flags.reads.bind ((Reads.optionalIndex h.version).bind
    (hrequires.bind (hexports.bind (hopens.bind ((Reads.numbers h.uses).bind hprovides.map))))))

end ModuleInfo

end ClassFormat
