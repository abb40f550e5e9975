/-
# ClassFormat.Proofs.Layout.Truncation: class files that are cut off or go on

Every layout of a class file is read from front to back.  The body of an attribute is an exception
only in appearance: it is taken off the input as a whole, and what is made of it depends on nothing
else.  Hence a class file is read from its own bytes and no others: whatever follows them, it is the
same class file, and where one of them is missing, the error says that the input was over.
-/
import ClassFormat.Proofs.Layout.ClassFile
import ClassFormat.Proofs.Layout.Sequential

namespace ClassFormat

open Reader (Sequential AgreeUpTo Nested tied)

/-! ## Constants -/

theorem HandleKind.sequential : Sequential HandleKind.reader :=
  Sequential.u8.bind fun number => .lift (HandleKind.ofNumber number)

theorem MemberRef.sequential : Sequential MemberRef.reader :=
  Sequential.u16.bind fun _ => Sequential.u16.map

theorem NameAndType.sequential : Sequential NameAndType.reader :=
  Sequential.u16.bind fun _ => Sequential.u16.map

theorem MethodHandle.sequential : Sequential MethodHandle.reader :=
  HandleKind.sequential.bind fun _ => Sequential.u16.map

theorem DynamicRef.sequential : Sequential DynamicRef.reader :=
  Sequential.u16.bind fun _ => Sequential.u16.map

namespace Constant

theorem sequential_text : Sequential textReader :=
  Sequential.u16.bind fun length => (Sequential.run length.toNat).bind fun _ => .lift _

theorem sequential_body (kind : ConstantKind) : Sequential (bodyReader kind) := by
  cases kind with
  | utf8 => exact sequential_text.map
  | integer => exact Sequential.i32.map
  | float => exact Sequential.u32.map
  | long => exact Sequential.i64.map
  | double => exact Sequential.u64.map
  | classRef | string | methodType | moduleRef | packageRef => exact Sequential.u16.map
  | fieldRef | methodRef | interfaceMethodRef => exact MemberRef.sequential.map
  | nameAndType => exact NameAndType.sequential.map
  | methodHandle => exact MethodHandle.sequential.map
  | dynamic | invokeDynamic => exact DynamicRef.sequential.map

theorem sequential (index : Nat) : Sequential (reader index) := by
  refine Sequential.u8.bind fun tag => ?_
  cases ConstantKind.ofTag? tag with
  | some kind => exact sequential_body kind
  | none => exact .fail _

end Constant

namespace ConstantPool

theorem sequential_slots (count fuel : Nat) (slots : SlotTable Constant) :
    Sequential (slotsReader count fuel slots) := by
  induction fuel generalizing slots with
  | zero => exact .pure slots
  | succ fuel ih =>
    rw [slotsReader]
    split
    · refine (Constant.sequential slots.next).bind fun constant => ?_
      split
      · exact .fail _
      · exact ih (slots.push constant)
    · exact .pure slots

theorem sequential : Sequential reader :=
  Sequential.u16.bind fun count => (sequential_slots count.toNat count.toNat _).map

end ConstantPool

/-! ## Frames -/

theorem VerificationType.sequential : Sequential VerificationType.reader := by
  refine Sequential.u8.bind fun tag => ?_
  split
  case h_8 | h_9 => exact Sequential.u16.map
  case h_10 => exact .fail _
  all_goals exact .pure _

theorem Frame.sequential_body (tag : UInt8) (kind : FrameKind) :
    Sequential (Frame.bodyReader tag kind) := by
  cases kind with
  | same => exact .pure _
  | sameLocals1StackItem => exact VerificationType.sequential.map
  | sameLocals1StackItemExtended =>
    exact Sequential.u16.bind fun _ => VerificationType.sequential.map
  | chop | sameExtended => exact Sequential.u16.map
  | append => exact Sequential.u16.bind fun _ => (VerificationType.sequential.times _).map
  | full =>
    exact Sequential.u16.bind fun _ => VerificationType.sequential.table.bind fun _ =>
      VerificationType.sequential.table.map

theorem Frame.sequential : Sequential Frame.reader :=
  Sequential.u8.bind fun tag =>
    (Sequential.lift _).bind fun kind => Frame.sequential_body tag kind

/-! ## Annotations -/

theorem ElementPair.sequentialOf {inner : Reader ElementValue} (h : Sequential inner) :
    Sequential (ElementPair.readerOf inner) :=
  Sequential.u16.bind fun _ => h.map

theorem Annot.sequentialOf {inner : Reader ElementValue} (h : Sequential inner) :
    Sequential (Annot.readerOf inner) :=
  Sequential.u16.bind fun _ => (ElementPair.sequentialOf h).table.map

theorem ElementPair.agreeOf {size : Nat} {inner other : Reader ElementValue}
    (h : AgreeUpTo size inner other) :
    AgreeUpTo size (ElementPair.readerOf inner) (ElementPair.readerOf other) :=
  (Sequential.u16.agreeUpTo size).bind fun _ => h.map

theorem Annot.agreeOf {size : Nat} {inner other : Reader ElementValue}
    (h : AgreeUpTo size inner other) :
    AgreeUpTo size (Annot.readerOf inner) (Annot.readerOf other) :=
  (Sequential.u16.agreeUpTo size).bind fun _ => (ElementPair.agreeOf h).table.map

namespace ElementValue

/-- The values that hold no other value. -/
theorem sequential_literal (letter : Char) (tag : UInt8) :
    Sequential (match LiteralTag.ofLetter? letter with
      | some literalTag => (do return .literal literalTag (← Reader.u16) : Reader ElementValue)
      | none => Reader.fail (.malformed (.elementTag tag))) := by
  cases LiteralTag.ofLetter? letter with
  | some literalTag => exact Sequential.u16.map
  | none => exact .fail _

theorem sequential_body {inner : Reader ElementValue} (h : Sequential inner) (tag : UInt8) :
    Sequential (bodyReader inner tag) := by
  unfold bodyReader
  split
  · exact Sequential.u16.bind fun _ => Sequential.u16.map
  · exact Sequential.u16.map
  · exact (Annot.sequentialOf h).map
  · exact h.table.map
  · exact sequential_literal _ tag

theorem agree_body {size : Nat} {inner other : Reader ElementValue}
    (h : AgreeUpTo size inner other) (tag : UInt8) :
    AgreeUpTo size (bodyReader inner tag) (bodyReader other tag) := by
  unfold bodyReader
  split
  · exact (Sequential.u16.bind fun _ => Sequential.u16.map).agreeUpTo size
  · exact Sequential.u16.map.agreeUpTo size
  · exact (Annot.agreeOf h).map
  · exact h.table.map
  · exact (sequential_literal _ tag).agreeUpTo size

/-- A value stands behind its tag byte, so the values inside it have a byte less. -/
theorem nested_reader : Nested readerWithin fun inner => Reader.u8 >>= bodyReader inner where
  zero := rfl
  succ _ := rfl
  empty _ _ := rfl
  agree := by
    intro size inner other h input hsize
    obtain ⟨bytes, ending⟩ := input
    cases bytes with
    | nil => exact ⟨rfl, fun value left hok => nomatch hok⟩
    | cons tag bytes =>
      have htag : Reader.u8 ⟨tag :: bytes, ending⟩ = .ok (tag, ⟨bytes, ending⟩) := by
        simpa [Writer.u8, bigEndianBytes] using Reads.u8 tag bytes ending
      have hbytes : bytes.length ≤ size := by simpa using hsize
      obtain ⟨hsame, hleft⟩ := agree_body h tag ⟨bytes, ending⟩ hbytes
      rw [Reader.bind_of_ok htag, Reader.bind_of_ok htag]
      exact ⟨hsame, fun value left hok => Nat.le_succ_of_le (hleft value left hok)⟩

theorem sequential : Sequential ElementValue.reader :=
  nested_reader.sequential fun h => Sequential.u8.bind fun tag => sequential_body h tag

end ElementValue

theorem ElementPair.sequential : Sequential ElementPair.reader :=
  ElementPair.sequentialOf ElementValue.sequential

theorem Annot.sequential : Sequential Annot.reader := Annot.sequentialOf ElementValue.sequential

theorem LocalVarTarget.sequential : Sequential LocalVarTarget.reader :=
  Sequential.u16.bind fun _ => Sequential.u16.bind fun _ => Sequential.u16.map

theorem TypePathStep.sequential : Sequential TypePathStep.reader :=
  Sequential.u8.bind fun _ => Sequential.u8.map

theorem TargetType.sequential : Sequential TargetType.reader := by
  refine Sequential.u8.bind fun tag => ?_
  cases TargetType.ofTag? tag with
  | some target => exact .pure target
  | none => exact .fail _

theorem TargetInfo.sequential (target : TargetType) : Sequential (TargetInfo.reader target) := by
  cases target with
  | classTypeParameter | methodTypeParameter | methodFormalParameter => exact Sequential.u8.map
  | classExtends | throwsClause | exceptionParameter | instanceOf | new | constructorReference
  | methodReference => exact Sequential.u16.map
  | classTypeParameterBound | methodTypeParameterBound =>
    exact Sequential.u8.bind fun _ => Sequential.u8.map
  | field | methodReturn | methodReceiver => exact .pure _
  | localVariable | resourceVariable => exact LocalVarTarget.sequential.table.map
  | cast | constructorInvocationTypeArgument | methodInvocationTypeArgument
  | constructorReferenceTypeArgument | methodReferenceTypeArgument =>
    exact Sequential.u16.bind fun _ => Sequential.u8.map

theorem TypeAnnot.sequential : Sequential TypeAnnot.reader :=
  TargetType.sequential.bind fun target => (TargetInfo.sequential target).bind fun _ =>
    TypePathStep.sequential.shortTable.bind fun _ => Sequential.u16.bind fun _ =>
      ElementPair.sequential.table.map

/-! ## Entries of tables -/

theorem Flags.sequential {carrier : FlagCarrier} :
    Sequential (Flags.reader : Reader (Flags carrier)) :=
  Sequential.u16.map

theorem InnerClass.sequential : Sequential InnerClass.reader :=
  Sequential.u16.bind fun _ => Sequential.optionalIndex.bind fun _ =>
    Sequential.optionalIndex.bind fun _ => Flags.sequential.map

theorem EnclosingMethod.sequential : Sequential EnclosingMethod.reader :=
  Sequential.u16.bind fun _ => Sequential.optionalIndex.map

theorem LineNumber.sequential : Sequential LineNumber.reader :=
  Sequential.u16.bind fun _ => Sequential.u16.map

theorem LocalVariable.sequential : Sequential LocalVariable.reader :=
  Sequential.u16.bind fun _ => Sequential.u16.bind fun _ => Sequential.u16.bind fun _ =>
    Sequential.u16.bind fun _ => Sequential.u16.map

theorem BootstrapMethod.sequential : Sequential BootstrapMethod.reader :=
  Sequential.u16.bind fun _ => Sequential.u16.table.map

theorem MethodParameter.sequential : Sequential MethodParameter.reader :=
  Sequential.optionalIndex.bind fun _ => Flags.sequential.map

theorem ExceptionHandler.sequential : Sequential ExceptionHandler.reader :=
  Sequential.u16.bind fun _ => Sequential.u16.bind fun _ => Sequential.u16.bind fun _ =>
    Sequential.optionalIndex.map

theorem Requires.sequential : Sequential Requires.reader :=
  Sequential.u16.bind fun _ => Flags.sequential.bind fun _ => Sequential.optionalIndex.map

theorem PackageDirective.sequential : Sequential PackageDirective.reader :=
  Sequential.u16.bind fun _ => Flags.sequential.bind fun _ => Sequential.u16.table.map

theorem Provides.sequential : Sequential Provides.reader :=
  Sequential.u16.bind fun _ => Sequential.u16.table.map

theorem ModuleInfo.sequential : Sequential ModuleInfo.reader :=
  Sequential.u16.bind fun _ => Flags.sequential.bind fun _ => Sequential.optionalIndex.bind fun _ =>
    Requires.sequential.table.bind fun _ => PackageDirective.sequential.table.bind fun _ =>
      PackageDirective.sequential.table.bind fun _ => Sequential.u16.table.bind fun _ =>
        Provides.sequential.table.map

/-! ## Attributes -/

theorem Code.sequentialOf {inner : Reader Attribute} (h : Sequential inner) :
    Sequential (Code.readerOf inner) :=
  Sequential.u16.bind fun _ => Sequential.u16.bind fun _ => Sequential.u32.bind fun length =>
    (Sequential.run length.toNat).bind fun _ => (Sequential.lift _).bind fun _ =>
      ExceptionHandler.sequential.table.bind fun _ => h.table.map

theorem Code.agreeOf {size : Nat} {inner other : Reader Attribute}
    (h : AgreeUpTo size inner other) :
    AgreeUpTo size (Code.readerOf inner) (Code.readerOf other) :=
  (Sequential.u16.agreeUpTo size).bind fun _ => (Sequential.u16.agreeUpTo size).bind fun _ =>
    (Sequential.u32.agreeUpTo size).bind fun length =>
      ((Sequential.run length.toNat).agreeUpTo size).bind fun _ =>
        ((Sequential.lift _).agreeUpTo size).bind fun _ =>
          (ExceptionHandler.sequential.table.agreeUpTo size).bind fun _ => h.table.map

theorem RecordComponent.sequentialOf {inner : Reader Attribute} (h : Sequential inner) :
    Sequential (RecordComponent.readerOf inner) :=
  Sequential.u16.bind fun _ => Sequential.u16.bind fun _ => h.table.map

theorem RecordComponent.agreeOf {size : Nat} {inner other : Reader Attribute}
    (h : AgreeUpTo size inner other) :
    AgreeUpTo size (RecordComponent.readerOf inner) (RecordComponent.readerOf other) :=
  (Sequential.u16.agreeUpTo size).bind fun _ => (Sequential.u16.agreeUpTo size).bind fun _ =>
    h.table.map

/-- The debug extension takes whatever there is, so it never leaves anything. -/
theorem Reader.agreeUpTo_toEnd (size : Nat) : AgreeUpTo size Reader.toEnd Reader.toEnd := by
  intro input hsize
  refine ⟨rfl, fun value left hok => ?_⟩
  unfold Reader.toEnd at hok
  split at hok
  · cases hok
    exact Nat.zero_le size
  · cases hok

namespace AttributeInfo

/-- Every layout but the one that takes whatever there is goes from front to back. -/
theorem sequentialOf {inner : Reader Attribute} (h : Sequential inner) {kind : AttributeKind}
    (hkind : kind ≠ .sourceDebugExtension) : Sequential (readerOf inner kind) := by
  cases kind with
  | sourceDebugExtension => exact absurd rfl hkind
  | constantValue | signature | sourceFile | moduleMainClass | nestHost =>
    exact Sequential.u16.map
  | exceptions | modulePackages | nestMembers | permittedSubclasses =>
    exact Sequential.u16.table.map
  | synthetic | deprecated => exact .pure _
  | code => exact (Code.sequentialOf h).map
  | stackMapTable => exact Frame.sequential.table.map
  | innerClasses => exact InnerClass.sequential.table.map
  | enclosingMethod => exact EnclosingMethod.sequential.map
  | lineNumberTable => exact LineNumber.sequential.table.map
  | localVariableTable | localVariableTypeTable => exact LocalVariable.sequential.table.map
  | annotations visibility => exact Annot.sequential.table.map
  | parameterAnnotations visibility => exact Annot.sequential.table.shortTable.map
  | typeAnnotations visibility => exact TypeAnnot.sequential.table.map
  | annotationDefault => exact ElementValue.sequential.map
  | bootstrapMethods => exact BootstrapMethod.sequential.table.map
  | methodParameters => exact MethodParameter.sequential.shortTable.map
  | moduleInfo => exact ModuleInfo.sequential.map
  | record => exact (RecordComponent.sequentialOf h).table.map

/-- A layout does with short bodies what it does with another reader of the attributes inside, if
the two readers agree on them. -/
theorem agreeOf {size : Nat} {inner other : Reader Attribute} (h : AgreeUpTo size inner other)
    (kind : AttributeKind) : AgreeUpTo size (readerOf inner kind) (readerOf other kind) := by
  -- Most layouts never call the reader of the attributes inside, so any reader can stand for it.
  have hflat : kind ≠ .sourceDebugExtension →
      AgreeUpTo size (readerOf Reader.exhausted kind) (readerOf Reader.exhausted kind) :=
    fun hkind => (sequentialOf Sequential.exhausted hkind).agreeUpTo size
  cases kind with
  | code => exact (Code.agreeOf h).map
  | record => exact (RecordComponent.agreeOf h).table.map
  | sourceDebugExtension => exact (Reader.agreeUpTo_toEnd size).map
  | _ => exact hflat nofun

theorem ofBody_congr {size : Nat} {inner other : Reader Attribute} (h : AgreeUpTo size inner other)
    {body : List UInt8} (hbody : body.length ≤ size) (name : String) :
    ofBody inner name body = ofBody other name body := by
  unfold ofBody
  cases AttributeKind.ofName? name with
  | none => rfl
  | some kind =>
    have hsame := (agreeOf h kind { bytes := body } hbody).1
    simp only [hsame]

end AttributeInfo

namespace Attribute

/-- One attribute, given how the attributes inside it are read. -/
def readerOf (pool : ConstantPool) (inner : Reader Attribute) : Reader Attribute := do
  let nameIndex ← Reader.u16
  let name ← Reader.lift (pool.utf8 nameIndex)
  let length ← Reader.u32
  let body ← Reader.run length.toNat
  let info ← Reader.lift (AttributeInfo.ofBody inner name body)
  return { nameIndex, info }

/-- Nothing is asked of the reader of the attributes inside: the body is there as a whole. -/
theorem sequentialOf (pool : ConstantPool) (inner : Reader Attribute) :
    Sequential (readerOf pool inner) :=
  Sequential.u16.bind fun _ => (Sequential.lift _).bind fun _ => Sequential.u32.bind fun length =>
    (Sequential.run length.toNat).bind fun _ => (Sequential.lift _).map

/-- An attribute is longer than its body, so the attributes inside it have fewer bytes. -/
theorem nested_reader (pool : ConstantPool) : Nested (readerWithin pool) (readerOf pool) where
  zero := rfl
  succ _ := rfl
  empty _ _ := rfl
  agree := by
    intro size inner other h input hsize
    refine ⟨?_, ((sequentialOf pool inner).agreeUpTo (size + 1) input hsize).2⟩
    refine Reader.bind_congr_of_ok fun nameIndex first hname => ?_
    refine Reader.bind_congr_of_ok fun name second hlookup => ?_
    refine Reader.bind_congr_of_ok fun length third hlength => ?_
    refine Reader.bind_congr_of_ok fun body last hbody => ?_
    -- Two bytes of the name and four of the length are gone, so the body is below the bound.
    obtain ⟨_, hinput, rfl⟩ := Reader.Consumes.u16 input nameIndex first hname
    obtain ⟨_, hfirst, -⟩ := (Sequential.lift _).consumes first name second hlookup
    obtain ⟨_, hsecond, -⟩ := Sequential.u32.consumes second length third hlength
    obtain ⟨own, hthird, hown, -⟩ := Reader.Consumes.run length.toNat third body last hbody
    have hbound : body.length ≤ size := by
      rw [hinput, hfirst, hsecond, hthird, hown] at hsize
      simp only [List.length_append, Writer.length_u16] at hsize
      omega
    rw [AttributeInfo.ofBody_congr h hbound]

theorem sequential (pool : ConstantPool) : Sequential (reader pool) :=
  (nested_reader pool).sequential fun _ => sequentialOf pool _

theorem sequential_table (pool : ConstantPool) : Sequential (tableReader pool) :=
  (sequential pool).table

end Attribute

/-! ## Class files -/

theorem Member.sequential {carrier : FlagCarrier} (pool : ConstantPool) :
    Sequential (Member.reader pool : Reader (Member carrier)) :=
  Flags.sequential.bind fun _ => Sequential.u16.bind fun _ => Sequential.u16.bind fun _ =>
    (Attribute.sequential_table pool).map

theorem Version.sequential : Sequential Version.reader :=
  Sequential.u16.bind fun _ => Sequential.u16.map

namespace ClassFile

theorem sequential_magic : Sequential magicReader := by
  refine Sequential.u32.bind fun found => ?_
  split
  · exact .fail _
  · exact .pure ()

theorem sequential : Sequential reader :=
  sequential_magic.bind fun _ => Version.sequential.bind fun _ =>
    ConstantPool.sequential.bind fun pool => Flags.sequential.bind fun _ =>
      Sequential.u16.bind fun _ => (Sequential.lift _).bind fun _ =>
        Sequential.optionalIndex.bind fun _ => Sequential.u16.table.bind fun _ =>
          (Member.sequential pool).table.bind fun _ => (Member.sequential pool).table.bind fun _ =>
            (Attribute.sequential_table pool).map

/-- A class file is read from its own bytes alone.  With anything behind them it is the same class
file and exactly that is left.  Without the last of them the file is malformed, and if the source
breaks off there, the error is the source's; breaking off later does no harm. -/
theorem reader_own_bytes {bytes : List UInt8} {ending : Ending} {file : ClassFile} {left : Input}
    (h : reader ⟨bytes, ending⟩ = .ok (file, left)) :
    ∃ size ≤ bytes.length, left = ⟨bytes.drop size, ending⟩
      ∧ (∀ more ending', reader ⟨bytes.take size ++ more, ending'⟩ = .ok (file, ⟨more, ending'⟩))
      ∧ (∀ n < size, ∃ defect, reader ⟨bytes.take n, .finished⟩ = .error (.malformed defect))
      ∧ ∀ n reason, reader ⟨bytes.take n, .broken reason⟩
          = if n < size then .error (.unreadable reason)
            else .ok (file, ⟨(bytes.take n).drop size, .broken reason⟩) := by
  obtain ⟨own, hinput, hreads⟩ := sequential.consumes _ _ _ h
  obtain ⟨rest, ending⟩ := left
  injection hinput with hbytes hending
  subst hbytes
  subst hending
  have htake : ∀ n < own.length, (own ++ rest).take n = own.take n := fun n hn =>
    List.take_append_of_le_length (Nat.le_of_lt hn)
  refine ⟨own.length, by simp, by simp, fun more ending' => ?_, fun n hn => ?_, fun n reason => ?_⟩
  · rw [List.take_left]
    exact hreads more ending'
  · obtain ⟨cause, hcause, hexplains⟩ := sequential.starves_of_lt hreads hn .finished
    cases hexplains with
    | finished defect =>
      rw [htake n hn]
      exact ⟨defect, hcause⟩
  · split
    · rename_i hn
      obtain ⟨cause, hcause, hexplains⟩ := sequential.starves_of_lt hreads hn (.broken reason)
      cases hexplains with
      | broken =>
        rw [htake n hn]
        exact hcause
    · rename_i hn
      have hfront : (own ++ rest).take n = own ++ rest.take (n - own.length) := by
        rw [List.take_append, List.take_of_length_le (by omega)]
      rw [hfront, List.drop_left]
      exact hreads _ _

/-- The sample class with two bytes behind it, cut off inside its constant pool. -/
theorem reader_own_bytes_nestedSample :
    reader ⟨nestedSample.encode ++ [0xCA, 0xFE], .finished⟩
        = .ok (nestedSample, ⟨[0xCA, 0xFE], .finished⟩)
      ∧ (∃ defect, reader ⟨nestedSample.encode.take 20, .finished⟩ = .error (.malformed defect))
      ∧ reader ⟨nestedSample.encode.take 20, .broken "reset"⟩ = .error (.unreadable "reset") := by
  have hread : reader ⟨nestedSample.encode ++ [0xCA, 0xFE], .finished⟩
      = .ok (nestedSample, ⟨[0xCA, 0xFE], .finished⟩) := rfl
  obtain ⟨size, hle, hleft, -, hcut, hbroken⟩ := reader_own_bytes hread
  have hsize : nestedSample.encode.length ≤ size := by
    have hrest := congrArg (fun left : Input => left.bytes.length) hleft
    simp only [List.length_drop, List.length_append, List.length_cons, List.length_nil] at hrest hle
    omega
  have hlength : 20 < nestedSample.encode.length := by decide +kernel
  have htake : (nestedSample.encode ++ [0xCA, 0xFE]).take 20 = nestedSample.encode.take 20 :=
    List.take_append_of_le_length (by omega)
  have hcut := hcut 20 (by omega)
  have hbroken := hbroken 20 "reset"
  rw [if_pos (by omega), htake] at hbroken
  rw [htake] at hcut
  exact ⟨hread, hcut, hbroken⟩

end ClassFile

end ClassFormat
