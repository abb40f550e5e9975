/-
# ClassFormat.Proofs.Layout.Attributes: attributes as they are written

An attribute is written as the index of its name, the length of its body and the body.  The body is
handed to the reader of the layout as an input of its own, which has to use it up; only the debug
extension takes whatever the body holds.

What can be written is said for one attribute at a time (`Attribute.Fits`), and the nesting is left
to `Attribute.Within`.  The reader bounds the depth by the bytes that are left: an attribute inside
another is shorter than it by at least six bytes, and the induction is on that bound.
-/
import ClassFormat.Proofs.Attribute.Nesting
import ClassFormat.Proofs.Layout.Annotations
import ClassFormat.Proofs.Layout.Frames
import ClassFormat.Proofs.Layout.Tables

namespace ClassFormat

/-! ## Writers -/

mutual

def Attribute.encode : Attribute → List UInt8
  | ⟨nameIndex, info⟩ =>
    Writer.u16 nameIndex ++ (Writer.u32 (UInt32.ofNat info.encode.length) ++ info.encode)

def AttributeInfo.encode : AttributeInfo → List UInt8
  | .constantValue index => Writer.u16 index
  | .code body => body.encode
  | .stackMapTable frames => Writer.table Frame.encode frames
  | .exceptions classes => Writer.table Writer.u16 classes
  | .innerClasses classes => Writer.table InnerClass.encode classes
  | .enclosingMethod method => method.encode
  | .synthetic => []
  | .signature index => Writer.u16 index
  | .sourceFile index => Writer.u16 index
  | .sourceDebugExtension bytes => bytes
  | .lineNumberTable lines => Writer.table LineNumber.encode lines
  | .localVariableTable entries => Writer.table LocalVariable.encode entries
  | .localVariableTypeTable entries => Writer.table LocalVariable.encode entries
  | .deprecated => []
  | .annotations _ annots => Writer.table Annot.encode annots
  | .parameterAnnotations _ parameters => Annot.encodeParameters parameters
  | .typeAnnotations _ annots => Writer.table TypeAnnot.encode annots
  | .annotationDefault value => value.encode
  | .bootstrapMethods methods => Writer.table BootstrapMethod.encode methods
  | .methodParameters parameters => Writer.shortTable MethodParameter.encode parameters
  | .moduleInfo info => info.encode
  | .modulePackages packages => Writer.table Writer.u16 packages
  | .moduleMainClass index => Writer.u16 index
  | .nestHost index => Writer.u16 index
  | .nestMembers classes => Writer.table Writer.u16 classes
  | .record components =>
    Writer.u16 (UInt16.ofNat components.length) ++ RecordComponent.encodeAll components
  | .permittedSubclasses classes => Writer.table Writer.u16 classes
  | .custom bytes => bytes

def Code.encode : Code → List UInt8
  | ⟨maxStack, maxLocals, bytes, handlers, attributes⟩ =>
    Writer.u16 maxStack ++ (Writer.u16 maxLocals ++ (Writer.u32 (UInt32.ofNat bytes.length)
      ++ (bytes ++ (Writer.table ExceptionHandler.encode handlers
        ++ (Writer.u16 (UInt16.ofNat attributes.length) ++ Attribute.encodeAll attributes)))))

def RecordComponent.encode : RecordComponent → List UInt8
  | ⟨name, descriptor, attributes⟩ =>
    Writer.u16 name ++ (Writer.u16 descriptor
      ++ (Writer.u16 (UInt16.ofNat attributes.length) ++ Attribute.encodeAll attributes))

def Attribute.encodeAll : List Attribute → List UInt8
  | [] => []
  | held :: others => held.encode ++ Attribute.encodeAll others

def RecordComponent.encodeAll : List RecordComponent → List UInt8
  | [] => []
  | component :: components => component.encode ++ RecordComponent.encodeAll components

end

theorem Attribute.encodeAll_eq_flatMap (attributes : List Attribute) :
    encodeAll attributes = attributes.flatMap encode := by
  induction attributes with
  | nil => rfl
  | cons held others ih => rw [encodeAll, ih, List.flatMap_cons]

theorem RecordComponent.encodeAll_eq_flatMap (components : List RecordComponent) :
    encodeAll components = components.flatMap encode := by
  induction components with
  | nil => rfl
  | cons component components ih => rw [encodeAll, ih, List.flatMap_cons]

theorem Attribute.encode_eq (held : Attribute) :
    held.encode = Writer.u16 held.nameIndex
      ++ (Writer.u32 (UInt32.ofNat held.info.encode.length) ++ held.info.encode) := by
  cases held
  rw [encode]

theorem Code.encode_eq (code : Code) :
    code.encode = Writer.u16 code.maxStack ++ (Writer.u16 code.maxLocals
      ++ (Writer.u32 (UInt32.ofNat code.bytes.length) ++ (code.bytes
        ++ (Writer.table ExceptionHandler.encode code.handlers
          ++ Writer.table Attribute.encode code.attributes)))) := by
  cases code
  rw [encode, Attribute.encodeAll_eq_flatMap]
  rfl

theorem RecordComponent.encode_eq (component : RecordComponent) :
    component.encode = Writer.u16 component.name ++ (Writer.u16 component.descriptor
      ++ Writer.table Attribute.encode component.attributes) := by
  cases component
  rw [encode, Attribute.encodeAll_eq_flatMap, Writer.table]

theorem AttributeInfo.encode_record (components : List RecordComponent) :
    (record components).encode = Writer.table RecordComponent.encode components := by
  rw [encode, RecordComponent.encodeAll_eq_flatMap, Writer.table]

/-- An attribute takes six bytes more than its body. -/
theorem Attribute.length_encode (held : Attribute) :
    held.encode.length = 6 + held.info.encode.length := by
  rw [encode_eq]
  simp
  omega

/-- The body of an attribute is at least as long as any attribute inside it. -/
theorem AttributeInfo.length_inner_le {info : AttributeInfo} {held : Attribute}
    (h : held ∈ info.inner) : held.encode.length ≤ info.encode.length := by
  cases info with
  | code body =>
    have hlt : held.encode.length < (Writer.table Attribute.encode body.attributes).length :=
      Writer.length_lt_table h
    rw [encode, Code.encode_eq]
    simp only [List.length_append]
    omega
  | record components =>
    obtain ⟨component, hcomponent, hheld⟩ := List.mem_flatMap.mp h
    have hlt : held.encode.length < (Writer.table Attribute.encode component.attributes).length :=
      Writer.length_lt_table hheld
    have hcomponentLt : component.encode.length
        < (Writer.table RecordComponent.encode components).length :=
      Writer.length_lt_table hcomponent
    rw [RecordComponent.encode_eq] at hcomponentLt
    rw [encode_record]
    simp only [List.length_append] at hcomponentLt
    omega
  | _ => exact absurd h List.not_mem_nil

/-! ## What can be written -/

/-- The code decodes to its end, and the tables of the body fit their numbers. -/
structure Code.Fits (code : Code) : Prop where
  decodes : Code.check code.bytes = .ok ()
  handlers : TableFits (fun handler : ExceptionHandler => handler.catchType ≠ some 0) code.handlers
  attributeCount : code.attributes.length < UInt16.size

/-- What an attribute holds can be written, the attributes inside it aside. -/
def AttributeInfo.Fits : AttributeInfo → Prop
  | code body => body.Fits
  | stackMapTable frames => TableFits Frame.Fits frames
  | exceptions classes => classes.length < UInt16.size
  | innerClasses classes => TableFits InnerClass.Fits classes
  | enclosingMethod enclosing => enclosing.method ≠ some 0
  | lineNumberTable lines => lines.length < UInt16.size
  | localVariableTable entries => entries.length < UInt16.size
  | localVariableTypeTable entries => entries.length < UInt16.size
  | annotations _ annots => TableFits Annot.Fits annots
  | parameterAnnotations _ parameters => Annot.ParametersFit parameters
  | typeAnnotations _ annots => TableFits TypeAnnot.Fits annots
  | annotationDefault value => value.Fits
  | bootstrapMethods methods =>
    TableFits (fun method : BootstrapMethod => method.arguments.length < UInt16.size) methods
  | methodParameters parameters =>
    parameters.length < UInt8.size ∧ ∀ parameter ∈ parameters, parameter.name ≠ some 0
  | moduleInfo info => info.Fits
  | modulePackages packages => packages.length < UInt16.size
  | nestMembers classes => classes.length < UInt16.size
  | record components =>
    TableFits (fun component : RecordComponent => component.attributes.length < UInt16.size)
      components
  | permittedSubclasses classes => classes.length < UInt16.size
  | constantValue _ | synthetic | signature _ | sourceFile _ | sourceDebugExtension _ | deprecated
  | moduleMainClass _ | nestHost _ | custom _ => True

/-- The name of an attribute is the one its layout is stored under, or names no known layout if the
attribute is kept as it is. -/
def Attribute.IsNamed (pool : ConstantPool) (held : Attribute) : Prop :=
  match held.info.kind? with
  | some kind => pool.utf8 held.nameIndex = .ok kind.name
  | none => ∃ name, pool.utf8 held.nameIndex = .ok name ∧ AttributeKind.ofName? name = none

/-- An attribute can be written, the attributes inside it aside. -/
structure Attribute.Fits (pool : ConstantPool) (held : Attribute) : Prop where
  named : held.IsNamed pool
  length : held.info.encode.length < UInt32.size
  info : held.info.Fits

/-! ## Bodies -/

theorem AttributeKind.ofName?_name (kind : AttributeKind) : ofName? kind.name = some kind := by
  cases kind with
  | annotations visibility => cases visibility <;> decide
  | parameterAnnotations visibility => cases visibility <;> decide
  | typeAnnotations visibility => cases visibility <;> decide
  | _ => decide

/-- The name of an attribute leads to the layout that the attribute has. -/
theorem Attribute.IsNamed.exists_name {pool : ConstantPool} {held : Attribute}
    (h : held.IsNamed pool) :
    ∃ name, pool.utf8 held.nameIndex = .ok name ∧ AttributeKind.ofName? name = held.info.kind? := by
  unfold Attribute.IsNamed at h
  cases hkind : held.info.kind? with
  | some kind =>
    rw [hkind] at h
    exact ⟨kind.name, h, kind.ofName?_name⟩
  | none =>
    rw [hkind] at h
    exact h

theorem Code.readsOf {inner : Reader Attribute} {code : Code} (h : code.Fits)
    (hlength : code.bytes.length < UInt32.size)
    (hinner : ∀ held ∈ code.attributes, Reads inner held.encode held) :
    Reads (Code.readerOf inner) code.encode code := by
  have hcount : code.bytes.length = (UInt32.ofNat code.bytes.length).toNat :=
    (UInt32.toNat_ofNat_of_lt' hlength).symm
  have hhandlers := Reads.tableOf h.handlers ExceptionHandler.reads
  have hattributes : Reads (Reader.table inner) (Writer.table Attribute.encode code.attributes)
      code.attributes := Reads.table h.attributeCount hinner
  have hdecodes := h.decodes
  rw [Code.encode_eq]
  cases code with
  | mk maxStack maxLocals bytes handlers attributes =>
    exact (Reads.u16 maxStack).bind ((Reads.u16 maxLocals).bind ((Reads.u32 _).bind
      ((Reads.run hcount).bind (Reads.lift_bind hdecodes (hhandlers.bind hattributes.map)))))

theorem RecordComponent.readsOf {inner : Reader Attribute} {component : RecordComponent}
    (hcount : component.attributes.length < UInt16.size)
    (hinner : ∀ held ∈ component.attributes, Reads inner held.encode held) :
    Reads (RecordComponent.readerOf inner) component.encode component := by
  have hattributes : Reads (Reader.table inner)
      (Writer.table Attribute.encode component.attributes) component.attributes :=
    Reads.table hcount hinner
  rw [RecordComponent.encode_eq]
  cases component with
  | mk name descriptor attributes =>
    exact (Reads.u16 name).bind ((Reads.u16 descriptor).bind hattributes.map)

namespace AttributeInfo

/-- A layout that reads its bytes whatever follows them also reads them as a whole body. -/
theorem of_reads {reader : Reader AttributeInfo} {bytes : List UInt8} {info : AttributeInfo}
    (h : Reads reader bytes info) : reader { bytes } = .ok (info, { bytes := [] }) := by
  have hwhole := h [] .finished
  rwa [List.append_nil] at hwhole

/-- A whole body is used up by its layout.  The debug extension takes the body as it is; every other
layout would read its bytes with anything behind them as well. -/
theorem readerOf_encode {inner : Reader Attribute} {info : AttributeInfo} {kind : AttributeKind}
    (hkind : info.kind? = some kind) (h : info.Fits) (hlength : info.encode.length < UInt32.size)
    (hinner : ∀ held ∈ info.inner, Reads inner held.encode held) :
    readerOf inner kind { bytes := info.encode } = .ok (info, { bytes := [] }) := by
  cases info <;> cases hkind
  case sourceDebugExtension bytes =>
    rw [encode]
    rfl
  all_goals
    apply of_reads
    rw [encode]
  case constantValue index => exact (Reads.u16 index).map
  case code body =>
    -- The code array is a part of the body, so its length has room in four bytes too.
    have hbytes : body.bytes.length < UInt32.size := by
      rw [encode, Code.encode_eq] at hlength
      simp only [List.length_append] at hlength
      omega
    exact (Code.readsOf h hbytes hinner).map
  case stackMapTable frames => exact (Reads.tableOf h Frame.reads).map
  case exceptions classes => exact (Reads.numbers h).map
  case innerClasses classes => exact (Reads.tableOf h InnerClass.reads).map
  case enclosingMethod enclosing => exact (EnclosingMethod.reads h).map
  case synthetic => exact Reads.pure _
  case signature index => exact (Reads.u16 index).map
  case sourceFile index => exact (Reads.u16 index).map
  case lineNumberTable lines => exact (Reads.table h fun entry _ => entry.reads).map
  case localVariableTable entries => exact (Reads.table h fun entry _ => entry.reads).map
  case localVariableTypeTable entries => exact (Reads.table h fun entry _ => entry.reads).map
  case deprecated => exact Reads.pure _
  case annotations visibility annots => exact (Reads.tableOf h Annot.reads).map
  case parameterAnnotations visibility parameters => exact (Annot.reads_parameters h).map
  case typeAnnotations visibility annots => exact (Reads.tableOf h TypeAnnot.reads).map
  case annotationDefault value => exact (ElementValue.reads h).map
  case bootstrapMethods methods => exact (Reads.tableOf h BootstrapMethod.reads).map
  case methodParameters parameters =>
    exact (Reads.shortTable h.1 fun parameter hmem =>
      MethodParameter.reads (h.2 parameter hmem)).map
  case moduleInfo info => exact (ModuleInfo.reads h).map
  case modulePackages packages => exact (Reads.numbers h).map
  case moduleMainClass index => exact (Reads.u16 index).map
  case nestHost index => exact (Reads.u16 index).map
  case nestMembers classes => exact (Reads.numbers h).map
  case record components =>
    have hcomponents : Reads (Reader.table (RecordComponent.readerOf inner))
        (Writer.table RecordComponent.encode components) components :=
      Reads.table h.count fun component hmem =>
        RecordComponent.readsOf (h.items component hmem) fun held hheld =>
          hinner held (List.mem_flatMap.mpr ⟨component, hmem, hheld⟩)
    rw [RecordComponent.encodeAll_eq_flatMap]
    exact hcomponents.map
  case permittedSubclasses classes => exact (Reads.numbers h).map

theorem ofBody_encode {inner : Reader Attribute} {info : AttributeInfo} {name : String}
    (hname : AttributeKind.ofName? name = info.kind?) (h : info.Fits)
    (hlength : info.encode.length < UInt32.size)
    (hinner : ∀ held ∈ info.inner, Reads inner held.encode held) :
    ofBody inner name info.encode = .ok info := by
  cases hkind : info.kind? with
  | none =>
    rw [hkind] at hname
    simp only [ofBody, hname]
    -- Only an attribute that is kept as it is has no kind.
    cases info <;> cases hkind
    rw [encode]
  | some kind =>
    rw [hkind] at hname
    simp only [ofBody, hname, readerOf_encode hkind h hlength hinner, List.isEmpty_nil, if_true]

end AttributeInfo

/-! ## Reading back -/

namespace Attribute

/-- The induction: an attribute takes more bytes than the ones inside it, so `depth` bytes are
`depth` levels. -/
theorem reads_within {pool : ConstantPool} (depth : Nat) :
    ∀ {held : Attribute}, (∀ other, Within [held] other → other.Fits pool) →
      held.encode.length ≤ depth → Reads (readerWithin pool depth) held.encode held := by
  induction depth with
  | zero =>
    intro held _ hlength
    rw [length_encode] at hlength
    omega
  | succ depth ih =>
    intro held hfits hlength
    have hself : held.Fits pool := hfits held (.direct (List.mem_singleton_self held))
    obtain ⟨name, hname, hkind⟩ := hself.named.exists_name
    -- The attributes inside are read one level deeper, where the bytes in front are spent.
    have hinner : ∀ other ∈ held.info.inner,
        Reads (readerWithin pool depth) other.encode other := by
      intro other hother
      have hwithin : Within [held] other :=
        .inside (.direct (List.mem_singleton_self held)) hother
      have hle := AttributeInfo.length_inner_le hother
      rw [length_encode] at hlength
      refine ih (fun deeper hdeeper => hfits deeper ?_) (by omega)
      exact Within.trans (fun x hx => List.mem_singleton.mp hx ▸ hwithin) hdeeper
    have hbody : AttributeInfo.ofBody (readerWithin pool depth) name held.info.encode
        = .ok held.info :=
      AttributeInfo.ofBody_encode hkind hself.info hself.length hinner
    have hcount : held.info.encode.length = (UInt32.ofNat held.info.encode.length).toNat :=
      (UInt32.toNat_ofNat_of_lt' hself.length).symm
    rw [readerWithin, encode_eq]
    refine (Reads.u16 held.nameIndex).bind (Reads.lift_bind hname ((Reads.u32 _).bind
      ((Reads.run hcount).bind_nil (Reads.lift_bind hbody ?_))))
    cases held
    exact Reads.pure _

theorem reads {pool : ConstantPool} {held : Attribute}
    (h : ∀ other, Within [held] other → other.Fits pool) :
    Reads (reader pool) held.encode held := by
  intro rest ending
  have hlength : held.encode.length ≤ (held.encode ++ rest).length := by simp
  exact reads_within _ h hlength rest ending

/-- The attributes of one owner. -/
theorem reads_table {pool : ConstantPool} {owned : List Attribute}
    (hcount : owned.length < UInt16.size)
    (h : ∀ held, Within owned held → held.Fits pool) :
    Reads (tableReader pool) (Writer.table encode owned) owned := by
  refine Reads.table hcount fun held hheld => reads fun other hother => h other ?_
  exact Within.mono (fun x hx => List.mem_singleton.mp hx ▸ hheld) hother

end Attribute

end ClassFormat
