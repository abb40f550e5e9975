/-
# ClassFormat.Proofs.Layout.ClassFile: class files as they are written

`ClassFile.encode` writes the whole layout, and `ClassFile.Representable` says which class files it
can write.  The main statement is that reading what was written gives the class file back, whatever
follows it.
-/
import ClassFormat.Proofs.Layout.Attributes
import ClassFormat.Proofs.Layout.Constants

namespace ClassFormat

def Version.encode (version : Version) : List UInt8 :=
  Writer.u16 version.minor ++ Writer.u16 version.major

theorem Version.reads (version : Version) : Reads Version.reader version.encode version :=
  (Reads.u16 version.minor).bind (Reads.u16 version.major).map

/-! ## Fields and methods -/

namespace Member

variable {carrier : FlagCarrier}

def encode (member : Member carrier) : List UInt8 :=
  member.flags.encode ++ (Writer.u16 member.nameIndex ++ (Writer.u16 member.descriptorIndex
    ++ Writer.table Attribute.encode member.attributes))

theorem reads {pool : ConstantPool} {member : Member carrier}
    (hcount : member.attributes.length < UInt16.size)
    (h : ∀ held, Attribute.Within member.attributes held → held.Fits pool) :
    Reads (reader pool) member.encode member :=
  member.flags.reads.bind ((Reads.u16 member.nameIndex).bind
    ((Reads.u16 member.descriptorIndex).bind (Attribute.reads_table hcount h).map))

end Member

/-! ## Class files -/

namespace ClassFile

/-- The bytes of a class file. -/
def encode (file : ClassFile) : List UInt8 :=
  Writer.u32 magic ++ (file.version.encode ++ (file.pool.encode ++ (file.flags.encode
    ++ (Writer.u16 file.thisClass ++ (Writer.optionalIndex file.superClass
      ++ (Writer.table Writer.u16 file.interfaces ++ (Writer.table Member.encode file.fields
        ++ (Writer.table Member.encode file.methods
          ++ Writer.table Attribute.encode file.attributes))))))))

/-- A class file that can be written: it has a name, every list fits its number, and every
attribute, at any depth, is stored under a name that leads to its layout and fits its length. -/
structure Representable (file : ClassFile) : Prop where
  pool : file.pool.Representable
  named : ∃ name, file.name = .ok name
  superClass : file.superClass ≠ some 0
  interfaceCount : file.interfaces.length < UInt16.size
  fields : TableFits (fun field : Field => field.attributes.length < UInt16.size) file.fields
  methods : TableFits (fun method : Method => method.attributes.length < UInt16.size) file.methods
  attributeCount : file.attributes.length < UInt16.size
  attributes : ∀ held, file.Holds held → held.Fits file.pool

theorem reads_magic : Reads magicReader (Writer.u32 magic) () := by
  refine (Reads.u32 magic).bind_nil ?_
  rw [if_neg (fun h => h rfl)]
  exact Reads.pure ()

theorem holds_of_field {file : ClassFile} {field : Field} (hfield : field ∈ file.fields)
    {held : Attribute} (h : Attribute.Within field.attributes held) : file.Holds held := by
  refine Attribute.Within.mono (fun other hother => ?_) h
  exact List.mem_append_right _
    (List.mem_append_left _ (List.mem_flatMap.mpr ⟨field, hfield, hother⟩))

theorem holds_of_method {file : ClassFile} {method : Method} (hmethod : method ∈ file.methods)
    {held : Attribute} (h : Attribute.Within method.attributes held) : file.Holds held := by
  refine Attribute.Within.mono (fun other hother => ?_) h
  exact List.mem_append_right _
    (List.mem_append_right _ (List.mem_flatMap.mpr ⟨method, hmethod, hother⟩))

theorem holds_of_class {file : ClassFile} {held : Attribute}
    (h : Attribute.Within file.attributes held) : file.Holds held :=
  Attribute.Within.mono (fun _ hother => List.mem_append_left _ hother) h

/-- Reading undoes writing: the class file comes back, and exactly what follows it is left. -/
theorem reader_encode_append {file : ClassFile} (h : file.Representable) (rest : List UInt8)
    (ending : Ending) :
    reader ⟨file.encode ++ rest, ending⟩ = .ok (file, ⟨rest, ending⟩) := by
  obtain ⟨name, hname⟩ := h.named
  have hfields : Reads (Reader.table (Member.reader file.pool))
      (Writer.table Member.encode file.fields) file.fields :=
    Reads.table h.fields.count fun field hfield =>
      Member.reads (h.fields.items field hfield) fun held hheld =>
        h.attributes held (holds_of_field hfield hheld)
  have hmethods : Reads (Reader.table (Member.reader file.pool))
      (Writer.table Member.encode file.methods) file.methods :=
    Reads.table h.methods.count fun method hmethod =>
      Member.reads (h.methods.items method hmethod) fun held hheld =>
        h.attributes held (holds_of_method hmethod hheld)
  have hattributes := Attribute.reads_table h.attributeCount fun held hheld =>
    h.attributes held (holds_of_class hheld)
  -- The readers in the order of the layout; the name is looked up right behind its index.
  have hread : Reads reader file.encode file :=
    reads_magic.bind (file.version.reads.bind ((ConstantPool.reads h.pool).bind
      (file.flags.reads.bind ((Reads.u16 file.thisClass).bind (Reads.lift_bind hname
        ((Reads.optionalIndex h.superClass).bind ((Reads.numbers h.interfaceCount).bind
          (hfields.bind (hmethods.bind hattributes.map)))))))))
  exact hread rest ending

/-! ## A class that uses most of the layout -/

/-- An annotation of a record component, which holds another one. -/
def sampleAnnotations : Attribute :=
  ⟨7, .annotations .visible [⟨1, [⟨1, .array [.nested ⟨1, []⟩]⟩]⟩]⟩

/-- A record of one component. -/
def sampleRecord : Attribute := ⟨4, .record [⟨1, 1, [sampleAnnotations]⟩]⟩

/-- An attribute without a known layout. -/
def sampleCustom : Attribute := ⟨8, .custom [7]⟩

/-- The body of a method that returns a variable, with a handler around it. -/
def sampleBody : Attribute :=
  ⟨3, .code ⟨1, 0, [0xc4, 0x15, 0x01, 0x00, 0xac], [⟨0, 4, 4, some 2⟩], [sampleCustom]⟩⟩

/-- A class with an eight-byte constant, a text with a null and a supplementary character, and
attributes inside a method body and a record component. -/
def nestedSample : ClassFile where
  version := Version.java17
  pool := ConstantPool.ofList
    [.utf8 "A", .classRef 1, .utf8 "Code", .utf8 "Record", .long (-2),
     .utf8 "RuntimeVisibleAnnotations", .utf8 "\x00😀"]
  flags := Flags.ofWord 0x0031
  thisClass := 2
  superClass := none
  interfaces := [2]
  fields := []
  methods := [⟨Flags.ofWord 0x0009, 1, 1, [sampleBody]⟩]
  attributes := [sampleRecord]

theorem nestedSample_holds {held : Attribute} (h : nestedSample.Holds held) :
    held = sampleRecord ∨ held = sampleAnnotations ∨ held = sampleBody ∨ held = sampleCustom := by
  induction h with
  | @direct held hmem =>
    have hcases : held = sampleRecord ∨ held = sampleBody := by
      simpa [ownedAttributes, nestedSample] using hmem
    rcases hcases with h | h
    · exact Or.inl h
    · exact Or.inr (Or.inr (Or.inl h))
  | inside _ hinner ih =>
    rcases ih with rfl | rfl | rfl | rfl
    · exact Or.inr (Or.inl (List.mem_singleton.mp hinner))
    · exact absurd hinner List.not_mem_nil
    · exact Or.inr (Or.inr (Or.inr (List.mem_singleton.mp hinner)))
    · exact absurd hinner List.not_mem_nil

theorem sampleAnnotations_fits : sampleAnnotations.info.Fits := by
  have hinner : Annot.Fits ⟨1, []⟩ := .intro (by decide) (by simp)
  have houter : Annot.Fits ⟨1, [⟨1, .array [.nested ⟨1, []⟩]⟩]⟩ := by
    refine .intro (by decide) fun pair hpair => ?_
    rw [List.mem_singleton.mp hpair]
    refine .array (by decide) fun value hvalue => ?_
    rw [List.mem_singleton.mp hvalue]
    exact .nested hinner
  refine ⟨by decide, fun annot hannot => ?_⟩
  rw [List.mem_singleton.mp hannot]
  exact houter

theorem sampleBody_fits : sampleBody.info.Fits where
  decodes := rfl
  handlers := ⟨by decide, by simp⟩
  attributeCount := by decide

theorem nestedSample_representable : nestedSample.Representable where
  pool := {
    numbered := rfl
    width_le := by decide
    fits := by
      intro constant hconstant
      have hcases : constant ∈ [Constant.utf8 "A", .classRef 1, .utf8 "Code", .utf8 "Record",
          .long (-2), .utf8 "RuntimeVisibleAnnotations", .utf8 "\x00😀"] := hconstant
      simp only [List.mem_cons, List.not_mem_nil, or_false] at hcases
      rcases hcases with rfl | rfl | rfl | rfl | rfl | rfl | rfl <;> simp only [Constant.Fits] <;>
        decide
  }
  named := ⟨"A", rfl⟩
  superClass := by decide
  interfaceCount := by decide
  fields := ⟨by decide, by simp [nestedSample]⟩
  methods := ⟨by decide, fun method hmethod => by rw [List.mem_singleton.mp hmethod]; decide⟩
  attributeCount := by decide
  attributes := by
    intro held hheld
    rcases nestedSample_holds hheld with rfl | rfl | rfl | rfl
    · refine ⟨rfl, by decide, by decide, fun component hcomponent => ?_⟩
      rw [List.mem_singleton.mp hcomponent]
      decide
    · exact ⟨rfl, by decide, sampleAnnotations_fits⟩
    · exact ⟨rfl, by decide, sampleBody_fits⟩
    · exact ⟨⟨"\x00😀", rfl, by decide⟩, by decide, trivial⟩

theorem reader_encode_nestedSample :
    nestedSample.Representable ∧ reader ⟨nestedSample.encode ++ [0xCA, 0xFE], .finished⟩
      = .ok (nestedSample, ⟨[0xCA, 0xFE], .finished⟩) :=
  ⟨nestedSample_representable,
    reader_encode_append nestedSample_representable [0xCA, 0xFE] .finished⟩

end ClassFile

end ClassFormat
