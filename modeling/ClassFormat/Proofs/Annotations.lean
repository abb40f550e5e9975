/-
# ClassFormat.Proofs.Annotations: annotations read and written

Reading and writing undo each other, for values, pairs, annotations, the annotations of parameters
and those of type uses.  One direction is in `ClassFormat.Proofs.Layout.Annotations`.  For the
other, a level of nesting is read with any reader for the values inside it that takes off what is
written of them, and the bound on the depth is the induction.

The bound never shows.  Reading a value is one level over reading a value, and the bytes that are
looked at bound the levels, also where reading fails.
-/
import ClassFormat.Proofs.Descriptor
import ClassFormat.Proofs.Layout.Truncation

namespace ClassFormat

open Reader (Consumes Sequential Nested)

/-! ## Tag characters -/

/-- A byte is the byte of the character that it stands for. -/
theorem Writer.u8_eq_letter {tag : UInt8} {c : Char} (h : Char.ofNat tag.toNat = c) :
    u8 tag = letter c := by
  have hbyte : ∀ byte : UInt8, UInt8.ofNat (Char.ofNat byte.toNat).toNat = byte :=
    forall_byte (by decide +kernel)
  rw [← h, letter, hbyte]

theorem LiteralTag.letter_of_ofLetter? {c : Char} {tag : LiteralTag}
    (h : ofLetter? c = some tag) : c = tag.letter := by
  unfold ofLetter? at h
  split at h
  · rename_i hc
    cases h
    exact hc
  · obtain ⟨type, htype, rfl⟩ := Option.map_eq_some_iff.mp h
    exact BaseType.letter_of_ofLetter? htype

/-- The first byte of a value is its tag character. -/
theorem ElementValue.head_encode (value : ElementValue) :
    ∃ tag, value.encode.head? = some tag ∧ Char.ofNat tag.toNat = value.letter := by
  have hletter : ∀ (c : Char) (behind : List UInt8),
      (Writer.letter c ++ behind).head? = some (UInt8.ofNat c.toNat) := by
    intro c behind
    rw [Writer.letter, Writer.u8_eq_singleton]
    rfl
  refine ⟨UInt8.ofNat value.letter.toNat, ?_, ?_⟩
  · cases value <;> rw [encode, hletter] <;> rfl
  · cases value with
    | literal tag index =>
      cases tag with
      | string => rfl
      | base type => cases type <;> rfl
    | _ => rfl

/-! ## The bytes of element values -/

section Level

variable {inner : Reader ElementValue}

theorem ElementPair.consumesOf
    (h : Consumes inner (Written ElementValue.encode ElementValue.Fits)) :
    Consumes (readerOf inner) (Written encode fun pair => pair.value.Fits) := by
  refine Consumes.u16.bind fun name own hname => h.map ?_
  rintro value bytes ⟨rfl, hfits⟩
  refine ⟨?_, hfits⟩
  rw [hname, encode_eq]

theorem Annot.consumesOf (h : Consumes inner (Written ElementValue.encode ElementValue.Fits)) :
    Consumes (readerOf inner) (Written encode Fits) := by
  refine Consumes.u16.bind fun typeIndex own hindex =>
    (ElementPair.consumesOf h).table_written.map ?_
  rintro pairs bytes ⟨rfl, hcount, hpairs⟩
  refine ⟨?_, .intro hcount hpairs⟩
  rw [hindex, encode_eq]

/-- What is read behind a tag byte, together with that byte, is what is written of the value. -/
theorem ElementValue.consumes_body (h : Consumes inner (Written encode Fits)) (tag : UInt8) :
    Consumes (bodyReader inner tag) fun own value =>
      Written encode Fits (Writer.u8 tag ++ own) value := by
  unfold bodyReader
  split
  · rename_i htag
    refine Consumes.u16.bind fun typeName own htype => Consumes.u16.map ?_
    intro constName bytes hconst
    refine ⟨?_, .enumConstant typeName constName⟩
    rw [Writer.u8_eq_letter htag, htype, hconst, encode]
  · rename_i htag
    refine Consumes.u16.map fun descriptor own hdescriptor => ?_
    refine ⟨?_, .classLiteral descriptor⟩
    rw [Writer.u8_eq_letter htag, hdescriptor, encode]
  · rename_i htag
    refine (Annot.consumesOf h).map ?_
    rintro value own ⟨rfl, hfits⟩
    refine ⟨?_, .nested hfits⟩
    rw [Writer.u8_eq_letter htag, encode]
  · rename_i htag
    refine h.table_written.map ?_
    rintro values own ⟨rfl, hcount, hfits⟩
    refine ⟨?_, .array hcount hfits⟩
    rw [Writer.u8_eq_letter htag, encode_array]
  · split
    · rename_i literalTag hliteral
      refine Consumes.u16.map fun index own hindex => ?_
      refine ⟨?_, .literal literalTag index⟩
      rw [Writer.u8_eq_letter (LiteralTag.letter_of_ofLetter? hliteral), hindex, encode]
    · exact .fail

end Level

namespace ElementValue

/-- The induction: the values inside a value are read one level deeper. -/
theorem consumes_within (depth : Nat) : Consumes (readerWithin depth) (Written encode Fits) := by
  induction depth with
  | zero =>
    intro input value left h
    cases h
  | succ depth ih =>
    refine Consumes.u8.bind fun tag own htag => ?_
    subst htag
    exact consumes_body ih tag

theorem consumes : Consumes reader (Written encode Fits) := fun input =>
  consumes_within input.bytes.length input

end ElementValue

/-! ## The bytes of annotations of type uses -/

theorem LocalVarTarget.consumes : Consumes reader (Written encode fun _ => True) := by
  refine Consumes.u16.bind fun startPc own hstart => Consumes.u16.bind fun length bytes hlength =>
    Consumes.u16.map fun index others hindex => ⟨?_, trivial⟩
  rw [hstart, hlength, hindex, encode]

theorem TypePathStep.consumes : Consumes reader (Written encode fun _ => True) := by
  refine Consumes.u8.bind fun kind own hkind => Consumes.u8.map fun argument bytes hargument =>
    ⟨?_, trivial⟩
  rw [hkind, hargument, encode]

theorem TargetType.consumes :
    Consumes reader fun own target => own = Writer.u8 target.tag := by
  refine Consumes.u8.bind fun tag own htag => ?_
  cases htarget : ofTag? tag with
  | none => exact .fail
  | some target =>
    have hsame : target.tag = tag := by simpa using List.find?_some htarget
    apply Consumes.pure
    rw [List.append_nil, htag, hsame]

theorem TargetInfo.consumes (target : TargetType) :
    Consumes (reader target) (Written encode (Fits target)) := by
  cases target with
  | classTypeParameter | methodTypeParameter | methodFormalParameter =>
    exact Consumes.u8.map fun index own hindex => ⟨hindex, by constructor⟩
  | classExtends | throwsClause | exceptionParameter | instanceOf | new | constructorReference
  | methodReference =>
    exact Consumes.u16.map fun index own hindex => ⟨hindex, by constructor⟩
  | classTypeParameterBound | methodTypeParameterBound =>
    refine Consumes.u8.bind fun index own hindex => Consumes.u8.map fun bound bytes hbound => ?_
    subst hindex hbound
    exact ⟨rfl, by constructor⟩
  | field | methodReturn | methodReceiver => exact .pure ⟨rfl, by constructor⟩
  | localVariable | resourceVariable =>
    refine LocalVarTarget.consumes.table_written.map ?_
    rintro ranges own ⟨rfl, hcount, -⟩
    exact ⟨rfl, by constructor; exact hcount⟩
  | cast | constructorInvocationTypeArgument | methodInvocationTypeArgument
  | constructorReferenceTypeArgument | methodReferenceTypeArgument =>
    refine Consumes.u16.bind fun pc own hpc => Consumes.u8.map fun index bytes hindex => ?_
    subst hpc hindex
    exact ⟨rfl, by constructor⟩

/-! ## Reading undoes writing -/

theorem ElementValue.undoes : Reader.Undoes reader encode Fits := ⟨fun _ h => reads h, consumes⟩

theorem ElementPair.undoes : Reader.Undoes reader encode fun pair => pair.value.Fits :=
  ⟨fun _ h => reads h, consumesOf ElementValue.consumes⟩

theorem Annot.undoes : Reader.Undoes reader encode Fits :=
  ⟨fun _ h => reads h, consumesOf ElementValue.consumes⟩

theorem Annot.undoes_parameters :
    Reader.Undoes parametersReader encodeParameters ParametersFit := by
  refine ⟨fun _ h => reads_parameters h, ?_⟩
  refine Annot.undoes.consumes.table_written.shortTable_written.mono ?_
  rintro own parameters ⟨rfl, hcount, hall⟩
  exact ⟨rfl, hcount, fun annots hannots => (hall annots hannots).1,
    fun annots hannots => (hall annots hannots).2⟩

theorem TypeAnnot.undoes : Reader.Undoes reader encode Fits := by
  refine ⟨fun _ h => reads h, ?_⟩
  refine TargetType.consumes.bind fun target own htarget =>
    (TargetInfo.consumes target).bind fun info bytes hinfo =>
      TypePathStep.consumes.shortTable_written.bind fun path others hpath =>
        Consumes.u16.bind fun typeIndex more hindex =>
          ElementPair.undoes.consumes.table_written.map ?_
  rintro pairs last ⟨rfl, hpairCount, hpairs⟩
  obtain ⟨rfl, hinfo⟩ := hinfo
  obtain ⟨rfl, hpathCount, -⟩ := hpath
  subst htarget hindex
  exact ⟨rfl, hinfo, hpathCount, hpairCount, hpairs⟩

/-! ## Depth of nesting -/

mutual

/-- How deep a value goes, with itself. -/
def ElementValue.depth : ElementValue → Nat
  | .literal _ _ | .enumConstant _ _ | .classLiteral _ => 1
  | .nested value => value.depth + 1
  | .array values => ElementValue.depthAll values + 1

def Annot.depth : Annot → Nat
  | ⟨_, pairs⟩ => ElementPair.depthAll pairs + 1

def ElementPair.depth : ElementPair → Nat
  | ⟨_, value⟩ => value.depth + 1

/-- How deep the deepest of the values goes. -/
def ElementValue.depthAll : List ElementValue → Nat
  | [] => 0
  | value :: values => max value.depth (ElementValue.depthAll values)

def ElementPair.depthAll : List ElementPair → Nat
  | [] => 0
  | pair :: pairs => max pair.depth (ElementPair.depthAll pairs)

end

mutual

/-- Every level takes a byte at least. -/
theorem ElementValue.depth_le : ∀ value : ElementValue, value.depth ≤ value.encode.length
  | .literal tag index => by
    simp only [ElementValue.depth, ElementValue.encode, List.length_append, Writer.length_u16]
    omega
  | .enumConstant typeName constName => by
    simp only [ElementValue.depth, ElementValue.encode, List.length_append, Writer.length_u16]
    omega
  | .classLiteral descriptor => by
    simp only [ElementValue.depth, ElementValue.encode, List.length_append, Writer.length_u16]
    omega
  | .nested value => by
    have hvalue := value.depth_le
    simp only [ElementValue.depth, ElementValue.encode, List.length_append, Writer.letter,
      Writer.length_u8]
    omega
  | .array values => by
    have hvalues := ElementValue.depthAll_le values
    simp only [ElementValue.depth, ElementValue.encode, List.length_append, Writer.letter,
      Writer.length_u8]
    omega

theorem Annot.depth_le : ∀ annot : Annot, annot.depth ≤ annot.encode.length
  | ⟨typeIndex, pairs⟩ => by
    have hpairs := ElementPair.depthAll_le pairs
    simp only [Annot.depth, Annot.encode, List.length_append, Writer.length_u16]
    omega

theorem ElementPair.depth_le : ∀ pair : ElementPair, pair.depth ≤ pair.encode.length
  | ⟨name, value⟩ => by
    have hvalue := value.depth_le
    simp only [ElementPair.depth, ElementPair.encode, List.length_append, Writer.length_u16]
    omega

theorem ElementValue.depthAll_le : ∀ values : List ElementValue,
    ElementValue.depthAll values ≤ (ElementValue.encodeAll values).length
  | [] => Nat.zero_le _
  | value :: values => by
    have hvalue := value.depth_le
    have hvalues := ElementValue.depthAll_le values
    simp only [ElementValue.depthAll, ElementValue.encodeAll, List.length_append]
    omega

theorem ElementPair.depthAll_le : ∀ pairs : List ElementPair,
    ElementPair.depthAll pairs ≤ (ElementPair.encodeAll pairs).length
  | [] => Nat.zero_le _
  | pair :: pairs => by
    have hpair := pair.depth_le
    have hpairs := ElementPair.depthAll_le pairs
    simp only [ElementPair.depthAll, ElementPair.encodeAll, List.length_append]
    omega

end

namespace ElementValue

/-- One level of a value, given how the values inside it are read. -/
def levelReader (inner : Reader ElementValue) : Reader ElementValue :=
  Reader.u8 >>= bodyReader inner

theorem nested_level : Nested readerWithin levelReader := nested_reader

theorem sequential_level {inner : Reader ElementValue} (h : Sequential inner) :
    Sequential (levelReader inner) :=
  Sequential.u8.bind fun tag => sequential_body h tag

/-- What a whole run of the reader does.  It reads one level and, for the values inside, itself.
A level for each byte that it looks at and one more are enough, whatever stands for the levels
below: for bytes that it uses up, for those of a value and for those that it refuses. -/
structure LevelsWithinBytes : Prop where
  level : reader = levelReader reader
  used : ∀ inner input, levelReader^[input.bytes.length + 1] inner input = reader input
  read : ∀ inner, Sequential inner → ∀ own value, Reads reader own value →
    Reads (levelReader^[own.length + 1] inner) own value
  refused : ∀ inner, Sequential inner → ∀ own cause,
    (∀ rest ending, reader ⟨own ++ rest, ending⟩ = .error cause) →
      ∀ rest ending, levelReader^[own.length + 1] inner ⟨own ++ rest, ending⟩ = .error cause

theorem levelsWithinBytes : LevelsWithinBytes where
  level := nested_level.tied_eq
  used := nested_level.iterate_eq_tied
  read _ hinner _ _ h := nested_level.reads_iterate sequential_level hinner h
  refused _ hinner _ _ h := nested_level.refuses_iterate sequential_level hinner h

end ElementValue

theorem Annot.depth_lt_parameters {parameters : List (List Annot)} {annots : List Annot}
    {annot : Annot} (hannots : annots ∈ parameters) (hannot : annot ∈ annots) :
    annot.depth < (encodeParameters parameters).length := by
  have hdepth := annot.depth_le
  have htable : annot.encode.length < (Writer.table encode annots).length :=
    Writer.length_lt_table hannot
  have hall : (Writer.table encode annots).length
      ≤ (parameters.flatMap (Writer.table encode)).length := Writer.length_le_flatMap hannots
  rw [encodeParameters, Writer.shortTable, List.length_append]
  omega

theorem TypeAnnot.depth_lt {annot : TypeAnnot} {pair : ElementPair} (h : pair ∈ annot.pairs) :
    pair.depth < annot.encode.length := by
  have hdepth := pair.depth_le
  have htable : pair.encode.length < (Writer.table ElementPair.encode annot.pairs).length :=
    Writer.length_lt_table h
  simp only [encode, List.length_append]
  omega

/-! ## Annotations as a whole -/

/-- Each reader gives back what was written, whatever follows it, and takes off only what was
written of a value whose lists fit their numbers and whose place is the one of its kind of type
use.  What was written starts with the tag of the value, and no value goes deeper than the bytes
that are written of it.  Reading ends after as many levels as there are bytes looked at. -/
theorem annotation_readers_exact :
    Reader.Undoes ElementValue.reader ElementValue.encode ElementValue.Fits
      ∧ Reader.Undoes ElementPair.reader ElementPair.encode (fun pair => pair.value.Fits)
      ∧ Reader.Undoes Annot.reader Annot.encode Annot.Fits
      ∧ Reader.Undoes Annot.parametersReader Annot.encodeParameters Annot.ParametersFit
      ∧ Reader.Undoes TypeAnnot.reader TypeAnnot.encode TypeAnnot.Fits
      ∧ (∀ value : ElementValue, ∃ tag, value.encode.head? = some tag
          ∧ Char.ofNat tag.toNat = value.letter)
      ∧ (∀ annot : TypeAnnot, annot.encode.head? = some annot.target.tag)
      ∧ (∀ value : ElementValue, value.depth ≤ value.encode.length)
      ∧ (∀ pair : ElementPair, pair.depth ≤ pair.encode.length)
      ∧ (∀ annot : Annot, annot.depth ≤ annot.encode.length)
      ∧ (∀ parameters : List (List Annot), ∀ annots ∈ parameters, ∀ annot ∈ annots,
          annot.depth < (Annot.encodeParameters parameters).length)
      ∧ (∀ annot : TypeAnnot, ∀ pair ∈ annot.pairs, pair.depth < annot.encode.length)
      ∧ ElementValue.LevelsWithinBytes := by
  refine ⟨ElementValue.undoes, ElementPair.undoes, Annot.undoes, Annot.undoes_parameters,
    TypeAnnot.undoes, ElementValue.head_encode, ?_, ElementValue.depth_le, ElementPair.depth_le,
    Annot.depth_le, ?_, ?_, ElementValue.levelsWithinBytes⟩
  · intro annot
    rw [TypeAnnot.encode, Writer.u8_eq_singleton]
    rfl
  · intro parameters annots hannots annot hannot
    exact Annot.depth_lt_parameters hannots hannot
  · intro annot pair hpair
    exact TypeAnnot.depth_lt hpair

/-- An array of an annotation and a class, before one more byte. -/
theorem annotation_readers_exact_array :
    ElementValue.reader ⟨[0x5B, 0, 2, 0x40, 0, 5, 0, 1, 0, 6, 0x49, 0, 7, 0x63, 0, 8, 9], .finished⟩
      = .ok (.array [.nested ⟨5, [⟨6, .literal (.base .int) 7⟩]⟩, .classLiteral 8],
          ⟨[9], .finished⟩) := by
  have hnested : (ElementValue.nested ⟨5, [⟨6, .literal (.base .int) 7⟩]⟩).Fits :=
    .nested (.intro (by decide) (List.forall_mem_singleton.mpr (.literal _ 7)))
  have hfits : (ElementValue.array
      [.nested ⟨5, [⟨6, .literal (.base .int) 7⟩]⟩, .classLiteral 8]).Fits :=
    .array (by decide)
      (List.forall_mem_cons.mpr ⟨hnested, List.forall_mem_singleton.mpr (.classLiteral 8)⟩)
  exact annotation_readers_exact.1.reads _ hfits [9] .finished

end ClassFormat
