/-
# ClassFormat.Proofs.Layout.Annotations: annotations as they are written

Element values, annotations and pairs hold each other, so their writers are defined together, with
a writer for each of the two lists that they hold.  The reader bounds the nesting by the bytes that
are left.  A value inside another is shorter than it, so bytes enough for the value are levels
enough, and the induction is on that bound.
-/
import ClassFormat.Annotations.TypeUse
import ClassFormat.Proofs.Layout.Reads

namespace ClassFormat

/-! ## Writers -/

/-- The byte of a tag character. -/
def Writer.letter (c : Char) : List UInt8 := u8 (UInt8.ofNat c.toNat)

mutual

def ElementValue.encode : ElementValue → List UInt8
  | .literal tag index => Writer.letter tag.letter ++ Writer.u16 index
  | .enumConstant typeName constName =>
    Writer.letter 'e' ++ (Writer.u16 typeName ++ Writer.u16 constName)
  | .classLiteral descriptor => Writer.letter 'c' ++ Writer.u16 descriptor
  | .nested value => Writer.letter '@' ++ value.encode
  | .array values =>
    Writer.letter '['
      ++ (Writer.u16 (UInt16.ofNat values.length) ++ ElementValue.encodeAll values)

def Annot.encode : Annot → List UInt8
  | ⟨typeIndex, pairs⟩ =>
    Writer.u16 typeIndex ++ (Writer.u16 (UInt16.ofNat pairs.length) ++ ElementPair.encodeAll pairs)

def ElementPair.encode : ElementPair → List UInt8
  | ⟨name, value⟩ => Writer.u16 name ++ value.encode

def ElementValue.encodeAll : List ElementValue → List UInt8
  | [] => []
  | value :: values => value.encode ++ ElementValue.encodeAll values

def ElementPair.encodeAll : List ElementPair → List UInt8
  | [] => []
  | pair :: pairs => pair.encode ++ ElementPair.encodeAll pairs

end

theorem ElementValue.encodeAll_eq_flatMap (values : List ElementValue) :
    encodeAll values = values.flatMap encode := by
  induction values with
  | nil => rfl
  | cons value values ih => rw [encodeAll, ih, List.flatMap_cons]

theorem ElementPair.encodeAll_eq_flatMap (pairs : List ElementPair) :
    encodeAll pairs = pairs.flatMap encode := by
  induction pairs with
  | nil => rfl
  | cons pair pairs ih => rw [encodeAll, ih, List.flatMap_cons]

theorem ElementValue.encode_array (values : List ElementValue) :
    (array values).encode = Writer.letter '[' ++ Writer.table encode values := by
  rw [encode, encodeAll_eq_flatMap, Writer.table]

theorem Annot.encode_eq (annot : Annot) :
    annot.encode = Writer.u16 annot.typeIndex ++ Writer.table ElementPair.encode annot.pairs := by
  cases annot
  rw [encode, ElementPair.encodeAll_eq_flatMap, Writer.table]

theorem ElementPair.encode_eq (pair : ElementPair) :
    pair.encode = Writer.u16 pair.name ++ pair.value.encode := by
  cases pair
  rw [encode]

/-! ## What can be written -/

mutual

/-- A value all of whose lists, also in the values inside it, fit their two-byte numbers. -/
inductive ElementValue.Fits : ElementValue → Prop
  | literal (tag : LiteralTag) (index : PoolIndex) : ElementValue.Fits (.literal tag index)
  | enumConstant (typeName constName : PoolIndex) :
      ElementValue.Fits (.enumConstant typeName constName)
  | classLiteral (descriptor : PoolIndex) : ElementValue.Fits (.classLiteral descriptor)
  | nested {value : Annot} (h : value.Fits) : ElementValue.Fits (.nested value)
  | array {values : List ElementValue} (hcount : values.length < UInt16.size)
      (h : ∀ value ∈ values, value.Fits) : ElementValue.Fits (.array values)

/-- An annotation all of whose lists fit their two-byte numbers. -/
inductive Annot.Fits : Annot → Prop
  | intro {annot : Annot} (hcount : annot.pairs.length < UInt16.size)
      (h : ∀ pair ∈ annot.pairs, pair.value.Fits) : Annot.Fits annot

end

/-! ## Reading back -/

theorem Reads.letter {α : Type} {next : UInt8 → Reader α} {c : Char} {bytes : List UInt8}
    {value : α} (h : Reads (next (UInt8.ofNat c.toNat)) bytes value) :
    Reads (Reader.u8 >>= next) (Writer.letter c ++ bytes) value :=
  (Reads.u8 (UInt8.ofNat c.toNat)).bind h

theorem ElementPair.readsOf {inner : Reader ElementValue} {pair : ElementPair}
    (h : Reads inner pair.value.encode pair.value) :
    Reads (ElementPair.readerOf inner) pair.encode pair := by
  rw [ElementPair.encode_eq]
  cases pair with
  | mk name value => exact (Reads.u16 name).bind h.map

theorem Annot.readsOf {inner : Reader ElementValue} {annot : Annot}
    (hcount : annot.pairs.length < UInt16.size)
    (h : ∀ pair ∈ annot.pairs, Reads inner pair.value.encode pair.value) :
    Reads (Annot.readerOf inner) annot.encode annot := by
  have hpairs : Reads (Reader.table (ElementPair.readerOf inner))
      (Writer.table ElementPair.encode annot.pairs) annot.pairs :=
    Reads.table hcount fun pair hpair => ElementPair.readsOf (h pair hpair)
  rw [Annot.encode_eq]
  cases annot with
  | mk typeIndex pairs => exact (Reads.u16 typeIndex).bind hpairs.map

/-- The letters of literals are none of the letters of the other values. -/
theorem ElementValue.reads_literal (inner : Reader ElementValue) (tag : LiteralTag)
    (index : PoolIndex) :
    Reads (ElementValue.bodyReader inner (UInt8.ofNat tag.letter.toNat)) (Writer.u16 index)
      (.literal tag index) := by
  cases tag with
  | string => exact (Reads.u16 index).map
  | base type => cases type <;> exact (Reads.u16 index).map

/-- A pair is longer than its value. -/
theorem ElementPair.length_value_lt (pair : ElementPair) :
    pair.value.encode.length < pair.encode.length := by
  rw [ElementPair.encode_eq, List.length_append, Writer.length_u16]
  omega

/-- The induction: every level of nesting takes a byte, so `depth` bytes are `depth` levels. -/
theorem ElementValue.reads_within (depth : Nat) :
    ∀ {value : ElementValue}, value.Fits → value.encode.length ≤ depth →
      Reads (ElementValue.readerWithin depth) value.encode value := by
  induction depth with
  | zero =>
    intro value _ hlength
    -- There is a letter in front of every value.
    cases value <;> simp [ElementValue.encode, Writer.letter] at hlength
  | succ depth ih =>
    intro value hfits hlength
    rw [ElementValue.readerWithin]
    cases hfits with
    | literal tag index =>
      rw [ElementValue.encode]
      exact Reads.letter (reads_literal _ tag index)
    | enumConstant typeName constName =>
      rw [ElementValue.encode]
      exact Reads.letter ((Reads.u16 typeName).bind (Reads.u16 constName).map)
    | classLiteral descriptor =>
      rw [ElementValue.encode]
      exact Reads.letter (Reads.u16 descriptor).map
    | @nested value h =>
      obtain ⟨hcount, hpairs⟩ := h
      rw [ElementValue.encode] at hlength ⊢
      rw [Annot.encode_eq, List.length_append, List.length_append, Writer.letter,
        Writer.length_u8, Writer.length_u16] at hlength
      refine Reads.letter (Annot.readsOf hcount fun pair hpair => ih (hpairs pair hpair) ?_).map
      -- A value in the annotation is shorter than its pair, and that shorter than the table.
      have hpairLt := pair.length_value_lt
      have htableLt : pair.encode.length < (Writer.table ElementPair.encode value.pairs).length :=
        Writer.length_lt_table hpair
      omega
    | @array values hcount h =>
      rw [ElementValue.encode_array] at hlength ⊢
      rw [List.length_append, Writer.letter, Writer.length_u8] at hlength
      refine Reads.letter (Reads.table hcount fun value hvalue => ih (h value hvalue) ?_).map
      have htableLt : value.encode.length < (Writer.table ElementValue.encode values).length :=
        Writer.length_lt_table hvalue
      omega

theorem ElementValue.reads {value : ElementValue} (h : value.Fits) :
    Reads ElementValue.reader value.encode value := by
  intro rest ending
  have hlength : value.encode.length ≤ (value.encode ++ rest).length := by simp
  exact ElementValue.reads_within _ h hlength rest ending

theorem ElementPair.reads {pair : ElementPair} (h : pair.value.Fits) :
    Reads ElementPair.reader pair.encode pair :=
  ElementPair.readsOf (ElementValue.reads h)

theorem Annot.reads {annot : Annot} (h : annot.Fits) : Reads Annot.reader annot.encode annot := by
  obtain ⟨hcount, hpairs⟩ := h
  exact Annot.readsOf hcount fun pair hpair => ElementValue.reads (hpairs pair hpair)

/-! ## Annotations of parameters -/

namespace Annot

def encodeParameters (parameters : List (List Annot)) : List UInt8 :=
  Writer.shortTable (Writer.table Annot.encode) parameters

/-- The parameters fit their one-byte number, and so does everything inside them. -/
structure ParametersFit (parameters : List (List Annot)) : Prop where
  count : parameters.length < UInt8.size
  annotCount : ∀ annots ∈ parameters, annots.length < UInt16.size
  annots : ∀ annots ∈ parameters, ∀ annot ∈ annots, annot.Fits

theorem reads_parameters {parameters : List (List Annot)} (h : ParametersFit parameters) :
    Reads parametersReader (encodeParameters parameters) parameters :=
  Reads.shortTable h.count fun annots hannots =>
    Reads.table (h.annotCount annots hannots) fun annot hannot =>
      Annot.reads (h.annots annots hannots annot hannot)

end Annot

/-! ## Annotations of type uses -/

def LocalVarTarget.encode (target : LocalVarTarget) : List UInt8 :=
  Writer.u16 target.startPc ++ (Writer.u16 target.length ++ Writer.u16 target.index)

def TypePathStep.encode (step : TypePathStep) : List UInt8 :=
  Writer.u8 step.kind ++ Writer.u8 step.argument

def TargetInfo.encode : TargetInfo → List UInt8
  | typeParameter index => Writer.u8 index
  | supertype index => Writer.u16 index
  | typeParameterBound index bound => Writer.u8 index ++ Writer.u8 bound
  | empty => []
  | formalParameter index => Writer.u8 index
  | throwsType index => Writer.u16 index
  | localVar ranges => Writer.table LocalVarTarget.encode ranges
  | catchType index => Writer.u16 index
  | offset pc => Writer.u16 pc
  | typeArgument pc index => Writer.u16 pc ++ Writer.u8 index

def TypeAnnot.encode (annot : TypeAnnot) : List UInt8 :=
  Writer.u8 annot.target.tag ++ (annot.info.encode
    ++ (Writer.shortTable TypePathStep.encode annot.path ++ (Writer.u16 annot.typeIndex
      ++ Writer.table ElementPair.encode annot.pairs)))

/-- The place that a kind of type use prescribes, with ranges that fit their two-byte number. -/
inductive TargetInfo.Fits : TargetType → TargetInfo → Prop
  | classTypeParameter (index : UInt8) : Fits .classTypeParameter (.typeParameter index)
  | methodTypeParameter (index : UInt8) : Fits .methodTypeParameter (.typeParameter index)
  | classExtends (index : UInt16) : Fits .classExtends (.supertype index)
  | classTypeParameterBound (index bound : UInt8) :
      Fits .classTypeParameterBound (.typeParameterBound index bound)
  | methodTypeParameterBound (index bound : UInt8) :
      Fits .methodTypeParameterBound (.typeParameterBound index bound)
  | field : Fits .field .empty
  | methodReturn : Fits .methodReturn .empty
  | methodReceiver : Fits .methodReceiver .empty
  | methodFormalParameter (index : UInt8) : Fits .methodFormalParameter (.formalParameter index)
  | throwsClause (index : UInt16) : Fits .throwsClause (.throwsType index)
  | localVariable {ranges : List LocalVarTarget} (h : ranges.length < UInt16.size) :
      Fits .localVariable (.localVar ranges)
  | resourceVariable {ranges : List LocalVarTarget} (h : ranges.length < UInt16.size) :
      Fits .resourceVariable (.localVar ranges)
  | exceptionParameter (index : UInt16) : Fits .exceptionParameter (.catchType index)
  | instanceOf (pc : UInt16) : Fits .instanceOf (.offset pc)
  | new (pc : UInt16) : Fits .new (.offset pc)
  | constructorReference (pc : UInt16) : Fits .constructorReference (.offset pc)
  | methodReference (pc : UInt16) : Fits .methodReference (.offset pc)
  | cast (pc : UInt16) (index : UInt8) : Fits .cast (.typeArgument pc index)
  | constructorInvocationTypeArgument (pc : UInt16) (index : UInt8) :
      Fits .constructorInvocationTypeArgument (.typeArgument pc index)
  | methodInvocationTypeArgument (pc : UInt16) (index : UInt8) :
      Fits .methodInvocationTypeArgument (.typeArgument pc index)
  | constructorReferenceTypeArgument (pc : UInt16) (index : UInt8) :
      Fits .constructorReferenceTypeArgument (.typeArgument pc index)
  | methodReferenceTypeArgument (pc : UInt16) (index : UInt8) :
      Fits .methodReferenceTypeArgument (.typeArgument pc index)

/-- The place is the one that the kind of type use prescribes, and every list fits its number. -/
structure TypeAnnot.Fits (annot : TypeAnnot) : Prop where
  info : annot.info.Fits annot.target
  pathCount : annot.path.length < UInt8.size
  pairCount : annot.pairs.length < UInt16.size
  pairs : ∀ pair ∈ annot.pairs, pair.value.Fits

theorem LocalVarTarget.reads (target : LocalVarTarget) :
    Reads LocalVarTarget.reader target.encode target :=
  (Reads.u16 target.startPc).bind ((Reads.u16 target.length).bind (Reads.u16 target.index).map)

theorem TypePathStep.reads (step : TypePathStep) : Reads TypePathStep.reader step.encode step :=
  (Reads.u8 step.kind).bind (Reads.u8 step.argument).map

theorem TargetType.reads (target : TargetType) :
    Reads TargetType.reader (Writer.u8 target.tag) target := by
  refine (Reads.u8 target.tag).bind_nil ?_
  rw [ofTag?_tag]
  exact Reads.pure target

theorem TargetInfo.reads_ranges {ranges : List LocalVarTarget} (h : ranges.length < UInt16.size) :
    Reads (Reader.table LocalVarTarget.reader) (Writer.table LocalVarTarget.encode ranges)
      ranges :=
  Reads.table h fun target _ => target.reads

theorem TargetInfo.reads {target : TargetType} {info : TargetInfo} (h : info.Fits target) :
    Reads (TargetInfo.reader target) info.encode info := by
  cases h with
  | classTypeParameter index | methodTypeParameter index | methodFormalParameter index =>
    exact (Reads.u8 index).map
  | classExtends index | throwsClause index | exceptionParameter index =>
    exact (Reads.u16 index).map
  | classTypeParameterBound index bound | methodTypeParameterBound index bound =>
    exact (Reads.u8 index).bind (Reads.u8 bound).map
  | field | methodReturn | methodReceiver => exact Reads.pure _
  | localVariable h | resourceVariable h => exact (reads_ranges h).map
  | instanceOf pc | new pc | constructorReference pc | methodReference pc =>
    exact (Reads.u16 pc).map
  | cast pc index | constructorInvocationTypeArgument pc index
  | methodInvocationTypeArgument pc index | constructorReferenceTypeArgument pc index
  | methodReferenceTypeArgument pc index =>
    exact (Reads.u16 pc).bind (Reads.u8 index).map

theorem TypeAnnot.reads {annot : TypeAnnot} (h : annot.Fits) :
    Reads TypeAnnot.reader annot.encode annot := by
  have hpath : Reads (Reader.shortTable TypePathStep.reader)
      (Writer.shortTable TypePathStep.encode annot.path) annot.path :=
    Reads.shortTable h.pathCount fun step _ => step.reads
  have hpairs : Reads (Reader.table ElementPair.reader)
      (Writer.table ElementPair.encode annot.pairs) annot.pairs :=
    Reads.table h.pairCount fun pair hpair => ElementPair.reads (h.pairs pair hpair)
  exact (TargetType.reads annot.target).bind ((TargetInfo.reads h.info).bind
    (hpath.bind ((Reads.u16 annot.typeIndex).bind hpairs.map)))

end ClassFormat
