/-
# ClassFormat.Proofs.Bytecode.Assembly: instructions before they are bytes

A `Statement` is an instruction with its operands as numbers, one constructor for each form that
operands can have.  `Statement.encode` lays it out, which depends on where it starts only for the
padding of a switch, and `Statement.assemble` lays out a whole program.

Assembled programs decode instruction by instruction.  The step is that the bytes of a statement
declare their own length; the listing of a program follows by induction on its statements.
-/
import ClassFormat.Code
import ClassFormat.Proofs.Layout.Reads
import Mathlib.Algebra.Group.Nat.Defs

namespace ClassFormat

/-! ## Words -/

namespace Writer

def i16 (value : Int16) : List UInt8 := u16 value.toUInt16

@[simp]
theorem length_i16 (value : Int16) : (i16 value).length = 2 := length_u16 _

@[simp]
theorem length_i32 (value : Int32) : (i32 value).length = 4 := length_u32 _

end Writer

theorem bigEndian_u16 (value : UInt16) : bigEndian (Writer.u16 value) = value.toNat := by
  rw [Writer.u16, bigEndian_bigEndianBytes]
  exact Nat.mod_eq_of_lt value.toNat_lt

theorem bigEndian_u32 (value : UInt32) : bigEndian (Writer.u32 value) = value.toNat := by
  rw [Writer.u32, bigEndian_bigEndianBytes]
  exact Nat.mod_eq_of_lt value.toNat_lt

theorem bigEndianSigned_i8 (value : Int8) : bigEndianSigned [value.toUInt8] = value.toInt := by
  have hbyte : bigEndian [value.toUInt8] = value.toBitVec.toNat := by
    simp [bigEndian]
    rfl
  rw [bigEndianSigned, hbyte]
  exact (BitVec.toInt_eq_toNat_bmod value.toBitVec).symm

theorem bigEndianSigned_i16 (value : Int16) :
    bigEndianSigned (Writer.i16 value) = value.toInt := by
  rw [bigEndianSigned, Writer.length_i16, Writer.i16, bigEndian_u16]
  exact (BitVec.toInt_eq_toNat_bmod value.toBitVec).symm

theorem bigEndianSigned_i32 (value : Int32) :
    bigEndianSigned (Writer.i32 value) = value.toInt := by
  rw [bigEndianSigned, Writer.length_i32, Writer.i32, bigEndian_u32]
  exact (BitVec.toInt_eq_toNat_bmod value.toBitVec).symm

/-! ## Statements -/

/-- The types under which local variables are loaded and stored. -/
inductive SlotType where
  | int
  | long
  | float
  | double
  | reference
  deriving DecidableEq

def SlotType.all : List SlotType := [int, long, float, double, reference]

/-- Instructions of one group are numbered by type. -/
def SlotType.number : SlotType → UInt8
  | int => 0
  | long => 1
  | float => 2
  | double => 3
  | reference => 4

/-- What is done with a local variable. -/
inductive SlotUse where
  | load (type : SlotType)
  | store (type : SlotType)
  | ret
  deriving DecidableEq

namespace SlotUse

def all : List SlotUse := SlotType.all.map load ++ SlotType.all.map store ++ [ret]

def opcode : SlotUse → UInt8
  | load type => 0x15 + type.number
  | store type => 0x36 + type.number
  | ret => 0xa9

/-- All of them can be widened, and none is the increment, which is widened in a way of its own. -/
theorem widened (use : SlotUse) :
    use.opcode ≠ Opcode.iinc ∧ Opcode.isWidenable use.opcode = true := by
  cases use with
  | load type => cases type <;> decide
  | store type => cases type <;> decide
  | ret => decide

def loads : SlotUse → Bool
  | load _ | ret => true
  | store _ => false

def stores : SlotUse → Bool
  | store _ => true
  | load _ | ret => false

end SlotUse

/-- Constants with an instruction of their own. -/
inductive SmallConstant where
  /-- From -1 to 5. -/
  | int (number : Fin 7)
  | long (number : Fin 2)
  | float (number : Fin 3)
  | double (number : Fin 2)
  deriving DecidableEq

namespace SmallConstant

def all : List SmallConstant :=
  (List.finRange 7).map int ++ (List.finRange 2).map long ++ (List.finRange 3).map float
    ++ (List.finRange 2).map double

def opcode : SmallConstant → UInt8
  | int number => 0x02 + UInt8.ofNat number
  | long number => 0x09 + UInt8.ofNat number
  | float number => 0x0b + UInt8.ofNat number
  | double number => 0x0e + UInt8.ofNat number

def value : SmallConstant → Int
  | int number => (number.val : Int) - 1
  | long number => number.val
  | float number => number.val
  | double number => number.val

end SmallConstant

namespace Opcode

/-- Without operands: array elements, the operand stack, arithmetic, conversions, comparisons,
returns, monitors, and the reserved opcodes. -/
def isPlain (opcode : UInt8) : Bool :=
  within 0x00 0x01 opcode || within 0x2e 0x35 opcode || within 0x4f 0x83 opcode
    || within 0x85 0x98 opcode || within 0xac 0xb1 opcode || within 0xbe 0xbf opcode
    || within 0xc2 0xc3 opcode || opcode == 0xca || opcode == 0xfe || opcode == 0xff

/-- With a pool index and nothing else: long forms of `ldc`, fields, most calls, and types. -/
def isPoolUse (opcode : UInt8) : Bool :=
  within 0x13 0x14 opcode || within 0xb2 0xb8 opcode || opcode == 0xbb || opcode == 0xbd
    || within 0xc0 0xc1 opcode

/-- `invokeinterface` and `invokedynamic`, which have two more bytes behind their pool index. -/
def isLongCall (opcode : UInt8) : Bool := opcode == 0xb9 || opcode == 0xba

/-- `ifeq` to `jsr`, `ifnull` and `ifnonnull`. -/
def isNearJump (opcode : UInt8) : Bool :=
  within 0x99 0xa8 opcode || opcode == 0xc6 || opcode == 0xc7

/-- `goto_w` and `jsr_w`. -/
def isFarJump (opcode : UInt8) : Bool := opcode == 0xc8 || opcode == 0xc9

end Opcode

/-- An instruction, its operands as numbers.  What stands in the padding of a switch is part of it:
`filler` gives the bytes, as many as are needed. -/
inductive Statement where
  | plain (opcode : UInt8) (h : Opcode.isPlain opcode)
  | constant (small : SmallConstant)
  | bipush (value : Int8)
  | sipush (value : Int16)
  | ldc (index : UInt8)
  | pool (opcode : UInt8) (h : Opcode.isPoolUse opcode) (index : PoolIndex)
  | longCall (opcode : UInt8) (h : Opcode.isLongCall opcode) (index : PoolIndex)
      (third fourth : UInt8)
  | multianewarray (index : PoolIndex) (dimensions : UInt8)
  | newarray (elementType : UInt8)
  | ofSlot (use : SlotUse) (slot : UInt8)
  | shortLoad (type : SlotType) (slot : Fin 4)
  | shortStore (type : SlotType) (slot : Fin 4)
  | ofWideSlot (use : SlotUse) (slot : UInt16)
  | iinc (slot : UInt8) (increment : Int8)
  | wideIinc (slot : UInt16) (increment : Int16)
  | jump (opcode : UInt8) (h : Opcode.isNearJump opcode) (offset : Int16)
  | farJump (opcode : UInt8) (h : Opcode.isFarJump opcode) (offset : Int32)
  | tableswitch (filler : Nat → UInt8) (default low high : Int32) (targets : List Int32)
      (hbounds : low.toInt ≤ high.toInt)
      (htargets : (targets.length : Int) = high.toInt - low.toInt + 1)
  | lookupswitch (filler : Nat → UInt8) (default : Int32) (pairs : List (Int32 × Int32))
      (hpairs : pairs.length < 2 ^ 31)

namespace Statement

/-- The bytes between the opcode at `start` and the next multiple of four. -/
def padding (start : Nat) (filler : Nat → UInt8) : List UInt8 :=
  (List.range ((4 - (start + 1) % 4) % 4)).map filler

/-- A switch is its opcode, its padding, and then words. -/
def encodeSwitch (opcode : UInt8) (start : Nat) (filler : Nat → UInt8) (words : List Int32) :
    List UInt8 :=
  opcode :: (padding start filler ++ words.flatMap Writer.i32)

/-- The bytes of a statement that starts at the given offset. -/
def encode (start : Nat) : Statement → List UInt8
  | plain opcode _ => [opcode]
  | constant small => [small.opcode]
  | bipush value => [0x10, value.toUInt8]
  | sipush value => 0x11 :: Writer.i16 value
  | ldc index => [0x12, index]
  | pool opcode _ index => opcode :: Writer.u16 index
  | longCall opcode _ index third fourth => opcode :: (Writer.u16 index ++ [third, fourth])
  | multianewarray index dimensions => 0xc5 :: (Writer.u16 index ++ [dimensions])
  | newarray elementType => [0xbc, elementType]
  | ofSlot use slot => [use.opcode, slot]
  | shortLoad type slot => [0x1a + 4 * type.number + UInt8.ofNat slot]
  | shortStore type slot => [0x3b + 4 * type.number + UInt8.ofNat slot]
  | ofWideSlot use slot => 0xc4 :: use.opcode :: Writer.u16 slot
  | iinc slot increment => [0x84, slot, increment.toUInt8]
  | wideIinc slot increment => 0xc4 :: 0x84 :: (Writer.u16 slot ++ Writer.i16 increment)
  | jump opcode _ offset => opcode :: Writer.i16 offset
  | farJump opcode _ offset => opcode :: Writer.i32 offset
  | tableswitch filler default low high targets _ _ =>
    encodeSwitch 0xaa start filler (default :: low :: high :: targets)
  | lookupswitch filler default pairs _ =>
    encodeSwitch 0xab start filler
      (default :: Int32.ofNat pairs.length :: pairs.flatMap fun (key, target) => [key, target])

/-- The bytes of a program whose first statement starts at the given offset. -/
def assembleFrom : (start : Nat) → List Statement → List UInt8
  | _, [] => []
  | start, statement :: statements =>
    statement.encode start ++ assembleFrom (start + (statement.encode start).length) statements

/-- The bytes of a program. -/
def assemble (statements : List Statement) : List UInt8 := assembleFrom 0 statements

/-- The statements of a program as instructions at their offsets. -/
def placeFrom : (start : Nat) → List Statement → List Instruction
  | _, [] => []
  | start, statement :: statements =>
    ⟨start, statement.encode start⟩
      :: placeFrom (start + (statement.encode start).length) statements

end Statement

/-! ## What an opcode decides -/

namespace Opcode

/-- What the opcode alone decides about an instruction of fixed length: how many operand bytes it
has and where the operands are. -/
structure Profile where
  length : Option Nat
  loads : Bool := false
  stores : Bool := false
  refersToPool : Bool := false
  index : Option Operand := none
  value : Option Operand := none
  offset : Option Operand := none
  deriving DecidableEq

/-- The profile is read off an instruction that has nothing but its opcode. -/
def profile (opcode : UInt8) : Profile :=
  let alone : Instruction := ⟨0, [opcode]⟩
  { length := operandLength? opcode, loads := alone.isLoad, stores := alone.isStore,
    refersToPool := alone.refersToPool, index := alone.indexOperand?, value := alone.valueOperand?,
    offset := alone.offsetOperand? }

theorem profile_plain : ∀ opcode, isPlain opcode → profile opcode = { length := some 0 } :=
  forall_byte (by decide +kernel)

theorem profile_poolUse : ∀ opcode, isPoolUse opcode →
    profile opcode
      = { length := some 2, refersToPool := true, index := some (.unsigned 1 2) } :=
  forall_byte (by decide +kernel)

theorem profile_longCall : ∀ opcode, isLongCall opcode →
    profile opcode
      = { length := some 4, refersToPool := true, index := some (.unsigned 1 2) } :=
  forall_byte (by decide +kernel)

theorem profile_nearJump : ∀ opcode, isNearJump opcode →
    profile opcode = { length := some 2, offset := some (.signed 1 2) } :=
  forall_byte (by decide +kernel)

theorem profile_farJump : ∀ opcode, isFarJump opcode →
    profile opcode = { length := some 4, offset := some (.signed 1 4) } :=
  forall_byte (by decide +kernel)

theorem profile_small (small : SmallConstant) :
    profile small.opcode = { length := some 0, value := some (.implied small.value) } := by
  cases small with
  | int number => decide +revert
  | long number => decide +revert
  | float number => decide +revert
  | double number => decide +revert

theorem profile_slotUse (use : SlotUse) :
    profile use.opcode
      = { length := some 1, loads := use.loads, stores := use.stores,
          index := some (.unsigned 1 1) } := by
  cases use with
  | load type => cases type <;> decide
  | store type => cases type <;> decide
  | ret => decide

theorem profile_shortLoad (type : SlotType) (slot : Fin 4) :
    profile (0x1a + 4 * type.number + UInt8.ofNat slot)
      = { length := some 0, loads := true, index := some (.implied slot.val) } := by
  cases type <;> decide +revert

theorem profile_shortStore (type : SlotType) (slot : Fin 4) :
    profile (0x3b + 4 * type.number + UInt8.ofNat slot)
      = { length := some 0, stores := true, index := some (.implied slot.val) } := by
  cases type <;> decide +revert

/-- The instructions whose length varies have no profile of their own. -/
theorem fixed_of_profile {opcode : UInt8} (h : (profile opcode).length.isSome) :
    opcode ≠ tableswitch ∧ opcode ≠ lookupswitch ∧ opcode ≠ wide := by
  refine ⟨?_, ?_, ?_⟩
  · rintro rfl
    exact absurd h (by decide)
  · rintro rfl
    exact absurd h (by decide)
  · rintro rfl
    exact absurd h (by decide)

end Opcode

/-! ## Lengths -/

namespace Instruction

/-- Bytes that declare their own length are the next instruction, whatever follows them. -/
theorem next_of_declaredLength {start : Nat} {own rest : List UInt8}
    (h : declaredLength start (own ++ rest) = .ok own.length) :
    next start (own ++ rest) = .ok (⟨start, own⟩, rest) := by
  have hsplit : splitExact own.length (own ++ rest) = some (own, rest) :=
    splitExact_eq_some_iff.mpr ⟨rfl, rfl⟩
  simp only [next, h, bind, Except.bind, hsplit]
  rfl

theorem declaredLength_of_profile {opcode : UInt8} {profile : Opcode.Profile} {length : Nat}
    (h : Opcode.profile opcode = profile) (hlength : profile.length = some length) (start : Nat)
    (operands : List UInt8) : declaredLength start (opcode :: operands) = .ok (1 + length) := by
  subst h
  obtain ⟨htable, hlookup, hwide⟩ := Opcode.fixed_of_profile (by rw [hlength]; rfl)
  have hoperands : Opcode.operandLength? opcode = some length := hlength
  simp [declaredLength, hoperands, htable, hlookup, hwide]

theorem declaredLength_wide (use : SlotUse) (start : Nat) (operands : List UInt8) :
    declaredLength start (0xc4 :: use.opcode :: operands) = .ok 4 := by
  obtain ⟨hiinc, hwidenable⟩ := use.widened
  show wideLength start (use.opcode :: operands) = .ok 4
  simp [wideLength, hiinc, hwidenable]

end Instruction

namespace Statement

theorem length_padding (start : Nat) (filler : Nat → UInt8) :
    (padding start filler).length = Instruction.switchPadding start := by
  simp only [padding, List.length_map, List.length_range, Instruction.switchPadding]
  omega

theorem length_words (words : List Int32) :
    (words.flatMap Writer.i32).length = 4 * words.length := by
  induction words with
  | nil => rfl
  | cons word words ih =>
    rw [List.flatMap_cons, List.length_append, Writer.length_i32, ih, List.length_cons]
    omega

theorem length_encodeSwitch (opcode : UInt8) (start : Nat) (filler : Nat → UInt8)
    (words : List Int32) :
    (encodeSwitch opcode start filler words).length
      = 1 + Instruction.switchPadding start + 4 * words.length := by
  rw [encodeSwitch, List.length_cons, List.length_append, length_padding, length_words]
  omega

/-- Each word of a switch stands behind its opcode, its padding and the words before. -/
theorem encodeSwitch_at (opcode : UInt8) (start : Nat) (filler : Nat → UInt8) {words : List Int32}
    {k : Nat} {word : Int32} (h : words[k]? = some word) :
    ∃ front behind, encodeSwitch opcode start filler words = front ++ (Writer.i32 word ++ behind)
      ∧ front.length = 1 + Instruction.switchPadding start + 4 * k := by
  obtain ⟨hk, hword⟩ := List.getElem?_eq_some_iff.mp h
  have hsplit : words = words.take k ++ word :: words.drop (k + 1) := by
    rw [← hword, ← List.drop_eq_getElem_cons hk, List.take_append_drop]
  refine ⟨encodeSwitch opcode start filler (words.take k), (words.drop (k + 1)).flatMap Writer.i32,
    ?_, ?_⟩
  · have hbytes : words.flatMap Writer.i32 = (words.take k).flatMap Writer.i32
        ++ (Writer.i32 word ++ (words.drop (k + 1)).flatMap Writer.i32) := by
      rw [← List.flatMap_cons, ← List.flatMap_append, ← hsplit]
    simp only [encodeSwitch, hbytes, List.cons_append, List.append_assoc]
  · rw [length_encodeSwitch, List.length_take, Nat.min_eq_left (Nat.le_of_lt hk)]

theorem wordAt_encodeSwitch (opcode : UInt8) (start : Nat) (filler : Nat → UInt8)
    {words : List Int32} {k : Nat} {word : Int32} (h : words[k]? = some word) (rest : List UInt8) :
    Instruction.wordAt start (encodeSwitch opcode start filler words ++ rest)
      (1 + Instruction.switchPadding start + 4 * k) = .ok word.toInt := by
  obtain ⟨front, behind, hbytes, hfront⟩ := encodeSwitch_at opcode start filler h
  have hsplit : splitExact 4 (Writer.i32 word ++ (behind ++ rest))
      = some (Writer.i32 word, behind ++ rest) :=
    splitExact_eq_some_iff.mpr ⟨rfl, Writer.length_i32 word⟩
  rw [hbytes, ← hfront, List.append_assoc, List.append_assoc]
  simp only [Instruction.wordAt, List.drop_left, hsplit, bigEndianSigned_i32]

theorem declaredLength_tableswitch (start : Nat) (filler : Nat → UInt8) {default low high : Int32}
    (targets : List Int32) (hbounds : low.toInt ≤ high.toInt) (rest : List UInt8) :
    Instruction.declaredLength start
        (encodeSwitch 0xaa start filler (default :: low :: high :: targets) ++ rest)
      = .ok (1 + Instruction.switchPadding start + 12
          + 4 * (high.toInt - low.toInt + 1).toNat) := by
  have hwords : ∀ {k : Nat} {word : Int32},
      (default :: low :: high :: targets)[k]? = some word →
      Instruction.wordAt start
        (encodeSwitch 0xaa start filler (default :: low :: high :: targets) ++ rest)
        (1 + Instruction.switchPadding start + 4 * k) = .ok word.toInt :=
    fun h => wordAt_encodeSwitch 0xaa start filler h rest
  have hlow := hwords (show _[1]? = some low from rfl)
  have hhigh := hwords (show _[2]? = some high from rfl)
  have hle : ¬ high.toInt < low.toInt := by omega
  show Instruction.tableswitchLength start _ = _
  simp only [Nat.reduceMul] at hlow hhigh
  simp only [Instruction.tableswitchLength, hlow, hhigh, bind, Except.bind, if_neg hle]
  rfl

theorem declaredLength_lookupswitch (start : Nat) (filler : Nat → UInt8) {default : Int32}
    {pairs : Nat} (words : List Int32) (hpairs : pairs < 2 ^ 31) (rest : List UInt8) :
    Instruction.declaredLength start
        (encodeSwitch 0xab start filler (default :: Int32.ofNat pairs :: words) ++ rest)
      = .ok (1 + Instruction.switchPadding start + 8 + 8 * pairs) := by
  have hcount := wordAt_encodeSwitch 0xab start filler
    (show (default :: Int32.ofNat pairs :: words)[1]? = some (Int32.ofNat pairs) from rfl) rest
  have hnonnegative : ¬ (pairs : Int) < 0 := by omega
  show Instruction.lookupswitchLength start _ = _
  simp only [Nat.reduceMul, Int32.toInt_ofNat_of_lt hpairs] at hcount
  simp only [Instruction.lookupswitchLength, hcount, bind, Except.bind, if_neg hnonnegative]
  rfl

/-- A row of pairs has two words for each. -/
theorem length_pairs (pairs : List (Int32 × Int32)) :
    (pairs.flatMap fun (key, target) => [key, target]).length = 2 * pairs.length := by
  induction pairs with
  | nil => rfl
  | cons pair pairs ih =>
    rw [List.flatMap_cons, List.length_append, ih, List.length_cons]
    simp only [List.length_cons, List.length_nil]
    omega

/-- A statement declares the length that it has, whatever follows it. -/
theorem declaredLength_encode (statement : Statement) (start : Nat) (rest : List UInt8) :
    Instruction.declaredLength start (statement.encode start ++ rest)
      = .ok (statement.encode start).length := by
  -- Outside of `wide` and the switches the length is the one in the profile of the opcode.
  have hfixed : ∀ {opcode : UInt8} {profile : Opcode.Profile} {operands : List UInt8},
      Opcode.profile opcode = profile → profile.length = some operands.length →
      Instruction.declaredLength start (opcode :: (operands ++ rest))
        = .ok (opcode :: operands).length := by
    intro opcode profile operands hprofile hlength
    rw [Instruction.declaredLength_of_profile hprofile hlength, List.length_cons, Nat.add_comm]
  cases statement with
  | plain opcode h => exact hfixed (Opcode.profile_plain opcode h) rfl
  | constant small => exact hfixed (Opcode.profile_small small) rfl
  | bipush | sipush | ldc | multianewarray | newarray | iinc => exact hfixed rfl rfl
  | pool opcode h index => exact hfixed (Opcode.profile_poolUse opcode h) rfl
  | longCall opcode h index third fourth => exact hfixed (Opcode.profile_longCall opcode h) rfl
  | ofSlot use slot => exact hfixed (Opcode.profile_slotUse use) rfl
  | shortLoad type slot => exact hfixed (Opcode.profile_shortLoad type slot) rfl
  | shortStore type slot => exact hfixed (Opcode.profile_shortStore type slot) rfl
  | jump opcode h offset => exact hfixed (Opcode.profile_nearJump opcode h) rfl
  | farJump opcode h offset => exact hfixed (Opcode.profile_farJump opcode h) rfl
  | ofWideSlot use slot => exact Instruction.declaredLength_wide use start _
  | wideIinc slot increment => rfl
  | tableswitch filler default low high targets hbounds htargets =>
    have hcount : (high.toInt - low.toInt + 1).toNat = targets.length := by omega
    rw [encode, declaredLength_tableswitch start filler targets hbounds, length_encodeSwitch,
      hcount]
    simp only [List.length_cons, Except.ok.injEq]
    omega
  | lookupswitch filler default pairs hpairs =>
    rw [encode, declaredLength_lookupswitch start filler _ hpairs, length_encodeSwitch]
    simp only [List.length_cons, length_pairs, Except.ok.injEq]
    omega

theorem next_encode (statement : Statement) (start : Nat) (rest : List UInt8) :
    Instruction.next start (statement.encode start ++ rest)
      = .ok (⟨start, statement.encode start⟩, rest) :=
  Instruction.next_of_declaredLength (declaredLength_encode statement start rest)

/-! ## Programs -/

/-- A listing is its next instruction and the listing of what is behind it. -/
theorem decodeFrom_of_next {fuel start : Nat} {bytes rest : List UInt8} {instruction : Instruction}
    (hbytes : bytes ≠ []) (h : Instruction.next start bytes = .ok (instruction, rest)) :
    Listing.decodeFrom (fuel + 1) start bytes
      = ⟨instruction :: (Listing.decodeFrom fuel (start + instruction.length) rest).instructions,
          (Listing.decodeFrom fuel (start + instruction.length) rest).fault⟩ := by
  obtain ⟨first, others, rfl⟩ := List.exists_cons_of_ne_nil hbytes
  simp only [Listing.decodeFrom, h]

theorem encode_length_pos (statement : Statement) (start : Nat) :
    0 < (statement.encode start).length := by
  cases statement <;> simp [encode, encodeSwitch]

/-- An assembled program decodes to its statements, each where it was placed. -/
theorem decodeFrom_assembleFrom (statements : List Statement) {fuel start : Nat}
    (hfuel : (assembleFrom start statements).length ≤ fuel) :
    Listing.decodeFrom fuel start (assembleFrom start statements)
      = ⟨placeFrom start statements, none⟩ := by
  induction statements generalizing fuel start with
  | nil => cases fuel <;> rfl
  | cons statement statements ih =>
    -- A statement has at least its opcode, so the fuel lasts.
    have hpos := encode_length_pos statement start
    rw [assembleFrom, List.length_append] at hfuel
    obtain ⟨fuel, rfl⟩ : ∃ less, fuel = less + 1 := ⟨fuel - 1, by omega⟩
    have hbytes : statement.encode start
        ++ assembleFrom (start + (statement.encode start).length) statements ≠ [] := by
      intro hempty
      rw [(List.append_eq_nil_iff.mp hempty).1] at hpos
      exact absurd hpos (Nat.lt_irrefl 0)
    have hothers : Listing.decodeFrom fuel
        (start + (⟨start, statement.encode start⟩ : Instruction).length)
        (assembleFrom (start + (statement.encode start).length) statements)
          = ⟨placeFrom (start + (statement.encode start).length) statements, none⟩ :=
      ih (show (assembleFrom (start + (statement.encode start).length) statements).length ≤ fuel by
        omega)
    rw [assembleFrom, decodeFrom_of_next hbytes (next_encode statement start _), hothers, placeFrom]

theorem decode_assemble (statements : List Statement) :
    Listing.decode (assemble statements) = ⟨placeFrom 0 statements, none⟩ :=
  decodeFrom_assembleFrom statements (Nat.le_refl _)

end Statement

end ClassFormat
