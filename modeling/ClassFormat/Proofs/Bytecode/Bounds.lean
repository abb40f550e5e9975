/-
# ClassFormat.Proofs.Bytecode.Bounds: what the questions to an instruction look at

An instruction of a code array is a place in it and a length, and everything that it says is looked
up in those bytes at positions that its opcode decides.  `Span` asks the same questions with every
access checked.  On the instructions of a listing no check fails and the answers are the same:
whoever gave the instruction its length left room for all that its opcode lets be asked.
-/
import ClassFormat.Proofs.Bytecode.AcceptedCode
import ClassFormat.Proofs.Bytecode.Assembly

namespace ClassFormat

/-! ## Checked accesses -/

/-- An access to `width` items at `position` where only `available` items are. -/
structure Overrun where
  position : Nat
  width : Nat
  available : Nat

/-- The `width` items at `position`. -/
def checkedSlice {α : Type} (items : List α) (position width : Nat) : Except Overrun (List α) :=
  if position + width ≤ items.length then .ok ((items.drop position).take width)
  else .error ⟨position, width, items.length⟩

/-- The item at `position`. -/
def checkedItem {α : Type} (items : List α) (position : Nat) : Except Overrun α :=
  match items[position]? with
  | some item => .ok item
  | none => .error ⟨position, 1, items.length⟩

theorem checkedSlice_of_le {α : Type} {items : List α} {position width : Nat}
    (h : position + width ≤ items.length) :
    checkedSlice items position width = .ok ((items.drop position).take width) :=
  if_pos h

theorem checkedItem_of_getElem? {α : Type} {items : List α} {position : Nat} {item : α}
    (h : items[position]? = some item) : checkedItem items position = .ok item := by
  rw [checkedItem, h]

/-- The mnemonic of an opcode, with the access to the table checked. -/
def Opcode.checkedMnemonic? (opcode : UInt8) : Except Overrun (Option String) :=
  if opcode ≤ 0xca then return some (← checkedItem mnemonics opcode.toNat)
  else if opcode = 0xfe then return some "impdep1"
  else if opcode = 0xff then return some "impdep2"
  else return none

/-- The place and the length of an instruction in a code array. -/
structure Span where
  code : List UInt8
  start : Nat
  length : Nat

namespace Span

open Instruction (switchPadding)

def bytes (span : Span) : Except Overrun (List UInt8) :=
  checkedSlice span.code span.start span.length

def byteAt (span : Span) (position : Nat) : Except Overrun UInt8 := do
  checkedItem (← span.bytes) position

def bytesAt (span : Span) (position width : Nat) : Except Overrun (List UInt8) := do
  checkedSlice (← span.bytes) position width

def opcode (span : Span) : Except Overrun UInt8 := span.byteAt 0

def isWide (span : Span) : Except Overrun Bool := do
  return (← span.opcode) == Opcode.wide

def effectiveOpcode (span : Span) : Except Overrun UInt8 := do
  if ← span.isWide then span.byteAt 1 else span.opcode

def opcodeName (opcode : UInt8) : Except Overrun String := do
  return (← Opcode.checkedMnemonic? opcode).getD "undefined"

def mnemonic (span : Span) : Except Overrun String := do
  opcodeName (← span.opcode)

def render (span : Span) : Except Overrun String := do
  if ← span.isWide then return "wide " ++ (← opcodeName (← span.effectiveOpcode))
  else span.mnemonic

/-- The part of the instruction that tells where its operands are. -/
def front (span : Span) : Except Overrun Instruction := do
  let opcode ← span.opcode
  if opcode = Opcode.wide then return ⟨span.start, [opcode, ← span.byteAt 1]⟩
  else return ⟨span.start, [opcode]⟩

def operand (span : Span) : Operand → Except Overrun Int
  | .implied value => return value
  | .unsigned position width => return bigEndian (← span.bytesAt position width)
  | .signed position width => return bigEndianSigned (← span.bytesAt position width)

/-- An operand that not every instruction has. -/
def operand? (span : Span) (place? : Instruction → Option Operand) :
    Except Overrun (Option Int) := do
  match place? (← span.front) with
  | some place => return some (← span.operand place)
  | none => return none

def index? (span : Span) : Except Overrun (Option UInt16) := do
  return (← span.operand? Instruction.indexOperand?).map fun index => UInt16.ofNat index.toNat

def offset? (span : Span) : Except Overrun (Option Int) :=
  span.operand? Instruction.offsetOperand?

def value? (span : Span) : Except Overrun (Option Int) :=
  span.operand? Instruction.valueOperand?

def switchWord (span : Span) (position : Nat) : Except Overrun Int :=
  span.operand (.signed position 4)

/-- The jump table of a switch, entry by entry. -/
def switchTable? (span : Span) : Except Overrun (Option SwitchTable) := do
  let opcode ← span.opcode
  let operands := 1 + switchPadding span.start
  if opcode = Opcode.tableswitch then
    let default ← span.switchWord operands
    let low ← span.switchWord (operands + 4)
    let high ← span.switchWord (operands + 8)
    let targets ← (List.range (high - low + 1).toNat).mapM fun (i : Nat) =>
      return (low + (i : Int), ← span.switchWord (operands + 12 + 4 * i))
    return some ⟨default, targets⟩
  else if opcode = Opcode.lookupswitch then
    let default ← span.switchWord operands
    let pairs ← span.switchWord (operands + 4)
    let targets ← (List.range pairs.toNat).mapM fun i =>
      return (← span.switchWord (operands + 8 + 8 * i), ← span.switchWord (operands + 12 + 8 * i))
    return some ⟨default, targets⟩
  else return none

/-- Every question to the instruction stays within its bytes and is answered as the instruction
answers it. -/
structure Answers (span : Span) (instruction : Instruction) : Prop where
  bytes : span.bytes = .ok instruction.bytes
  opcode : span.opcode = .ok instruction.opcode
  isWide : span.isWide = .ok instruction.isWide
  effectiveOpcode : span.effectiveOpcode = .ok instruction.effectiveOpcode
  mnemonic : span.mnemonic = .ok instruction.mnemonic
  render : span.render = .ok instruction.render
  index : span.index? = .ok instruction.index?
  offset : span.offset? = .ok instruction.offset?
  value : span.value? = .ok instruction.value?
  switchTable : span.switchTable? = .ok instruction.switchTable?

end Span

/-! ## What the length leaves room for -/

namespace Instruction

/-- Where the words of a switch begin. -/
def words (instruction : Instruction) : Nat := 1 + switchPadding instruction.start

/-- The least key of a `tableswitch`. -/
def lowKey (instruction : Instruction) : Int := instruction.switchWord (instruction.words + 4)

/-- The greatest key of a `tableswitch`. -/
def highKey (instruction : Instruction) : Int := instruction.switchWord (instruction.words + 8)

/-- The number of pairs of a `lookupswitch`. -/
def pairCount (instruction : Instruction) : Int := instruction.switchWord (instruction.words + 4)

/-- The forms of instructions, each with the length that it has. -/
inductive Form (instruction : Instruction) : Prop
  | tableswitch (hopcode : instruction.opcode = Opcode.tableswitch)
      (hkeys : instruction.lowKey ≤ instruction.highKey)
      (hlength : instruction.length
        = instruction.words + 12 + 4 * (instruction.highKey - instruction.lowKey + 1).toNat)
  | lookupswitch (hopcode : instruction.opcode = Opcode.lookupswitch)
      (hpairs : 0 ≤ instruction.pairCount)
      (hlength : instruction.length = instruction.words + 8 + 8 * instruction.pairCount.toNat)
  | wide (hopcode : instruction.opcode = Opcode.wide)
      (hlength : instruction.length = if instruction.effectiveOpcode = Opcode.iinc then 6 else 4)
  | fixed (operands : Nat) (hoperands : Opcode.operandLength? instruction.opcode = some operands)
      (hlength : instruction.length = 1 + operands)

theorem wordAt_eq_ok {start distance : Nat} {bytes : List UInt8} {word : Int}
    (h : wordAt start bytes distance = .ok word) :
    bigEndianSigned ((bytes.drop distance).take 4) = word := by
  unfold wordAt at h
  split at h
  · rename_i front rest hsplit
    obtain ⟨hbytes, hlength⟩ := splitExact_eq_some_iff.mp hsplit
    cases h
    rw [hbytes, ← hlength, List.take_left]
  · cases h

/-- A word that the length was computed from is the one that the instruction finds, as long as it
is inside the instruction. -/
theorem switchWord_eq {start distance : Nat} {own rest : List UInt8} {word : Int}
    (h : wordAt start (own ++ rest) distance = .ok word) (hinside : distance + 4 ≤ own.length) :
    switchWord ⟨start, own⟩ distance = word := by
  have hword := wordAt_eq_ok h
  rw [List.drop_append_of_le_length (by omega),
    List.take_append_of_le_length (by rw [List.length_drop]; omega)] at hword
  exact hword

theorem form_of_tableswitchLength {start : Nat} {own rest : List UInt8}
    (hopcode : opcode ⟨start, own⟩ = Opcode.tableswitch)
    (h : tableswitchLength start (own ++ rest) = .ok own.length) : Form ⟨start, own⟩ := by
  obtain ⟨low, hlow, h⟩ := bind_eq_ok_iff.mp h
  obtain ⟨high, hhigh, h⟩ := bind_eq_ok_iff.mp h
  split at h
  · cases h
  · rename_i hbounds
    have hlength : 1 + switchPadding start + 12 + 4 * (high - low + 1).toNat = own.length :=
      Except.ok.inj h
    have hlow := switchWord_eq hlow (by omega)
    have hhigh := switchWord_eq hhigh (by omega)
    refine .tableswitch hopcode ?_ ?_
    · simp only [lowKey, highKey, words, hlow, hhigh]
      omega
    · simp only [lowKey, highKey, words, hlow, hhigh]
      exact hlength.symm

theorem form_of_lookupswitchLength {start : Nat} {own rest : List UInt8}
    (hopcode : opcode ⟨start, own⟩ = Opcode.lookupswitch)
    (h : lookupswitchLength start (own ++ rest) = .ok own.length) : Form ⟨start, own⟩ := by
  obtain ⟨pairs, hpairs, h⟩ := bind_eq_ok_iff.mp h
  split at h
  · cases h
  · rename_i hcount
    have hlength : 1 + switchPadding start + 8 + 8 * pairs.toNat = own.length := Except.ok.inj h
    have hpairs := switchWord_eq hpairs (by omega)
    refine .lookupswitch hopcode ?_ ?_
    · simp only [pairCount, words, hpairs]
      omega
    · simp only [pairCount, words, hpairs]
      exact hlength.symm

theorem form_of_wideLength {start : Nat} {operands rest : List UInt8}
    (h : wideLength start (operands ++ rest) = .ok (operands.length + 1)) :
    Form ⟨start, Opcode.wide :: operands⟩ := by
  cases operands with
  | nil =>
    -- With no byte of its own behind the opcode, the instruction would be one byte long.
    unfold wideLength at h
    split at h
    · cases h
    · split at h
      · cases h
      · split at h <;> cases h
  | cons widened others =>
    refine .wide rfl ?_
    show others.length + 1 + 1 = if widened = Opcode.iinc then 6 else 4
    rw [List.cons_append, wideLength] at h
    split at h
    · rename_i hiinc
      rw [if_pos hiinc]
      exact (Except.ok.inj h).symm
    · rename_i hiinc
      rw [if_neg hiinc]
      split at h
      · exact (Except.ok.inj h).symm
      · cases h

theorem form_of_declaredLength {start : Nat} {own rest : List UInt8}
    (h : declaredLength start (own ++ rest) = .ok own.length) : Form ⟨start, own⟩ := by
  cases own with
  | nil => exact absurd (declaredLength_pos h) (Nat.lt_irrefl 0)
  | cons first operands =>
    simp only [List.cons_append, declaredLength] at h
    split at h
    · rename_i htable
      exact form_of_tableswitchLength htable h
    · split at h
      · rename_i hlookup
        exact form_of_lookupswitchLength hlookup h
      · split at h
        · rename_i hwide
          subst hwide
          exact form_of_wideLength h
        · split at h
          · rename_i length hoperands
            exact .fixed length hoperands (Except.ok.inj h).symm
          · cases h

/-- All operands are among the first `length` bytes. -/
structure OperandsWithin (instruction : Instruction) (length : Nat) : Prop where
  index : ∀ operand ∈ instruction.indexOperand?, operand.extent ≤ length
  offset : ∀ operand ∈ instruction.offsetOperand?, operand.extent ≤ length
  value : ∀ operand ∈ instruction.valueOperand?, operand.extent ≤ length

/-- The two tables agree: no opcode of fixed length has an operand behind its operand bytes. -/
theorem profile_extent_le : ∀ opcode, ∀ length ∈ (Opcode.profile opcode).length,
    (∀ operand ∈ (Opcode.profile opcode).index, operand.extent ≤ 1 + length)
      ∧ (∀ operand ∈ (Opcode.profile opcode).offset, operand.extent ≤ 1 + length)
      ∧ ∀ operand ∈ (Opcode.profile opcode).value, operand.extent ≤ 1 + length :=
  forall_byte (by decide +kernel)

/-- Where the operands are depends on the start and the opcodes alone. -/
theorem operands_congr {instruction other : Instruction} (hstart : instruction.start = other.start)
    (hopcode : instruction.opcode = other.opcode)
    (heffective : instruction.effectiveOpcode = other.effectiveOpcode) :
    instruction.indexOperand? = other.indexOperand?
      ∧ instruction.offsetOperand? = other.offsetOperand?
      ∧ instruction.valueOperand? = other.valueOperand? := by
  simp only [indexOperand?, offsetOperand?, valueOperand?, hstart, hopcode, heffective, and_self]

theorem valueOperand?_of_not_wide {instruction : Instruction}
    (h : instruction.opcode ≠ Opcode.wide) :
    instruction.valueOperand? = (Opcode.profile instruction.opcode).value := by
  have halone : opcode ⟨0, [instruction.opcode]⟩ = instruction.opcode := rfl
  simp [Opcode.profile, valueOperand?, halone, h]

theorem operandsWithin_of_fixed {instruction : Instruction} {operands : Nat}
    (h : Opcode.operandLength? instruction.opcode = some operands) :
    instruction.OperandsWithin (1 + operands) := by
  have hsome : (Opcode.profile instruction.opcode).length.isSome := by
    show (Opcode.operandLength? instruction.opcode).isSome
    rw [h]
    rfl
  obtain ⟨htable, hlookup, hwide⟩ := Opcode.fixed_of_profile hsome
  have hswitch : Opcode.isSwitch instruction.opcode = false := by
    simp [Opcode.isSwitch, htable, hlookup]
  have halone : opcode ⟨0, [instruction.opcode]⟩ = instruction.opcode := rfl
  have hoffset : instruction.offsetOperand? = (Opcode.profile instruction.opcode).offset := by
    simp [Opcode.profile, offsetOperand?, halone, hswitch]
  have hvalue := valueOperand?_of_not_wide hwide
  obtain ⟨hindexLe, hoffsetLe, hvalueLe⟩ := profile_extent_le instruction.opcode operands h
  exact ⟨hindexLe, hoffset ▸ hoffsetLe, hvalue ▸ hvalueLe⟩

theorem offsetOperand?_of_switch {instruction : Instruction}
    (h : instruction.opcode = Opcode.tableswitch ∨ instruction.opcode = Opcode.lookupswitch) :
    instruction.offsetOperand? = some (.signed instruction.words 4) := by
  rcases h with h | h <;> rw [offsetOperand?, h] <;> rfl

/-- A switch has no operand but its offset, the first of its words. -/
theorem operandsWithin_of_switch {instruction : Instruction} {length : Nat}
    (h : instruction.opcode = Opcode.tableswitch ∨ instruction.opcode = Opcode.lookupswitch)
    (hlength : instruction.words + 4 ≤ length) : instruction.OperandsWithin length := by
  have hindex : instruction.indexOperand? = none := by
    rcases h with h | h <;> rw [indexOperand?, h] <;> rfl
  have hoffset := offsetOperand?_of_switch h
  have hvalue : instruction.valueOperand? = none := by
    rcases h with h | h <;> rw [valueOperand?_of_not_wide (by rw [h]; decide), h] <;> rfl
  refine ⟨?_, ?_, ?_⟩
  · simp [hindex]
  · simpa [hoffset, Operand.extent] using hlength
  · simp [hvalue]

theorem operandsWithin_of_wide {instruction : Instruction}
    (h : instruction.opcode = Opcode.wide) :
    instruction.OperandsWithin (if instruction.effectiveOpcode = Opcode.iinc then 6 else 4) := by
  have hindex : instruction.indexOperand? = some (.unsigned 2 2) := by
    rw [indexOperand?, h]
    rfl
  have hoffset : instruction.offsetOperand? = none := by
    rw [offsetOperand?, h]
    rfl
  have hvalue : instruction.valueOperand?
      = if instruction.effectiveOpcode = Opcode.iinc then some (.signed 4 2) else none := by
    rw [valueOperand?, h]
    show (if Opcode.wide = Opcode.wide ∧ instruction.effectiveOpcode = Opcode.iinc then _ else _)
      = _
    simp only [true_and]
  refine ⟨?_, ?_, ?_⟩
  · simp only [hindex, Option.mem_some_iff, forall_eq', Operand.extent]
    split <;> omega
  · simp [hoffset]
  · rw [hvalue]
    split <;> simp [Operand.extent]

theorem Form.operandsWithin {instruction : Instruction} (h : instruction.Form) :
    instruction.OperandsWithin instruction.length := by
  cases h with
  | tableswitch hopcode hkeys hlength =>
    exact operandsWithin_of_switch (.inl hopcode) (by omega)
  | lookupswitch hopcode hpairs hlength =>
    exact operandsWithin_of_switch (.inr hopcode) (by omega)
  | wide hopcode hlength =>
    rw [hlength]
    exact operandsWithin_of_wide hopcode
  | fixed operands hoperands hlength =>
    rw [hlength]
    exact operandsWithin_of_fixed hoperands

theorem Form.length_pos {instruction : Instruction} (h : instruction.Form) :
    0 < instruction.length := by
  cases h with
  | tableswitch hopcode hkeys hlength => omega
  | lookupswitch hopcode hpairs hlength => omega
  | wide hopcode hlength =>
    rw [hlength]
    split <;> decide
  | fixed operands hoperands hlength => omega

/-- Only a `wide` instruction is asked for its second byte, and it has one. -/
theorem Form.length_of_wide {instruction : Instruction} (h : instruction.Form)
    (hwide : instruction.isWide) : 1 < instruction.length := by
  have hopcode : instruction.opcode = Opcode.wide := beq_iff_eq.mp hwide
  cases h with
  | tableswitch htable hkeys hlength => omega
  | lookupswitch hlookup hpairs hlength => omega
  | wide hopcode hlength =>
    rw [hlength]
    split <;> decide
  | fixed operands hoperands hlength =>
    rw [hopcode] at hoperands
    cases hoperands

theorem Form.keys {instruction : Instruction} (h : instruction.Form)
    (htable : instruction.opcode = Opcode.tableswitch) :
    instruction.lowKey ≤ instruction.highKey ∧ instruction.length
      = instruction.words + 12 + 4 * (instruction.highKey - instruction.lowKey + 1).toNat := by
  cases h with
  | tableswitch hopcode hkeys hlength => exact ⟨hkeys, hlength⟩
  | lookupswitch hopcode hpairs hlength =>
    rw [htable] at hopcode
    cases hopcode
  | wide hopcode hlength =>
    rw [htable] at hopcode
    cases hopcode
  | fixed operands hoperands hlength =>
    rw [htable] at hoperands
    cases hoperands

theorem Form.pairs {instruction : Instruction} (h : instruction.Form)
    (hlookup : instruction.opcode = Opcode.lookupswitch) : 0 ≤ instruction.pairCount
      ∧ instruction.length = instruction.words + 8 + 8 * instruction.pairCount.toNat := by
  cases h with
  | tableswitch hopcode hkeys hlength =>
    rw [hlookup] at hopcode
    cases hopcode
  | lookupswitch hopcode hpairs hlength => exact ⟨hpairs, hlength⟩
  | wide hopcode hlength =>
    rw [hlookup] at hopcode
    cases hopcode
  | fixed operands hoperands hlength =>
    rw [hlookup] at hoperands
    cases hoperands

end Instruction

/-! ## Questions to a decoded instruction -/

theorem Opcode.length_mnemonics : mnemonics.length = 0xca + 1 := by decide +kernel

theorem Opcode.checkedMnemonic?_eq (opcode : UInt8) :
    checkedMnemonic? opcode = .ok (mnemonic? opcode) := by
  unfold checkedMnemonic? mnemonic?
  split
  · rename_i hle
    have hlt : opcode.toNat < mnemonics.length := by
      rw [length_mnemonics]
      exact Nat.lt_succ_of_le (UInt8.le_iff_toNat_le.mp hle)
    have hfirst : opcode ≠ 0xfe := by
      rintro rfl
      exact absurd hle (by decide)
    have hsecond : opcode ≠ 0xff := by
      rintro rfl
      exact absurd hle (by decide)
    rw [if_neg hfirst, if_neg hsecond, List.getElem?_eq_getElem hlt,
      checkedItem_of_getElem? (List.getElem?_eq_getElem hlt)]
    rfl
  · rename_i hle
    have hlength : mnemonics.length ≤ opcode.toNat := by
      rw [length_mnemonics]
      exact Nat.lt_of_not_le fun h => hle (UInt8.le_iff_toNat_le.mpr h)
    rw [List.getElem?_eq_none hlength]
    split
    · rfl
    · split <;> rfl

/-- If every call succeeds, so do all of them. -/
theorem mapM_eq_ok {α β : Type} {f : α → Except Overrun β} (g : α → β) {items : List α}
    (h : ∀ item ∈ items, f item = .ok (g item)) : items.mapM f = .ok (items.map g) := by
  induction items with
  | nil => rfl
  | cons item items ih =>
    obtain ⟨hitem, hitems⟩ := List.forall_mem_cons.mp h
    rw [List.mapM_cons, hitem, ih hitems]
    rfl

namespace Span

variable {span : Span} {instruction : Instruction}

theorem byteAt_eq_ok {own : List UInt8} {position : Nat} (hbytes : span.bytes = .ok own)
    (h : position < own.length) : span.byteAt position = .ok (own.getD position 0) := by
  rw [byteAt, hbytes]
  apply checkedItem_of_getElem?
  rw [List.getD, List.getElem?_eq_getElem h]
  rfl

theorem bytesAt_eq_ok {own : List UInt8} {position width : Nat} (hbytes : span.bytes = .ok own)
    (h : position + width ≤ own.length) :
    span.bytesAt position width = .ok ((own.drop position).take width) := by
  rw [bytesAt, hbytes]
  exact checkedSlice_of_le h

theorem operand_eq_ok {own : List UInt8} {place : Operand} (hbytes : span.bytes = .ok own)
    (h : place.extent ≤ own.length) : span.operand place = .ok (place.value own) := by
  cases place with
  | implied value => rfl
  | unsigned position width =>
    rw [operand, bytesAt_eq_ok hbytes h]
    rfl
  | signed position width =>
    rw [operand, bytesAt_eq_ok hbytes h]
    rfl

theorem switchWord_eq_ok (hbytes : span.bytes = .ok instruction.bytes) (position : Nat)
    (h : position + 4 ≤ instruction.length) :
    span.switchWord position = .ok (instruction.switchWord position) :=
  operand_eq_ok hbytes h

theorem opcodeName_eq_ok (opcode : UInt8) :
    opcodeName opcode = .ok (Instruction.opcodeName opcode) := by
  rw [opcodeName, Opcode.checkedMnemonic?_eq]
  rfl

section Decoded

variable (hbytes : span.bytes = .ok instruction.bytes) (hform : instruction.Form)
include hbytes hform

theorem opcode_eq_ok : span.opcode = .ok instruction.opcode := by
  rw [opcode, byteAt_eq_ok hbytes hform.length_pos, Instruction.opcode]
  cases instruction.bytes <;> rfl

theorem isWide_eq_ok : span.isWide = .ok instruction.isWide := by
  rw [isWide, opcode_eq_ok hbytes hform]
  rfl

theorem effectiveOpcode_eq_ok : span.effectiveOpcode = .ok instruction.effectiveOpcode := by
  rw [effectiveOpcode, isWide_eq_ok hbytes hform, opcode_eq_ok hbytes hform]
  show (if instruction.isWide then _ else _) = _
  rw [Instruction.effectiveOpcode]
  split
  · rename_i hwide
    exact byteAt_eq_ok hbytes (hform.length_of_wide hwide)
  · rfl

theorem mnemonic_eq_ok : span.mnemonic = .ok instruction.mnemonic := by
  rw [mnemonic, opcode_eq_ok hbytes hform]
  exact opcodeName_eq_ok instruction.opcode

theorem render_eq_ok : span.render = .ok instruction.render := by
  rw [render, isWide_eq_ok hbytes hform, effectiveOpcode_eq_ok hbytes hform,
    mnemonic_eq_ok hbytes hform]
  show (if instruction.isWide then _ else _) = _
  rw [Instruction.render]
  split
  · show (opcodeName instruction.effectiveOpcode >>= _) = _
    rw [opcodeName_eq_ok]
    rfl
  · rfl

/-- What is seen of the instruction is enough to tell where its operands are. -/
theorem front_eq_ok : ∃ front, span.front = .ok front ∧ front.start = span.start
    ∧ front.opcode = instruction.opcode
    ∧ front.effectiveOpcode = instruction.effectiveOpcode := by
  rw [front, opcode_eq_ok hbytes hform]
  show ∃ front, (if instruction.opcode = Opcode.wide then _ else _) = _ ∧ _
  split
  · rename_i hopcode
    have hwide : instruction.isWide := beq_iff_eq.mpr hopcode
    have hsecond := byteAt_eq_ok hbytes (hform.length_of_wide hwide)
    refine ⟨⟨span.start, [instruction.opcode, instruction.bytes.getD 1 0]⟩, ?_, rfl, rfl, ?_⟩
    · rw [hsecond]
      rfl
    · rw [hopcode, Instruction.effectiveOpcode, Instruction.effectiveOpcode, if_pos hwide]
      rfl
  · rename_i hopcode
    have hwide : ¬ instruction.isWide := fun hwide => hopcode (beq_iff_eq.mp hwide)
    refine ⟨⟨span.start, [instruction.opcode]⟩, rfl, rfl, rfl, ?_⟩
    rw [Instruction.effectiveOpcode, Instruction.effectiveOpcode, if_neg hwide]
    exact if_neg hwide

variable (hstart : span.start = instruction.start)
include hstart

/-- An operand is found where the instruction has it, if that depends on its start and its opcodes
alone and is within its bytes. -/
theorem operand?_eq_ok (place? : Instruction → Option Operand)
    (hcongr : ∀ front : Instruction, front.start = instruction.start →
      front.opcode = instruction.opcode → front.effectiveOpcode = instruction.effectiveOpcode →
      place? front = place? instruction)
    (hwithin : ∀ operand ∈ place? instruction, operand.extent ≤ instruction.length) :
    span.operand? place? = .ok ((place? instruction).map (Operand.value instruction.bytes)) := by
  obtain ⟨front, hfront, hsame, hopcode, heffective⟩ := front_eq_ok hbytes hform
  have hplace := hcongr front (hsame.trans hstart) hopcode heffective
  rw [operand?, hfront]
  show (match place? front with | some place => _ | none => _) = _
  rw [hplace]
  cases hfound : place? instruction with
  | none => rfl
  | some operand =>
    show (span.operand operand >>= _) = _
    rw [operand_eq_ok hbytes (hwithin operand hfound)]
    rfl

theorem index?_eq_ok : span.index? = .ok instruction.index? := by
  have hoperand := operand?_eq_ok hbytes hform hstart Instruction.indexOperand?
    (fun _ hstart hopcode heffective =>
      (Instruction.operands_congr hstart hopcode heffective).1) hform.operandsWithin.index
  rw [index?, hoperand, Instruction.index?]
  cases instruction.indexOperand? <;> rfl

theorem offset?_eq_ok : span.offset? = .ok instruction.offset? :=
  operand?_eq_ok hbytes hform hstart _ (fun _ hstart hopcode heffective =>
    (Instruction.operands_congr hstart hopcode heffective).2.1) hform.operandsWithin.offset

theorem value?_eq_ok : span.value? = .ok instruction.value? :=
  operand?_eq_ok hbytes hform hstart _ (fun _ hstart hopcode heffective =>
    (Instruction.operands_congr hstart hopcode heffective).2.2) hform.operandsWithin.value

/-- All words that the bounds of a `tableswitch` speak of are within its length. -/
theorem switchTable?_of_tableswitch (hopcode : instruction.opcode = Opcode.tableswitch) :
    span.switchTable? = .ok instruction.switchTable? := by
  obtain ⟨-, hlength⟩ := hform.keys hopcode
  have hword := switchWord_eq_ok hbytes
  rw [switchTable?, opcode_eq_ok hbytes hform, hstart]
  show (if instruction.opcode = Opcode.tableswitch then
    span.switchWord instruction.words >>= _ else _) = _
  rw [if_pos hopcode, hword instruction.words (by omega)]
  show (span.switchWord (instruction.words + 4) >>= _) = _
  rw [hword (instruction.words + 4) (by omega)]
  show (span.switchWord (instruction.words + 8) >>= _) = _
  rw [hword (instruction.words + 8) (by omega)]
  show (List.mapM (fun (i : Nat) =>
    span.switchWord (instruction.words + 12 + 4 * i) >>= _) (List.range _) >>= _) = _
  rw [mapM_eq_ok fun (i : Nat) =>
    (instruction.lowKey + (i : Int), instruction.switchWord (instruction.words + 12 + 4 * i))]
  · rw [Instruction.switchTable?, if_pos hopcode]
    rfl
  · intro i hi
    have hlt : i < (instruction.highKey - instruction.lowKey + 1).toNat := List.mem_range.mp hi
    rw [hword (instruction.words + 12 + 4 * i) (by omega)]
    rfl

/-- All words that the number of pairs of a `lookupswitch` speaks of are within its length. -/
theorem switchTable?_of_lookupswitch (hopcode : instruction.opcode = Opcode.lookupswitch) :
    span.switchTable? = .ok instruction.switchTable? := by
  obtain ⟨-, hlength⟩ := hform.pairs hopcode
  have hword := switchWord_eq_ok hbytes
  have htable : instruction.opcode ≠ Opcode.tableswitch := by
    rw [hopcode]
    decide
  rw [switchTable?, opcode_eq_ok hbytes hform, hstart]
  show (if instruction.opcode = Opcode.tableswitch then _
    else if instruction.opcode = Opcode.lookupswitch then
      span.switchWord instruction.words >>= _ else _) = _
  rw [if_neg htable, if_pos hopcode, hword instruction.words (by omega)]
  show (span.switchWord (instruction.words + 4) >>= _) = _
  rw [hword (instruction.words + 4) (by omega)]
  show (List.mapM (fun (i : Nat) =>
    span.switchWord (instruction.words + 8 + 8 * i) >>= _) (List.range _) >>= _) = _
  rw [mapM_eq_ok fun (i : Nat) => (instruction.switchWord (instruction.words + 8 + 8 * i),
    instruction.switchWord (instruction.words + 12 + 8 * i))]
  · rw [Instruction.switchTable?, if_neg htable, if_pos hopcode]
    rfl
  · intro i hi
    have hlt : i < instruction.pairCount.toNat := List.mem_range.mp hi
    rw [hword (instruction.words + 8 + 8 * i) (by omega)]
    show (span.switchWord (instruction.words + 12 + 8 * i) >>= _) = _
    rw [hword (instruction.words + 12 + 8 * i) (by omega)]
    rfl

theorem switchTable?_eq_ok : span.switchTable? = .ok instruction.switchTable? := by
  by_cases htable : instruction.opcode = Opcode.tableswitch
  · exact switchTable?_of_tableswitch hbytes hform hstart htable
  · by_cases hlookup : instruction.opcode = Opcode.lookupswitch
    · exact switchTable?_of_lookupswitch hbytes hform hstart hlookup
    · rw [switchTable?, opcode_eq_ok hbytes hform, Instruction.switchTable?, if_neg htable,
        if_neg hlookup]
      show (if instruction.opcode = Opcode.tableswitch then _
        else if instruction.opcode = Opcode.lookupswitch then _ else _) = _
      rw [if_neg htable, if_neg hlookup]
      rfl

theorem answers : span.Answers instruction where
  bytes := hbytes
  opcode := opcode_eq_ok hbytes hform
  isWide := isWide_eq_ok hbytes hform
  effectiveOpcode := effectiveOpcode_eq_ok hbytes hform
  mnemonic := mnemonic_eq_ok hbytes hform
  render := render_eq_ok hbytes hform
  index := index?_eq_ok hbytes hform hstart
  offset := offset?_eq_ok hbytes hform hstart
  value := value?_eq_ok hbytes hform hstart
  switchTable := switchTable?_eq_ok hbytes hform hstart

end Decoded

end Span

/-! ## Jump tables -/

namespace Instruction

/-- The jump table has as many targets as the words of the switch say, and its default branch is
the branch offset of the instruction. -/
structure HasTable (instruction : Instruction) (table : SwitchTable) : Prop where
  isSwitch : instruction.opcode = Opcode.tableswitch ∨ instruction.opcode = Opcode.lookupswitch
  default : instruction.offset? = some table.default
  keys : instruction.opcode = Opcode.tableswitch →
    instruction.lowKey ≤ instruction.highKey
      ∧ (table.targets.length : Int) = instruction.highKey - instruction.lowKey + 1
      ∧ ∀ (n : Nat) (key : Int), (table.targets.map Prod.fst)[n]? = some key
        ↔ key = instruction.lowKey + n ∧ key ≤ instruction.highKey
  pairs : instruction.opcode = Opcode.lookupswitch →
    (table.targets.length : Int) = instruction.pairCount

theorem hasTable {instruction : Instruction} {table : SwitchTable} (hform : instruction.Form)
    (h : instruction.switchTable? = some table) : instruction.HasTable table := by
  have hoffset : instruction.opcode = Opcode.tableswitch
      ∨ instruction.opcode = Opcode.lookupswitch →
        instruction.offset? = some (instruction.switchWord instruction.words) := by
    intro hswitch
    rw [offset?, offsetOperand?_of_switch hswitch]
    rfl
  unfold switchTable? at h
  split at h
  · rename_i htable
    obtain ⟨hkeys, -⟩ := hform.keys htable
    obtain rfl := Option.some.inj h
    refine ⟨.inl htable, hoffset (.inl htable), fun _ => ⟨hkeys, ?_, ?_⟩, fun hlookup => ?_⟩
    · show ((List.map _ (List.range (instruction.highKey - instruction.lowKey + 1).toNat)).length
        : Int) = _
      rw [List.length_map, List.length_range]
      omega
    · intro n key
      rw [List.map_map, List.getElem?_map, Option.map_eq_some_iff]
      constructor
      · rintro ⟨i, hi, rfl⟩
        obtain ⟨hlt, hget⟩ := List.getElem?_eq_some_iff.mp hi
        rw [List.getElem_range] at hget
        subst hget
        have hcount : n < (instruction.highKey - instruction.lowKey + 1).toNat := by
          rwa [List.length_range] at hlt
        show instruction.lowKey + n = _ ∧ instruction.lowKey + n ≤ _
        omega
      · rintro ⟨rfl, hle⟩
        have hcount : n < (instruction.highKey - instruction.lowKey + 1).toNat := by omega
        exact ⟨n, List.getElem?_range hcount, rfl⟩
    · rw [hlookup] at htable
      cases htable
  · split at h
    · rename_i hopcode hlookup
      obtain ⟨hpairs, -⟩ := hform.pairs hlookup
      obtain rfl := Option.some.inj h
      refine ⟨.inr hlookup, hoffset (.inr hlookup), fun htable => absurd htable hopcode, ?_⟩
      intro _
      show ((List.map _ (List.range instruction.pairCount.toNat)).length : Int) = _
      rw [List.length_map, List.length_range]
      omega
    · cases h

theorem form_of_next {start : Nat} {bytes rest : List UInt8} {instruction : Instruction}
    (h : next start bytes = .ok (instruction, rest)) : instruction.Form := by
  obtain ⟨declared, hdeclared, h⟩ := bind_eq_ok_iff.mp h
  split at h
  · rename_i own behind hsplit
    obtain ⟨hbytes, hown⟩ := splitExact_eq_some_iff.mp hsplit
    cases h
    rw [hbytes, ← hown] at hdeclared
    exact form_of_declaredLength hdeclared
  · cases h

/-- Every instruction of a chain has one of the forms and ends within the array. -/
theorem Chain.form {code : List UInt8} {start stop : Nat} {instructions : List Instruction}
    (h : Chain code start instructions stop) : ∀ instruction ∈ instructions,
      instruction.Form ∧ instruction.start + instruction.length ≤ code.length := by
  induction h with
  | nil start => exact fun instruction hmem => absurd hmem List.not_mem_nil
  | cons hlength _ ih =>
    obtain ⟨hnext, -, hle⟩ := lengthAt_eq_ok hlength
    refine List.forall_mem_cons.mpr ⟨⟨form_of_next hnext, ?_⟩, ih⟩
    rw [length_slice hlength]
    exact hle

/-- The place of an instruction in a code array. -/
def span (instruction : Instruction) (code : List UInt8) : Span :=
  ⟨code, instruction.start, instruction.length⟩

end Instruction

/-- Whatever the code array is, every question to one of its instructions stays within the bytes of
that instruction, and the jump tables are as long as their switches say. -/
theorem Code.instructions_in_bounds (code : Code) {instruction : Instruction}
    (h : instruction ∈ code.instructions) :
    (instruction.span code.bytes).Answers instruction
      ∧ ∀ table, instruction.switchTable? = some table → instruction.HasTable table := by
  obtain ⟨stop, hchain, -⟩ := Listing.chain_decode code.bytes
  obtain ⟨hform, hle⟩ := hchain.form instruction h
  refine ⟨Span.answers ?_ hform rfl, fun table htable => Instruction.hasTable hform htable⟩
  rw [hchain.bytes instruction h]
  exact checkedSlice_of_le hle

/-- A `tableswitch` with keys -1 and 0 behind a `nop`.  The two bytes behind it decode to
nothing. -/
theorem Code.instructions_in_bounds_tableswitch :
    (Span.mk [0, 0xaa, 0, 0, 0, 0, 0, 9, 255, 255, 255, 255, 0, 0, 0, 0, 0, 0, 0, 5, 0, 0, 0, 7,
      0xaa, 1] 1 23).switchTable? = .ok (some ⟨9, [(-1, 5), (0, 7)]⟩) := by
  have hlisted : ⟨1, [0xaa, 0, 0, 0, 0, 0, 9, 255, 255, 255, 255, 0, 0, 0, 0, 0, 0, 0, 5, 0, 0, 0,
      7]⟩ ∈ Code.instructions ⟨1, 1, [0, 0xaa, 0, 0, 0, 0, 0, 9, 255, 255, 255, 255, 0, 0, 0, 0,
        0, 0, 0, 5, 0, 0, 0, 7, 0xaa, 1], [], []⟩ := by
    decide +kernel
  obtain ⟨hanswers, -⟩ := Code.instructions_in_bounds _ hlisted
  refine hanswers.switchTable.trans (congrArg Except.ok ?_)
  decide +kernel

end ClassFormat
