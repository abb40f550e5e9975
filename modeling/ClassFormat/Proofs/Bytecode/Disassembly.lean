/-
# ClassFormat.Proofs.Bytecode.Disassembly: what instructions say of assembled programs

`Statement.meaning` gives the answers that a statement has to every question an instruction can be
asked, in terms of its operands and with nothing where it has none.  An assembled statement gives
these answers.

The questions are answered by tables over opcodes.  For instructions of fixed length the tables are
looked at once per group of opcodes, in the profile of the opcode, and what is left is to read the
operands off the bytes.  `wide` and the two switches are looked at on their own.
-/
import ClassFormat.Proofs.Bytecode.Assembly
import ClassFormat.Proofs.Layout.Consumes
import Mathlib.Algebra.GroupWithZero.Nat

namespace ClassFormat

/-! ## Meanings -/

/-- The answers to what an instruction can be asked. -/
structure Meaning where
  opcode : UInt8
  isWide : Bool := false
  effectiveOpcode : UInt8 := opcode
  isLoad : Bool := false
  isStore : Bool := false
  refersToPool : Bool := false
  index? : Option UInt16 := none
  value? : Option Int := none
  offset? : Option Int := none
  switchTable? : Option SwitchTable := none
  deriving DecidableEq

/-- The answers that an instruction gives. -/
def Instruction.meaning (instruction : Instruction) : Meaning where
  opcode := instruction.opcode
  isWide := instruction.isWide
  effectiveOpcode := instruction.effectiveOpcode
  isLoad := instruction.isLoad
  isStore := instruction.isStore
  refersToPool := instruction.refersToPool
  index? := instruction.index?
  value? := instruction.value?
  offset? := instruction.offset?
  switchTable? := instruction.switchTable?

/-- The answers that follow from the operands of a statement. -/
def Statement.meaning : Statement → Meaning
  | plain opcode _ => { opcode }
  | constant small => { opcode := small.opcode, value? := some small.value }
  | bipush value => { opcode := 0x10, value? := some value.toInt }
  | sipush value => { opcode := 0x11, value? := some value.toInt }
  | ldc index => { opcode := 0x12, refersToPool := true, index? := some index.toUInt16 }
  | pool opcode _ index => { opcode, refersToPool := true, index? := some index }
  | longCall opcode _ index _ _ => { opcode, refersToPool := true, index? := some index }
  | multianewarray index dimensions =>
    { opcode := 0xc5, refersToPool := true, index? := some index,
      value? := some dimensions.toNat }
  | newarray elementType => { opcode := 0xbc, value? := some elementType.toNat }
  | ofSlot use slot =>
    { opcode := use.opcode, isLoad := use.loads, isStore := use.stores,
      index? := some slot.toUInt16 }
  | shortLoad type slot =>
    { opcode := 0x1a + 4 * type.number + UInt8.ofNat slot, isLoad := true,
      index? := some (UInt16.ofNat slot) }
  | shortStore type slot =>
    { opcode := 0x3b + 4 * type.number + UInt8.ofNat slot, isStore := true,
      index? := some (UInt16.ofNat slot) }
  | ofWideSlot use slot =>
    { opcode := 0xc4, isWide := true, effectiveOpcode := use.opcode, isLoad := use.loads,
      isStore := use.stores, index? := some slot }
  | iinc slot increment =>
    { opcode := 0x84, isLoad := true, index? := some slot.toUInt16,
      value? := some increment.toInt }
  | wideIinc slot increment =>
    { opcode := 0xc4, isWide := true, effectiveOpcode := 0x84, isLoad := true,
      index? := some slot, value? := some increment.toInt }
  | jump opcode _ offset => { opcode, offset? := some offset.toInt }
  | farJump opcode _ offset => { opcode, offset? := some offset.toInt }
  | tableswitch _ default low _ targets _ _ =>
    { opcode := 0xaa, offset? := some default.toInt,
      switchTable? := some ⟨default.toInt,
        targets.zipIdx.map fun (target, i) => (low.toInt + i, target.toInt)⟩ }
  | lookupswitch _ default pairs _ =>
    { opcode := 0xab, offset? := some default.toInt,
      switchTable? := some ⟨default.toInt,
        pairs.map fun (key, target) => (key.toInt, target.toInt)⟩ }

/-! ## Reading operands -/

namespace Operand

theorem value_unsigned (front own rest : List UInt8) :
    (unsigned front.length own.length).value (front ++ (own ++ rest)) = bigEndian own := by
  simp [value]

theorem value_signed (front own rest : List UInt8) :
    (signed front.length own.length).value (front ++ (own ++ rest)) = bigEndianSigned own := by
  simp [value]

/-- A one-byte operand without a sign. -/
theorem value_u8 (front : List UInt8) (byte : UInt8) (rest : List UInt8) :
    (unsigned front.length 1).value (front ++ byte :: rest) = byte.toNat := by
  have hvalue := value_unsigned front [byte] rest
  simpa [bigEndian] using hvalue

/-- A slot in one byte is as good as one in two. -/
theorem value_slot (front : List UInt8) (slot : UInt8) (rest : List UInt8) :
    (unsigned front.length 1).value (front ++ slot :: rest) = slot.toUInt16.toNat := by
  rw [value_u8, UInt8.toNat_toUInt16]

theorem value_implied (slot : Fin 4) (bytes : List UInt8) :
    (implied slot.val).value bytes = (UInt16.ofNat slot).toNat := by
  have hslot : (UInt16.ofNat slot.val).toNat = slot.val :=
    UInt16.toNat_ofNat_of_lt' (Nat.lt_trans slot.isLt (by decide))
  rw [value, hslot]

theorem value_u16 (front : List UInt8) (number : UInt16) (rest : List UInt8) :
    (unsigned front.length 2).value (front ++ (Writer.u16 number ++ rest)) = number.toNat := by
  rw [← bigEndian_u16]
  exact value_unsigned front (Writer.u16 number) rest

theorem value_i8 (front : List UInt8) (number : Int8) (rest : List UInt8) :
    (signed front.length 1).value (front ++ number.toUInt8 :: rest) = number.toInt := by
  rw [← bigEndianSigned_i8]
  exact value_signed front [number.toUInt8] rest

theorem value_i16 (front : List UInt8) (number : Int16) (rest : List UInt8) :
    (signed front.length 2).value (front ++ (Writer.i16 number ++ rest)) = number.toInt := by
  rw [← bigEndianSigned_i16]
  exact value_signed front (Writer.i16 number) rest

theorem value_i32 (front : List UInt8) (number : Int32) (rest : List UInt8) :
    (signed front.length 4).value (front ++ (Writer.i32 number ++ rest)) = number.toInt := by
  rw [← bigEndianSigned_i32]
  exact value_signed front (Writer.i32 number) rest

end Operand

namespace Instruction

/-- An instruction of fixed length answers by the profile of its opcode. -/
theorem meaning_of_profile {opcode : UInt8} {profile : Opcode.Profile}
    (h : Opcode.profile opcode = profile) (hlength : profile.length.isSome) (start : Nat)
    (operands : List UInt8) :
    (⟨start, opcode :: operands⟩ : Instruction).meaning
      = { opcode, isLoad := profile.loads, isStore := profile.stores,
          refersToPool := profile.refersToPool,
          index? := profile.index.map fun operand =>
            UInt16.ofNat (operand.value (opcode :: operands)).toNat
          value? := profile.value.map (Operand.value (opcode :: operands)),
          offset? := profile.offset.map (Operand.value (opcode :: operands)) } := by
  subst h
  obtain ⟨htable, hlookup, hwide⟩ := Opcode.fixed_of_profile hlength
  have hswitch : Opcode.isSwitch opcode = false := by
    simp [Opcode.isSwitch, htable, hlookup]
  simp [meaning, Opcode.profile, isWide, effectiveOpcode, isLoad, isStore, refersToPool, index?,
    value?, offset?, switchTable?, indexOperand?, valueOperand?, offsetOperand?, Instruction.opcode,
    htable, hlookup, hwide, hswitch]

/-- So its answers are known from what the profile makes of its bytes. -/
theorem meaning_of_operands {opcode : UInt8} {profile : Opcode.Profile} {operands : List UInt8}
    {index : Option UInt16} {value offset : Option Int} (h : Opcode.profile opcode = profile)
    (hlength : profile.length.isSome)
    (hindex : profile.index.map (Operand.value (opcode :: operands))
      = index.map fun number => (number.toNat : Int))
    (hvalue : profile.value.map (Operand.value (opcode :: operands)) = value)
    (hoffset : profile.offset.map (Operand.value (opcode :: operands)) = offset) (start : Nat) :
    (⟨start, opcode :: operands⟩ : Instruction).meaning
      = { opcode, isLoad := profile.loads, isStore := profile.stores,
          refersToPool := profile.refersToPool, index? := index, value? := value,
          offset? := offset } := by
  have hnumber : (profile.index.map fun operand =>
      UInt16.ofNat (operand.value (opcode :: operands)).toNat) = index := by
    have hmap := congrArg (Option.map fun number : Int => UInt16.ofNat number.toNat) hindex
    simpa [Option.map_map, Function.comp_def] using hmap
  rw [meaning_of_profile h hlength, hnumber, hvalue, hoffset]

/-- A widened instruction does what the opcode behind `wide` does, with wider operands. -/
theorem meaning_wide {widened : UInt8} {profile : Opcode.Profile}
    (h : Opcode.profile widened = profile) (hlength : profile.length.isSome) (start : Nat)
    (operands : List UInt8) :
    (⟨start, 0xc4 :: widened :: operands⟩ : Instruction).meaning
      = { opcode := 0xc4, isWide := true, effectiveOpcode := widened, isLoad := profile.loads,
          isStore := profile.stores,
          index? := some (UInt16.ofNat
            ((Operand.unsigned 2 2).value (0xc4 :: widened :: operands)).toNat),
          value? := if widened = Opcode.iinc then
            some ((Operand.signed 4 2).value (0xc4 :: widened :: operands)) else none } := by
  subst h
  obtain ⟨-, -, hwide⟩ := Opcode.fixed_of_profile hlength
  have halone : (⟨0, [widened]⟩ : Instruction).effectiveOpcode = widened := by
    simp [effectiveOpcode, isWide, Instruction.opcode, hwide]
  have heffective : (⟨start, 0xc4 :: widened :: operands⟩ : Instruction).effectiveOpcode
      = widened := rfl
  have hindex : (⟨start, 0xc4 :: widened :: operands⟩ : Instruction).indexOperand?
      = some (.unsigned 2 2) := rfl
  have hoffset : (⟨start, 0xc4 :: widened :: operands⟩ : Instruction).offsetOperand? = none := rfl
  have hvalue : (⟨start, 0xc4 :: widened :: operands⟩ : Instruction).valueOperand?
      = if widened = Opcode.iinc then some (.signed 4 2) else none := by
    show (if Opcode.wide = Opcode.wide ∧ widened = Opcode.iinc then _ else _) = _
    simp
  have hloads : (⟨start, 0xc4 :: widened :: operands⟩ : Instruction).isLoad
      = (Opcode.profile widened).loads := by
    simp only [isLoad, heffective, Opcode.profile, halone]
  have hstores : (⟨start, 0xc4 :: widened :: operands⟩ : Instruction).isStore
      = (Opcode.profile widened).stores := by
    simp only [isStore, heffective, Opcode.profile, halone]
  simp only [meaning, heffective, hloads, hstores, index?, hindex, value?, hvalue, offset?, hoffset]
  split <;> rfl

/-- The words behind the padding of a switch. -/
def HasWords (instruction : Instruction) (words : List Int32) : Prop :=
  ∀ {k : Nat} {word : Int32}, words[k]? = some word →
    instruction.switchWord (1 + switchPadding instruction.start + 4 * k) = word.toInt

/-- The table of a `tableswitch` has the targets in order, with keys from the low bound on. -/
theorem switchTable_tableswitch {instruction : Instruction} {default low high : Int32}
    {targets : List Int32} (hopcode : instruction.opcode = Opcode.tableswitch)
    (hwords : instruction.HasWords (default :: low :: high :: targets))
    (htargets : (targets.length : Int) = high.toInt - low.toInt + 1) :
    instruction.switchTable?
      = some ⟨default.toInt,
          targets.zipIdx.map fun (target, i) => (low.toInt + i, target.toInt)⟩ := by
  have hdefault := hwords (show _[0]? = some default from rfl)
  have hlow := hwords (show _[1]? = some low from rfl)
  have hhigh := hwords (show _[2]? = some high from rfl)
  have hcount : (high.toInt - low.toInt + 1).toNat = targets.length := by omega
  simp only [Nat.mul_zero, Nat.add_zero, Nat.reduceMul] at hdefault hlow hhigh
  simp only [switchTable?, if_pos hopcode, hdefault, hlow, hhigh, hcount, Option.some.injEq,
    SwitchTable.mk.injEq, true_and]
  apply List.ext_getElem
  · simp
  · -- The keys count up from the low bound on both sides, so only the targets are read.
    intro i hleft hright
    have hi : i < targets.length := by simpa using hleft
    have htarget := hwords (show _[i + 3]? = some targets[i] by simp [hi])
    have hposition : 4 * (i + 3) = 12 + 4 * i := by omega
    rw [hposition, ← Nat.add_assoc] at htarget
    simp [htarget]

theorem getElem?_pairs (pairs : List (Int32 × Int32)) (i : Nat) :
    (pairs.flatMap fun (key, target) => [key, target])[2 * i]? = pairs[i]?.map Prod.fst
      ∧ (pairs.flatMap fun (key, target) => [key, target])[2 * i + 1]?
        = pairs[i]?.map Prod.snd := by
  induction pairs generalizing i with
  | nil => simp
  | cons pair pairs ih =>
    cases i with
    | zero => exact ⟨rfl, rfl⟩
    | succ i => exact ih i

/-- The table of a `lookupswitch` has the pairs in order. -/
theorem switchTable_lookupswitch {instruction : Instruction} {default : Int32}
    {pairs : List (Int32 × Int32)} (hopcode : instruction.opcode = Opcode.lookupswitch)
    (hwords : instruction.HasWords
      (default :: Int32.ofNat pairs.length :: pairs.flatMap fun (key, target) => [key, target]))
    (hpairs : pairs.length < 2 ^ 31) :
    instruction.switchTable?
      = some ⟨default.toInt, pairs.map fun (key, target) => (key.toInt, target.toInt)⟩ := by
  have hdefault := hwords (show _[0]? = some default from rfl)
  have hcount := hwords (show _[1]? = some (Int32.ofNat pairs.length) from rfl)
  have htable : ¬ instruction.opcode = Opcode.tableswitch := by
    rw [hopcode]
    decide
  simp only [Nat.mul_zero, Nat.add_zero, Nat.reduceMul, Int32.toInt_ofNat_of_lt hpairs]
    at hdefault hcount
  simp only [switchTable?, if_neg htable, if_pos hopcode, hdefault, hcount, Int.toNat_natCast,
    Option.some.injEq, SwitchTable.mk.injEq, true_and]
  apply List.ext_getElem
  · simp
  · intro i hleft hright
    have hi : i < pairs.length := by simpa using hleft
    obtain ⟨hfirst, hsecond⟩ := getElem?_pairs pairs i
    have hkey := hwords (show _[2 * i + 2]? = some pairs[i].1 by
      rw [List.getElem?_cons_succ, List.getElem?_cons_succ, hfirst]
      simp [hi])
    have htarget := hwords (show _[2 * i + 3]? = some pairs[i].2 by
      rw [List.getElem?_cons_succ, List.getElem?_cons_succ, hsecond]
      simp [hi])
    rw [show 4 * (2 * i + 2) = 8 + 8 * i by omega, ← Nat.add_assoc] at hkey
    rw [show 4 * (2 * i + 3) = 12 + 8 * i by omega, ← Nat.add_assoc] at htarget
    simp [hkey, htarget]

end Instruction

namespace Statement

/-! ## Statements of fixed length -/

/-- The statements whose length follows from their opcode. -/
def isFixed : Statement → Bool
  | ofWideSlot .. | wideIinc .. | tableswitch .. | lookupswitch .. => false
  | _ => true

theorem meaning_of_fixed {statement : Statement} (hfixed : statement.isFixed) (start : Nat) :
    (⟨start, statement.encode start⟩ : Instruction).meaning = statement.meaning := by
  cases statement with
  | ofWideSlot | wideIinc | tableswitch | lookupswitch => cases hfixed
  | plain opcode h =>
    exact Instruction.meaning_of_operands (Opcode.profile_plain opcode h) rfl rfl rfl rfl start
  | constant small =>
    exact Instruction.meaning_of_operands (Opcode.profile_small small) rfl rfl rfl rfl start
  | bipush value =>
    refine Instruction.meaning_of_operands rfl rfl rfl ?_ rfl start
    exact congrArg some (Operand.value_i8 [0x10] value [])
  | sipush value =>
    refine Instruction.meaning_of_operands rfl rfl rfl ?_ rfl start
    exact congrArg some (Operand.value_i16 [0x11] value [])
  | newarray elementType =>
    refine Instruction.meaning_of_operands rfl rfl rfl ?_ rfl start
    exact congrArg some (Operand.value_u8 [0xbc] elementType [])
  | ldc index =>
    refine Instruction.meaning_of_operands rfl rfl ?_ rfl rfl start
    exact congrArg some (Operand.value_slot [0x12] index [])
  | pool opcode h index =>
    refine Instruction.meaning_of_operands (Opcode.profile_poolUse opcode h) rfl ?_ rfl rfl start
    exact congrArg some (Operand.value_u16 [opcode] index [])
  | longCall opcode h index third fourth =>
    refine Instruction.meaning_of_operands (Opcode.profile_longCall opcode h) rfl ?_ rfl rfl start
    exact congrArg some (Operand.value_u16 [opcode] index [third, fourth])
  | ofSlot use slot =>
    refine Instruction.meaning_of_operands (Opcode.profile_slotUse use) rfl ?_ rfl rfl start
    exact congrArg some (Operand.value_slot [use.opcode] slot [])
  | shortLoad type slot =>
    refine Instruction.meaning_of_operands (Opcode.profile_shortLoad type slot) rfl ?_ rfl rfl start
    exact congrArg some (Operand.value_implied slot _)
  | shortStore type slot =>
    refine Instruction.meaning_of_operands (Opcode.profile_shortStore type slot) rfl ?_ rfl rfl
      start
    exact congrArg some (Operand.value_implied slot _)
  | multianewarray index dimensions =>
    refine Instruction.meaning_of_operands rfl rfl ?_ ?_ rfl start
    · exact congrArg some (Operand.value_u16 [0xc5] index [dimensions])
    · exact congrArg some (Operand.value_u8 (0xc5 :: Writer.u16 index) dimensions [])
  | iinc slot increment =>
    refine Instruction.meaning_of_operands rfl rfl ?_ ?_ rfl start
    · exact congrArg some (Operand.value_slot [0x84] slot [increment.toUInt8])
    · exact congrArg some (Operand.value_i8 [0x84, slot] increment [])
  | jump opcode h offset =>
    refine Instruction.meaning_of_operands (Opcode.profile_nearJump opcode h) rfl rfl rfl ?_ start
    exact congrArg some (Operand.value_i16 [opcode] offset [])
  | farJump opcode h offset =>
    refine Instruction.meaning_of_operands (Opcode.profile_farJump opcode h) rfl rfl rfl ?_ start
    exact congrArg some (Operand.value_i32 [opcode] offset [])

/-! ## Widened statements -/

theorem meaning_ofWideSlot (use : SlotUse) (slot : UInt16) (start : Nat) :
    (⟨start, (ofWideSlot use slot).encode start⟩ : Instruction).meaning
      = (ofWideSlot use slot).meaning := by
  have hindex : (Operand.unsigned 2 2).value (0xc4 :: use.opcode :: Writer.u16 slot) = slot.toNat :=
    Operand.value_u16 [0xc4, use.opcode] slot []
  rw [encode, Instruction.meaning_wide (Opcode.profile_slotUse use) rfl, if_neg use.widened.1,
    hindex]
  simp [meaning]

theorem meaning_wideIinc (slot : UInt16) (increment : Int16) (start : Nat) :
    (⟨start, (wideIinc slot increment).encode start⟩ : Instruction).meaning
      = (wideIinc slot increment).meaning := by
  have hprofile : Opcode.profile 0x84
      = { length := some 2, loads := true, index := some (.unsigned 1 1),
          value := some (.signed 2 1) } := rfl
  have hindex : (Operand.unsigned 2 2).value
      (0xc4 :: 0x84 :: (Writer.u16 slot ++ Writer.i16 increment)) = slot.toNat :=
    Operand.value_u16 [0xc4, 0x84] slot (Writer.i16 increment)
  have hvalue : (Operand.signed 4 2).value
      (0xc4 :: 0x84 :: (Writer.u16 slot ++ Writer.i16 increment)) = increment.toInt :=
    Operand.value_i16 (0xc4 :: 0x84 :: Writer.u16 slot) increment []
  rw [encode, Instruction.meaning_wide hprofile rfl, if_pos (show 0x84 = Opcode.iinc from rfl),
    hindex, hvalue]
  simp [meaning]

/-! ## Switches -/

section Switches

variable (start : Nat) (filler : Nat → UInt8)

theorem hasWords_encodeSwitch (opcode : UInt8) (words : List Int32) :
    (⟨start, encodeSwitch opcode start filler words⟩ : Instruction).HasWords words := by
  intro k word h
  obtain ⟨front, behind, hbytes, hfront⟩ := encodeSwitch_at opcode start filler h
  rw [Instruction.switchWord, hbytes, ← hfront, ← bigEndianSigned_i32]
  exact Operand.value_signed front (Writer.i32 word) behind

/-- A switch answers with its default and its table, and nothing else. -/
theorem meaning_encodeSwitch {opcode : UInt8}
    (h : opcode = Opcode.tableswitch ∨ opcode = Opcode.lookupswitch) {default : Int32}
    {words : List Int32} {table : SwitchTable}
    (htable : (⟨start, encodeSwitch opcode start filler (default :: words)⟩ :
      Instruction).switchTable? = some table) :
    (⟨start, encodeSwitch opcode start filler (default :: words)⟩ : Instruction).meaning
      = { opcode, offset? := some default.toInt, switchTable? := some table } := by
  have hdefault := hasWords_encodeSwitch start filler opcode (default :: words)
    (show (default :: words)[0]? = some default from rfl)
  rw [← htable, ← hdefault]
  rcases h with rfl | rfl <;> rfl

end Switches

/-- An assembled statement gives the answers of the statement. -/
theorem meaning_encode (statement : Statement) (start : Nat) :
    (⟨start, statement.encode start⟩ : Instruction).meaning = statement.meaning := by
  by_cases hfixed : statement.isFixed
  · exact meaning_of_fixed hfixed start
  · cases statement with
    | ofWideSlot use slot => exact meaning_ofWideSlot use slot start
    | wideIinc slot increment => exact meaning_wideIinc slot increment start
    | tableswitch filler default low high targets hbounds htargets =>
      exact meaning_encodeSwitch start filler (Or.inl rfl)
        (Instruction.switchTable_tableswitch rfl (hasWords_encodeSwitch start filler 0xaa _)
          htargets)
    | lookupswitch filler default pairs hpairs =>
      exact meaning_encodeSwitch start filler (Or.inr rfl)
        (Instruction.switchTable_lookupswitch rfl (hasWords_encodeSwitch start filler 0xab _)
          hpairs)
    | _ => exact absurd rfl hfixed

/-! ## All instructions are statements -/

theorem exists_u16 (high low : UInt8) : ∃ number, Writer.u16 number = [high, low] := by
  have hlt : bigEndian [high, low] < 65536 := by
    simpa using bigEndian_lt [high, low]
  refine ⟨UInt16.ofNat (bigEndian [high, low]), ?_⟩
  rw [Writer.u16, UInt16.toNat_ofNat_of_lt' hlt]
  exact bigEndianBytes_bigEndian [high, low]

theorem exists_i16 (high low : UInt8) : ∃ number, Writer.i16 number = [high, low] := by
  obtain ⟨number, hnumber⟩ := exists_u16 high low
  refine ⟨number.toInt16, ?_⟩
  rw [Writer.i16, UInt16.toUInt16_toInt16, hnumber]

theorem exists_i32 (first second third fourth : UInt8) :
    ∃ number, Writer.i32 number = [first, second, third, fourth] := by
  have hlt : bigEndian [first, second, third, fourth] < 4294967296 := by
    simpa using bigEndian_lt [first, second, third, fourth]
  refine ⟨(UInt32.ofNat (bigEndian [first, second, third, fourth])).toInt32, ?_⟩
  rw [Writer.i32, UInt32.toUInt32_toInt32, Writer.u32, UInt32.toNat_ofNat_of_lt' hlt]
  exact bigEndianBytes_bigEndian [first, second, third, fourth]

/-- The opcodes of statements with a given number of operand bytes. -/
def HasForm (opcode : UInt8) : (length : Nat) → Prop
  | 0 => Opcode.isPlain opcode ∨ (∃ small ∈ SmallConstant.all, small.opcode = opcode)
      ∨ ∃ type ∈ SlotType.all, ∃ slot : Fin 4,
          0x1a + 4 * type.number + UInt8.ofNat slot = opcode
            ∨ 0x3b + 4 * type.number + UInt8.ofNat slot = opcode
  | 1 => opcode = 0x10 ∨ opcode = 0x12 ∨ opcode = 0xbc ∨ ∃ use ∈ SlotUse.all, use.opcode = opcode
  | 2 => opcode = 0x11 ∨ opcode = 0x84 ∨ Opcode.isPoolUse opcode ∨ Opcode.isNearJump opcode
  | 3 => opcode = 0xc5
  | 4 => Opcode.isLongCall opcode ∨ Opcode.isFarJump opcode
  | _ => False

instance (opcode : UInt8) : (length : Nat) → Decidable (HasForm opcode length)
  | 0 | 1 | 2 | 4 => inferInstanceAs (Decidable (_ ∨ _))
  | 3 => inferInstanceAs (Decidable (_ = _))
  | _ + 5 => inferInstanceAs (Decidable False)

theorem hasForm : ∀ opcode, ∀ length ∈ Opcode.operandLength? opcode, HasForm opcode length :=
  forall_byte (by decide +kernel)

/-- Every opcode of fixed length is that of a statement, whatever its operand bytes are. -/
theorem exists_encode {opcode : UInt8} {operands : List UInt8}
    (h : Opcode.operandLength? opcode = some operands.length) :
    ∃ statement : Statement, ∀ start, statement.encode start = opcode :: operands := by
  have hform : HasForm opcode operands.length := hasForm opcode operands.length h
  -- The cases are the number of operand bytes, and in each of them the opcodes that have so many.
  rcases operands with _ | ⟨first, _ | ⟨second, _ | ⟨third, _ | ⟨fourth, _ | ⟨_, _⟩⟩⟩⟩⟩
  · rcases hform with hplain | ⟨small, -, rfl⟩ | ⟨type, -, slot, rfl | rfl⟩
    · exact ⟨plain opcode hplain, fun _ => rfl⟩
    · exact ⟨constant small, fun _ => rfl⟩
    · exact ⟨shortLoad type slot, fun _ => rfl⟩
    · exact ⟨shortStore type slot, fun _ => rfl⟩
  · rcases hform with rfl | rfl | rfl | ⟨use, -, rfl⟩
    · exact ⟨bipush first.toInt8, fun _ => by rw [encode, UInt8.toUInt8_toInt8]⟩
    · exact ⟨ldc first, fun _ => rfl⟩
    · exact ⟨newarray first, fun _ => rfl⟩
    · exact ⟨ofSlot use first, fun _ => rfl⟩
  · obtain ⟨index, hindex⟩ := exists_u16 first second
    obtain ⟨number, hnumber⟩ := exists_i16 first second
    rcases hform with rfl | rfl | hpool | hjump
    · exact ⟨sipush number, fun _ => by rw [encode, hnumber]⟩
    · exact ⟨iinc first second.toInt8, fun _ => by rw [encode, UInt8.toUInt8_toInt8]⟩
    · exact ⟨pool opcode hpool index, fun _ => by rw [encode, hindex]⟩
    · exact ⟨jump opcode hjump number, fun _ => by rw [encode, hnumber]⟩
  · obtain ⟨index, hindex⟩ := exists_u16 first second
    cases hform
    exact ⟨multianewarray index third, fun _ => by rw [encode, hindex]; rfl⟩
  · obtain ⟨index, hindex⟩ := exists_u16 first second
    obtain ⟨number, hnumber⟩ := exists_i32 first second third fourth
    rcases hform with hcall | hjump
    · exact ⟨longCall opcode hcall index third fourth, fun _ => by rw [encode, hindex]; rfl⟩
    · exact ⟨farJump opcode hjump number, fun _ => by rw [encode, hnumber]⟩
  · exact hform.elim

/-! ## Programs -/

theorem length_placeFrom (start : Nat) (statements : List Statement) :
    (placeFrom start statements).length = statements.length := by
  induction statements generalizing start with
  | nil => rfl
  | cons statement statements ih => simp [placeFrom, ih]

/-- A statement is placed behind all those before it. -/
theorem getElem?_placeFrom {statements : List Statement} {n : Nat} {statement : Statement}
    (h : statements[n]? = some statement) (start : Nat) :
    ∃ instruction, (placeFrom start statements)[n]? = some instruction
      ∧ instruction.start
        = start + (((placeFrom start statements).take n).map Instruction.length).sum
      ∧ instruction.bytes = statement.encode instruction.start := by
  induction statements generalizing n start with
  | nil => cases h
  | cons first others ih =>
    cases n with
    | zero =>
      obtain rfl : first = statement := Option.some.inj h
      exact ⟨⟨start, first.encode start⟩, rfl, rfl, rfl⟩
    | succ n =>
      obtain ⟨instruction, hget, hstart, hbytes⟩ := ih h (start + (first.encode start).length)
      refine ⟨instruction, hget, ?_, hbytes⟩
      rw [hstart, placeFrom, List.take_succ_cons, List.map_cons, List.sum_cons, Nat.add_assoc]
      rfl

end Statement

/-- Disassembling undoes assembling.  The instructions of an assembled program are its statements,
one for one and in order; each starts where those before it end, and answers every question by the
operands of its statement.  All opcodes of fixed length are covered, with any operand bytes. -/
theorem Code.instructions_assemble {code : Code} {statements : List Statement}
    (h : code.bytes = Statement.assemble statements) :
    code.listing.fault = none ∧ code.instructions.length = statements.length
      ∧ (∀ n statement, statements[n]? = some statement →
          ∃ instruction, code.instructions[n]? = some instruction
            ∧ instruction.start = ((code.instructions.take n).map Instruction.length).sum
            ∧ instruction.bytes = statement.encode instruction.start
            ∧ instruction.meaning = statement.meaning)
      ∧ ∀ opcode operands, Opcode.operandLength? opcode = some operands.length →
          ∃ statement : Statement, ∀ start, statement.encode start = opcode :: operands := by
  have hlisting : code.listing = ⟨Statement.placeFrom 0 statements, none⟩ := by
    rw [Code.listing, h, Statement.decode_assemble]
  have hinstructions : code.instructions = Statement.placeFrom 0 statements := by
    rw [Code.instructions, hlisting]
  rw [hlisting, hinstructions]
  refine ⟨rfl, Statement.length_placeFrom 0 statements, fun n statement hstatement => ?_,
    fun opcode operands => Statement.exists_encode⟩
  obtain ⟨instruction, hget, hstart, hbytes⟩ := Statement.getElem?_placeFrom hstatement 0
  refine ⟨instruction, hget, by rw [hstart, Nat.zero_add], hbytes, ?_⟩
  rw [← statement.meaning_encode instruction.start, ← hbytes]

/-- A program with a widened increment, a load with its slot in the opcode, and a switch. -/
def Statement.sample : List Statement :=
  [wideIinc 256 (-1), shortLoad .int 0,
    tableswitch (fun _ => 0) 20 1 2 [20, 20] (by decide) (by decide), plain 0xb1 (by decide)]

def Code.assembledSample : Code := ⟨2, 2, Statement.assemble Statement.sample, [], []⟩

theorem Code.instructions_assemble_sample :
    (∃ increment, Code.assembledSample.instructions[0]? = some increment
        ∧ increment.isWide ∧ increment.index? = some 256 ∧ increment.value? = some (-1))
      ∧ ∃ switch, Code.assembledSample.instructions[2]? = some switch
          ∧ switch.switchTable? = some ⟨20, [(1, 20), (2, 20)]⟩ := by
  obtain ⟨-, -, hmeaning, -⟩ := Code.instructions_assemble
    (show Code.assembledSample.bytes = Statement.assemble Statement.sample from rfl)
  obtain ⟨increment, hincrement, -, -, hfirst⟩ := hmeaning 0 _ rfl
  obtain ⟨switch, hswitch, -, -, hthird⟩ := hmeaning 2 _ rfl
  refine ⟨⟨increment, hincrement, ?_, ?_, ?_⟩, switch, hswitch, ?_⟩
  · exact congrArg Meaning.isWide hfirst
  · exact congrArg Meaning.index? hfirst
  · exact congrArg Meaning.value? hfirst
  · exact congrArg Meaning.switchTable? hthird

end ClassFormat
