/-
# ClassFormat.Proofs.Bytecode.MachineLength: lengths in machine words

Lengths and offsets are whole numbers in this library, and words of sixty-four bits on a machine.
`Machine.lengthAt` computes the length of an instruction in such words, step by step, and halts at
the first step that does not have its exact result.  On code arrays of fewer than `2 ^ 32` bytes no
step does: the words of a switch have thirty-two bits, so the longest switch that can be declared
takes little more than `2 ^ 34` bytes, and one that does not fit the array is refused as such.
-/
import ClassFormat.Proofs.Bytecode.Locality
import ClassFormat.Proofs.Layout.Consumes
import Mathlib.Algebra.Group.Nat.Defs
import Mathlib.Algebra.Group.Int.Defs

namespace ClassFormat

open Instruction (pastEnd)

/-- Why a computation in machine words ends without a value. -/
inductive Halt where
  /-- A step has another result than the exact one. -/
  | inexact (exact : Int)
  /-- The code is refused. -/
  | refused (cause : Error)

namespace Machine

/-! ## Steps -/

/-- The result of a step, as long as its value is the exact one. -/
def exactly {α : Type} (value : α → Int) (result : α) (exact : Int) : Except Halt α :=
  if value result = exact then .ok result else .error (.inexact exact)

/-- The value of a word without a sign. -/
def unsigned (word : UInt64) : Int := word.toNat

def add (a b : UInt64) : Except Halt UInt64 := exactly unsigned (a + b) (unsigned a + unsigned b)

def sub (a b : UInt64) : Except Halt UInt64 := exactly unsigned (a - b) (unsigned a - unsigned b)

def mul (a b : UInt64) : Except Halt UInt64 := exactly unsigned (a * b) (unsigned a * unsigned b)

def addSigned (a b : Int64) : Except Halt Int64 := exactly Int64.toInt (a + b) (a.toInt + b.toInt)

def subSigned (a b : Int64) : Except Halt Int64 := exactly Int64.toInt (a - b) (a.toInt - b.toInt)

/-- The word without a sign that has the bits of a word with one. -/
def dropSign (a : Int64) : Except Halt UInt64 := exactly unsigned a.toUInt64 a.toInt

/-! ## Lengths -/

/-- The bytes between the opcode of a switch and its operands. -/
def switchPadding (start : UInt64) : Except Halt UInt64 := sub 3 (start % 4)

/-- The four-byte number at a position of the array. -/
def wordAt (code : List UInt8) (position : UInt64) : Except Halt Int32 := do
  let stop ← add position 4
  if stop.toNat ≤ code.length then
    return (UInt32.ofNat (bigEndian ((code.drop position.toNat).take 4))).toInt32
  else throw (.refused (pastEnd position.toNat))

/-- The position of the operands of the switch at an offset. -/
def operandsAt (start : UInt64) : Except Halt UInt64 := do
  add (← add start 1) (← switchPadding start)

/-- The length of the switch at an offset that has `count` entries of `size` bytes behind its first
`fixed` operand bytes. -/
def switchLength (start fixed size count : UInt64) : Except Halt UInt64 := do
  add (← add (← add 1 (← switchPadding start)) fixed) (← mul size count)

/-- The number of keys from `low` to `high`. -/
def keyCount (low high : Int32) : Except Halt UInt64 := do
  dropSign (← addSigned (← subSigned high.toInt64 low.toInt64) 1)

/-- The length of the `tableswitch` at an offset. -/
def tableswitchLength (code : List UInt8) (start : UInt64) : Except Halt UInt64 := do
  let operands ← operandsAt start
  let low ← wordAt code (← add operands 4)
  let high ← wordAt code (← add operands 8)
  if high < low then
    throw (.refused (.malformed (.switchBounds start.toNat low.toInt high.toInt)))
  switchLength start 12 4 (← keyCount low high)

/-- The length of the `lookupswitch` at an offset. -/
def lookupswitchLength (code : List UInt8) (start : UInt64) : Except Halt UInt64 := do
  let operands ← operandsAt start
  let pairs ← wordAt code (← add operands 4)
  if pairs < 0 then throw (.refused (.malformed (.switchPairs start.toNat pairs.toInt)))
  switchLength start 8 8 (← dropSign pairs.toInt64)

/-- The length of the `wide` instruction at an offset. -/
def wideLength (code : List UInt8) (start : UInt64) : Except Halt UInt64 := do
  let position ← add start 1
  match code[position.toNat]? with
  | none => throw (.refused (pastEnd position.toNat))
  | some widened =>
    if widened = Opcode.iinc then return 6
    else if Opcode.isWidenable widened then return 4
    else throw (.refused (.malformed (.wideOpcode widened position.toNat)))

/-- The length that the instruction at an offset declares. -/
def declaredLength (code : List UInt8) (start : UInt64) : Except Halt UInt64 :=
  match code[start.toNat]? with
  | none => throw (.refused (pastEnd start.toNat))
  | some opcode =>
    if opcode = Opcode.tableswitch then tableswitchLength code start
    else if opcode = Opcode.lookupswitch then lookupswitchLength code start
    else if opcode = Opcode.wide then wideLength code start
    else
      match Opcode.operandLength? opcode with
      | some length => add 1 (UInt64.ofNat length)
      | none => throw (.refused (.malformed (.undefinedOpcode opcode start.toNat)))

/-- The length of the instruction at an offset of a code array, if it ends within the array. -/
def lengthAt (code : List UInt8) (start : UInt64) : Except Halt UInt64 := do
  let length ← declaredLength code start
  let stop ← add start length
  if UInt64.ofNat code.length < stop then
    throw (.refused (pastEnd (← sub stop 1).toNat))
  else return length

/-! ## Agreement with whole numbers -/

/-- A computation in machine words ends as one in whole numbers does, with the same value or refused
for the same cause. -/
def Agrees {α β : Type} (value : α → β) (machine : Except Halt α) (exact : Except Error β) : Prop :=
  machine.map value = exact.mapError Halt.refused

namespace Agrees

variable {α β γ δ : Type} {value : α → β} {machine : Except Halt α} {exact : Except Error β}
  {value' : γ → δ} {next : α → Except Halt γ}

theorem ok {result : α} {number : β} (h : value result = number) :
    Agrees value (.ok result) (.ok number) := congrArg Except.ok h

theorem refused (cause : Error) : Agrees value (.error (.refused cause)) (.error cause) := rfl

theorem bind {exactNext : β → Except Error δ} (h : Agrees value machine exact)
    (hnext : ∀ result, exact = .ok (value result) →
      Agrees value' (next result) (exactNext (value result))) :
    Agrees value' (machine >>= next) (exact >>= exactNext) := by
  unfold Agrees at h
  cases machine with
  | error halt =>
    cases exact with
    | error cause =>
      cases h
      rfl
    | ok number => cases h
  | ok result =>
    cases exact with
    | error cause => cases h
    | ok number =>
      cases h
      exact hnext result rfl

/-- A step that has its exact result. -/
theorem step {number : β} {exactNext : Except Error δ} (h : Agrees value machine (.ok number))
    (hnext : ∀ result, value result = number → Agrees value' (next result) exactNext) :
    Agrees value' (machine >>= next) exactNext := by
  unfold Agrees at h
  cases machine with
  | error halt => cases h
  | ok result => exact hnext result (Except.ok.inj h)

theorem ite {condition : Prop} [Decidable condition] {machine' : Except Halt α}
    {exact' : Except Error β} (h : condition → Agrees value machine exact)
    (h' : ¬ condition → Agrees value machine' exact') :
    Agrees value (if condition then machine else machine')
      (if condition then exact else exact') := by
  by_cases hcondition : condition
  · rw [if_pos hcondition, if_pos hcondition]
    exact h hcondition
  · rw [if_neg hcondition, if_neg hcondition]
    exact h' hcondition

/-- A check on machine words that refuses what the check on their values does. -/
theorem refuse {bad exactBad : Prop} [Decidable bad] [Decidable exactBad] {cause : Error}
    (hbad : bad ↔ exactBad) (h : ¬ exactBad → Agrees value machine exact) :
    Agrees value (do if bad then throw (.refused cause)
                     machine)
      (do if exactBad then throw cause
          exact) := by
  by_cases hexact : exactBad
  · rw [if_pos hexact, if_pos (hbad.mpr hexact)]
    exact .refused cause
  · rw [if_neg hexact, if_neg (mt hbad.mp hexact)]
    exact h hexact

theorem eq_refused {cause : Error} (h : Agrees value machine (.error cause)) :
    machine = .error (.refused cause) := by
  unfold Agrees at h
  cases machine with
  | error halt => exact congrArg Except.error (Except.error.inj h)
  | ok result => cases h

/-- What agrees with a computation in whole numbers has no inexact step. -/
theorem ne_inexact (h : Agrees value machine exact) (number : Int) :
    machine ≠ .error (.inexact number) := by
  rintro rfl
  cases exact <;> cases h

end Agrees

/-! ## Exact steps -/

theorem agrees_exactly {α : Type} {value : α → Int} {result : α} {exact : Int}
    (h : value result = exact) : Agrees value (exactly value result exact) (.ok exact) := by
  rw [exactly, if_pos h]
  exact .ok h

/-- The value of a word without a sign is a natural number. -/
theorem Agrees.toNat {machine : Except Halt UInt64} {number : Nat}
    (h : Agrees unsigned machine (.ok (number : Int))) :
    Agrees UInt64.toNat machine (.ok number) := by
  unfold Agrees at h
  cases machine with
  | error halt => cases h
  | ok result => exact .ok (Int.ofNat.inj (Except.ok.inj h))

section Steps

variable (a b : UInt64)

theorem agrees_add (h : a.toNat + b.toNat < 2 ^ 64) :
    Agrees UInt64.toNat (add a b) (.ok (a.toNat + b.toNat)) := by
  apply Agrees.toNat
  apply agrees_exactly
  rw [unsigned, UInt64.toNat_add, Nat.mod_eq_of_lt h]
  rfl

/-- The largest word has no successor. -/
example : add (-1) 1 = .error (.inexact (2 ^ 64)) := rfl

theorem agrees_mul (h : a.toNat * b.toNat < 2 ^ 64) :
    Agrees UInt64.toNat (mul a b) (.ok (a.toNat * b.toNat)) := by
  apply Agrees.toNat
  apply agrees_exactly
  rw [unsigned, UInt64.toNat_mul, Nat.mod_eq_of_lt h]
  rfl

theorem agrees_sub (h : b.toNat ≤ a.toNat) :
    Agrees UInt64.toNat (sub a b) (.ok (a.toNat - b.toNat)) := by
  apply Agrees.toNat
  rw [Int.ofNat_sub h]
  apply agrees_exactly
  rw [unsigned, UInt64.toNat_sub_of_le _ _ (UInt64.le_iff_toNat_le.mpr h), Int.ofNat_sub h]
  rfl

variable (x y : Int64)

theorem agrees_addSigned (hlow : -2 ^ 63 ≤ x.toInt + y.toInt) (hhigh : x.toInt + y.toInt < 2 ^ 63) :
    Agrees Int64.toInt (addSigned x y) (.ok (x.toInt + y.toInt)) := by
  apply agrees_exactly
  rw [Int64.toInt_add, Int.bmod_eq_of_le] <;> omega

theorem agrees_subSigned (hlow : -2 ^ 63 ≤ x.toInt - y.toInt) (hhigh : x.toInt - y.toInt < 2 ^ 63) :
    Agrees Int64.toInt (subSigned x y) (.ok (x.toInt - y.toInt)) := by
  apply agrees_exactly
  rw [Int64.toInt_sub, Int.bmod_eq_of_le] <;> omega

variable {x} in
theorem agrees_dropSign (h : 0 ≤ x.toInt) :
    Agrees UInt64.toNat (dropSign x) (.ok x.toInt.toNat) := by
  apply Agrees.toNat
  rw [Int.toNat_of_nonneg h]
  apply agrees_exactly
  have hbits : x.toInt = (x.toUInt64.toNat : Int).bmod (2 ^ 64) :=
    BitVec.toInt_eq_toNat_bmod x.toBitVec
  have hlt := x.toUInt64.toNat_lt
  rw [Int.bmod_def] at hbits
  -- Only a negative number has other bits than its value without a sign.
  show (x.toUInt64.toNat : Int) = x.toInt
  omega

end Steps

/-! ## Words and lengths -/

theorem agrees_switchPadding (start : UInt64) :
    Agrees UInt64.toNat (switchPadding start) (.ok (Instruction.switchPadding start.toNat)) := by
  have hmod : (start % 4).toNat = start.toNat % 4 := UInt64.toNat_mod start 4
  have hstep : Agrees UInt64.toNat (switchPadding start) (.ok (3 - (start % 4).toNat)) := by
    apply agrees_sub
    show (start % 4).toNat ≤ 3
    omega
  rwa [hmod] at hstep

theorem toInt_bigEndian {bytes : List UInt8} (h : bytes.length = 4) :
    (UInt32.ofNat (bigEndian bytes)).toInt32.toInt = bigEndianSigned bytes := by
  have hlt : bigEndian bytes < 4294967296 := by
    have hbound := bigEndian_lt bytes
    rwa [h] at hbound
  have hbits := BitVec.toInt_eq_toNat_bmod (UInt32.ofNat (bigEndian bytes)).toBitVec
  rw [UInt32.toNat_toBitVec, UInt32.toNat_ofNat_of_lt' hlt] at hbits
  rw [bigEndianSigned, h]
  exact hbits

/-- A position in the array is a distance from the instruction. -/
theorem agrees_wordAt {code : List UInt8} {position : UInt64} {start distance : Nat}
    (hposition : position.toNat = start + distance) (hsmall : start + distance + 4 < 2 ^ 64) :
    Agrees Int32.toInt (wordAt code position)
      (Instruction.wordAt start (code.drop start) distance) := by
  rw [Instruction.wordAt_eq, List.length_drop, List.drop_drop, ← hposition]
  apply (agrees_add position 4 (show position.toNat + 4 < 2 ^ 64 by omega)).step
  intro stop (hstop : stop.toNat = position.toNat + 4)
  by_cases hinside : distance + 4 ≤ code.length - start
  · rw [if_pos hinside, if_pos (by omega)]
    apply Agrees.ok
    apply toInt_bigEndian
    rw [List.length_take, List.length_drop]
    omega
  · rw [if_neg hinside, if_neg (by omega)]
    exact .refused _

section Lengths

variable {code : List UInt8} {start : UInt64}

theorem agrees_operandsAt (hstart : start.toNat < 2 ^ 32) :
    Agrees UInt64.toNat (operandsAt start)
      (.ok (start.toNat + (1 + Instruction.switchPadding start.toNat))) := by
  have hle := Instruction.switchPadding_le start.toNat
  apply (agrees_add start 1 (show start.toNat + 1 < 2 ^ 64 by omega)).step
  intro behind (hbehind : behind.toNat = start.toNat + 1)
  apply (agrees_switchPadding start).step
  intro padding hpadding
  rw [← Nat.add_assoc, ← hbehind, ← hpadding]
  exact agrees_add behind padding (by omega)

/-- With no more entries than there are numbers of thirty-two bits, a switch has its exact
length. -/
theorem agrees_switchLength {fixed size count : UInt64} (hfixed : fixed.toNat ≤ 12)
    (hsize : size.toNat ≤ 8) (hcount : count.toNat ≤ 2 ^ 32) :
    Agrees UInt64.toNat (switchLength start fixed size count)
      (.ok (1 + Instruction.switchPadding start.toNat + fixed.toNat
        + size.toNat * count.toNat)) := by
  have hle := Instruction.switchPadding_le start.toNat
  have hentries : size.toNat * count.toNat ≤ 8 * 2 ^ 32 := Nat.mul_le_mul hsize hcount
  apply (agrees_switchPadding start).step
  intro padding hpadding
  apply (agrees_add 1 padding (show 1 + padding.toNat < 2 ^ 64 by omega)).step
  intro front (hfront : front.toNat = 1 + padding.toNat)
  apply (agrees_add front fixed (by omega)).step
  intro head hhead
  apply (agrees_mul size count (by omega)).step
  intro entries hentries
  rw [← hentries, ← hpadding, ← hfront, ← hhead]
  exact agrees_add head entries (by omega)

/-- The bounds of a `tableswitch` have thirty-two bits, so the number of its keys has
thirty-three. -/
theorem agrees_keyCount {low high : Int32} (h : low.toInt ≤ high.toInt) :
    Agrees UInt64.toNat (keyCount low high) (.ok (high.toInt - low.toInt + 1).toNat) := by
  have hlow := low.le_toInt
  have hhigh := high.toInt_lt
  have hdifference : Agrees Int64.toInt (subSigned high.toInt64 low.toInt64)
      (.ok (high.toInt - low.toInt)) := by
    have hstep := agrees_subSigned high.toInt64 low.toInt64
    rw [Int32.toInt_toInt64, Int32.toInt_toInt64] at hstep
    exact hstep (by omega) (by omega)
  -- A difference of thirty-three bits leaves room for the one that is added.
  apply hdifference.step
  intro difference hvalue
  apply (agrees_addSigned difference 1 (show -2 ^ 63 ≤ difference.toInt + 1 by omega)
    (show difference.toInt + 1 < 2 ^ 63 by omega)).step
  intro count (hcount : count.toInt = difference.toInt + 1)
  rw [← hvalue, ← hcount]
  exact agrees_dropSign (by omega)

theorem agrees_tableswitchLength (hstart : start.toNat < 2 ^ 32) :
    Agrees UInt64.toNat (tableswitchLength code start)
      (Instruction.tableswitchLength start.toNat (code.drop start.toNat)) := by
  have hle := Instruction.switchPadding_le start.toNat
  apply (agrees_operandsAt hstart).step
  intro operands hoperands
  apply (agrees_add operands 4 (show operands.toNat + 4 < 2 ^ 64 by omega)).step
  intro lowAt (hlowAt : lowAt.toNat = operands.toNat + 4)
  apply (agrees_wordAt (by omega) (by omega)).bind
  intro low hlow
  apply (agrees_add operands 8 (show operands.toNat + 8 < 2 ^ 64 by omega)).step
  intro highAt (hhighAt : highAt.toNat = operands.toNat + 8)
  apply (agrees_wordAt (by omega) (by omega)).bind
  intro high hhigh
  apply Agrees.refuse Int32.lt_iff_toInt_lt
  intro hbounds
  have hlowBound := low.le_toInt
  have hhighBound := high.toInt_lt
  apply (agrees_keyCount (Int.not_lt.mp hbounds)).step
  intro count hcount
  have hlength : Agrees UInt64.toNat (switchLength start 12 4 count)
      (.ok (1 + Instruction.switchPadding start.toNat + 12 + 4 * count.toNat)) :=
    agrees_switchLength (by decide) (by decide) (by omega)
  rwa [hcount] at hlength

theorem agrees_lookupswitchLength (hstart : start.toNat < 2 ^ 32) :
    Agrees UInt64.toNat (lookupswitchLength code start)
      (Instruction.lookupswitchLength start.toNat (code.drop start.toNat)) := by
  have hle := Instruction.switchPadding_le start.toNat
  apply (agrees_operandsAt hstart).step
  intro operands hoperands
  apply (agrees_add operands 4 (show operands.toNat + 4 < 2 ^ 64 by omega)).step
  intro pairsAt (hpairsAt : pairsAt.toNat = operands.toNat + 4)
  apply (agrees_wordAt (by omega) (by omega)).bind
  intro pairs hpairs
  have hneg : pairs < 0 ↔ pairs.toInt < 0 := Int32.lt_iff_toInt_lt
  apply Agrees.refuse hneg
  intro hcount
  have hbound := pairs.toInt_lt
  have hwidened := pairs.toInt_toInt64
  apply (agrees_dropSign (show 0 ≤ pairs.toInt64.toInt by omega)).step
  intro count hvalue
  rw [hwidened] at hvalue
  have hlength : Agrees UInt64.toNat (switchLength start 8 8 count)
      (.ok (1 + Instruction.switchPadding start.toNat + 8 + 8 * count.toNat)) :=
    agrees_switchLength (by decide) (by decide) (by omega)
  rwa [hvalue] at hlength

theorem agrees_wideLength (hstart : start.toNat < 2 ^ 32) :
    Agrees UInt64.toNat (wideLength code start)
      (Instruction.wideLength start.toNat (code.drop (start.toNat + 1))) := by
  apply (agrees_add start 1 (show start.toNat + 1 < 2 ^ 64 by omega)).step
  intro position (hposition : position.toNat = start.toNat + 1)
  rw [hposition, ← List.head?_drop]
  cases code.drop (start.toNat + 1) with
  | nil => exact .refused _
  | cons widened others =>
    apply Agrees.ite
    · exact fun _ => .ok rfl
    · intro _
      apply Agrees.ite
      · exact fun _ => .ok rfl
      · exact fun _ => .refused _

theorem operandLength?_le {opcode : UInt8} {length : Nat}
    (h : Opcode.operandLength? opcode = some length) : length ≤ 4 := by
  unfold Opcode.operandLength? at h
  -- Four groups of opcodes that have operands, then the special ones and those that have none.
  iterate 4
    split at h
    · cases h
      decide
  split at h
  · cases h
  · obtain ⟨name, -, rfl⟩ := Option.map_eq_some_iff.mp h
    decide

theorem agrees_declaredLength (hcode : code.length < 2 ^ 32) (start : UInt64) :
    Agrees UInt64.toNat (declaredLength code start)
      (Instruction.declaredLength start.toNat (code.drop start.toNat)) := by
  rw [declaredLength, ← List.head?_drop]
  cases hdrop : code.drop start.toNat with
  | nil => exact .refused _
  | cons opcode operands =>
    have hstart : start.toNat < 2 ^ 32 := by
      have hlength := congrArg List.length hdrop
      rw [List.length_drop, List.length_cons] at hlength
      omega
    apply Agrees.ite
    · intro _
      rw [← hdrop]
      exact agrees_tableswitchLength hstart
    intro _
    apply Agrees.ite
    · intro _
      rw [← hdrop]
      exact agrees_lookupswitchLength hstart
    intro _
    apply Agrees.ite
    · intro _
      have hoperands : operands = code.drop (start.toNat + 1) := by
        rw [← List.tail_drop, hdrop, List.tail_cons]
      rw [hoperands]
      exact agrees_wideLength hstart
    intro _
    cases hoperands : Opcode.operandLength? opcode with
    | none => exact .refused _
    | some length =>
      have hle := operandLength?_le hoperands
      have hlength : (UInt64.ofNat length).toNat = length :=
        UInt64.toNat_ofNat_of_lt' (show length < 2 ^ 64 by omega)
      have hstep := agrees_add 1 (UInt64.ofNat length)
      rw [hlength] at hstep
      exact hstep (show 1 + length < 2 ^ 64 by omega)

/-! ## Whole arrays -/

/-- A word of four bytes has thirty-two bits. -/
theorem wordAt_bounds {start distance : Nat} {bytes : List UInt8} {word : Int}
    (h : Instruction.wordAt start bytes distance = .ok word) : -2 ^ 31 ≤ word ∧ word < 2 ^ 31 := by
  rw [Instruction.wordAt_eq] at h
  split at h
  · rename_i hinside
    have hfour : ((bytes.drop distance).take 4).length = 4 := by
      rw [List.length_take, List.length_drop]
      omega
    rw [← toInt_bigEndian hfour] at h
    cases h
    exact ⟨Int32.le_toInt _, Int32.toInt_lt _⟩
  · cases h

/-- The longest instruction that can be declared is a switch with a key for every number. -/
theorem declaredLength_le {start length : Nat} {bytes : List UInt8}
    (h : Instruction.declaredLength start bytes = .ok length) : length ≤ 16 + 4 * 2 ^ 32 := by
  have hle := Instruction.switchPadding_le start
  unfold Instruction.declaredLength at h
  split at h
  · cases h
  · rename_i opcode operands
    split at h
    · obtain ⟨low, hlow, high, hhigh, -, rfl⟩ := Instruction.tableswitchLength_eq_ok_iff.mp h
      have hlowBounds := wordAt_bounds hlow
      have hhighBounds := wordAt_bounds hhigh
      omega
    · split at h
      · obtain ⟨pairs, hpairs, -, rfl⟩ := Instruction.lookupswitchLength_eq_ok_iff.mp h
        have hbounds := wordAt_bounds hpairs
        omega
      · split at h
        · cases operands with
          | nil => cases h
          | cons widened others =>
            have hwide := Instruction.wideLength_cons_eq_ok_iff.mp h
            omega
        · split at h
          · rename_i found hfound
            have hfour := operandLength?_le hfound
            cases h
            omega
          · cases h

/-- On an array of fewer than `2 ^ 32` bytes every step has its exact result, at any offset. -/
theorem agrees_lengthAt (hcode : code.length < 2 ^ 32) (start : UInt64) :
    Agrees UInt64.toNat (lengthAt code start) (Instruction.lengthAt code start.toNat) := by
  rw [Instruction.lengthAt_eq]
  apply (agrees_declaredLength hcode start).bind
  intro length hlength
  have hle := declaredLength_le hlength
  have hpos := Instruction.declaredLength_pos hlength
  -- There is an opcode at the offset, so the offset is small however many bits it could have.
  have hstart : start.toNat < code.length := by
    apply Nat.lt_of_not_le
    intro hbehind
    rw [List.drop_eq_nil_of_le hbehind] at hlength
    cases hlength
  have hsize : (UInt64.ofNat code.length).toNat = code.length :=
    UInt64.toNat_ofNat_of_lt' (show code.length < 2 ^ 64 by omega)
  apply (agrees_add start length (by omega)).step
  intro stop hstop
  by_cases hinside : start.toNat + length.toNat ≤ code.length
  · rw [if_pos hinside, if_neg (by rw [UInt64.lt_iff_toNat_lt]; omega)]
    exact .ok rfl
  · rw [if_neg hinside, if_pos (by rw [UInt64.lt_iff_toNat_lt]; omega)]
    apply (agrees_sub stop 1 (show 1 ≤ stop.toNat by omega)).step
    intro last (hlast : last.toNat = stop.toNat - 1)
    rw [hlast, hstop]
    exact .refused _

end Lengths

end Machine

/-! ## Extreme switches -/

namespace Instruction

variable {code : List UInt8} {start : Nat}

/-- A length that goes over the end of the array is refused where the instruction would end. -/
theorem lengthAt_of_declaredLength {length : Nat}
    (h : declaredLength start (code.drop start) = .ok length)
    (hbeyond : code.length < start + length) :
    lengthAt code start = .error (pastEnd (start + length - 1)) := by
  rw [lengthAt_eq, h]
  exact if_neg (by omega)

/-- A `tableswitch` with a key for every number of thirty-two bits. -/
theorem lengthAt_of_all_keys (hcode : code.length < 2 ^ 32)
    (hopcode : code[start]? = some Opcode.tableswitch)
    (hlow : wordAt start (code.drop start) (1 + switchPadding start + 4) = .ok (-2 ^ 31))
    (hhigh : wordAt start (code.drop start) (1 + switchPadding start + 8) = .ok (2 ^ 31 - 1)) :
    lengthAt code start
      = .error (pastEnd (start + (1 + switchPadding start + 12 + 4 * 2 ^ 32) - 1)) := by
  have hbeyond : code.length < start + (1 + switchPadding start + 12 + 4 * 2 ^ 32) :=
    Nat.lt_of_lt_of_le hcode (by omega)
  refine lengthAt_of_declaredLength ?_ hbeyond
  obtain ⟨hinside, hfirst⟩ := List.getElem?_eq_some_iff.mp hopcode
  have hlength : tableswitchLength start (code.drop start)
      = .ok (1 + switchPadding start + 12 + 4 * 2 ^ 32) :=
    tableswitchLength_eq_ok_iff.mpr ⟨_, hlow, _, hhigh, by decide, by omega⟩
  rw [List.drop_eq_getElem_cons hinside, hfirst] at hlength ⊢
  exact hlength

/-- A `lookupswitch` with as many pairs as can be said. -/
theorem lengthAt_of_most_pairs (hcode : code.length < 2 ^ 32)
    (hopcode : code[start]? = some Opcode.lookupswitch)
    (hpairs : wordAt start (code.drop start) (1 + switchPadding start + 4) = .ok (2 ^ 31 - 1)) :
    lengthAt code start
      = .error (pastEnd (start + (1 + switchPadding start + 8 + 8 * (2 ^ 31 - 1)) - 1)) := by
  have hbeyond : code.length < start + (1 + switchPadding start + 8 + 8 * (2 ^ 31 - 1)) :=
    Nat.lt_of_lt_of_le hcode (by omega)
  refine lengthAt_of_declaredLength ?_ hbeyond
  obtain ⟨hinside, hfirst⟩ := List.getElem?_eq_some_iff.mp hopcode
  have hlength : lookupswitchLength start (code.drop start)
      = .ok (1 + switchPadding start + 8 + 8 * (2 ^ 31 - 1)) :=
    lookupswitchLength_eq_ok_iff.mpr ⟨_, hpairs, by decide, by omega⟩
  rw [List.drop_eq_getElem_cons hinside, hfirst] at hlength ⊢
  exact hlength

/-- An instruction has its length by itself, and machine words are enough to compute it: below
`2 ^ 32` bytes no step of the computation is inexact, and the extreme switches are refused as too
long. -/
theorem lengthAt_local_and_exact :
    (∀ (code : List UInt8) (start length : Nat),
        lengthAt code start = .ok length → IsLocal code start length)
    ∧ ∀ code : List UInt8, code.length < 2 ^ 32 → ∀ start : UInt64,
        Machine.Agrees UInt64.toNat (Machine.lengthAt code start) (lengthAt code start.toNat)
        ∧ (∀ exact, Machine.lengthAt code start ≠ .error (.inexact exact))
        ∧ (code[start.toNat]? = some Opcode.tableswitch →
            wordAt start.toNat (code.drop start.toNat) (1 + switchPadding start.toNat + 4)
              = .ok (-2 ^ 31) →
            wordAt start.toNat (code.drop start.toNat) (1 + switchPadding start.toNat + 8)
              = .ok (2 ^ 31 - 1) →
            Machine.lengthAt code start = .error (.refused (pastEnd
              (start.toNat + (1 + switchPadding start.toNat + 12 + 4 * 2 ^ 32) - 1))))
        ∧ (code[start.toNat]? = some Opcode.lookupswitch →
            wordAt start.toNat (code.drop start.toNat) (1 + switchPadding start.toNat + 4)
              = .ok (2 ^ 31 - 1) →
            Machine.lengthAt code start = .error (.refused (pastEnd
              (start.toNat + (1 + switchPadding start.toNat + 8 + 8 * (2 ^ 31 - 1)) - 1)))) := by
  refine ⟨fun code start length => isLocal_of_lengthAt, ?_⟩
  intro code hcode start
  have hagrees := Machine.agrees_lengthAt hcode start
  refine ⟨hagrees, hagrees.ne_inexact, ?_, ?_⟩
  · intro hopcode hlow hhigh
    rw [lengthAt_of_all_keys hcode hopcode hlow hhigh] at hagrees
    exact hagrees.eq_refused
  · intro hopcode hpairs
    rw [lengthAt_of_most_pairs hcode hopcode hpairs] at hagrees
    exact hagrees.eq_refused

/-- A `tableswitch` of two keys moved by four bytes and behind another byte, a `bipush` at another
place, and the switches with the most keys and the most pairs. -/
theorem lengthAt_local_and_exact_switches :
    let table : List UInt8 :=
      [0, 0xaa, 0, 0, 0, 0, 0, 9, 255, 255, 255, 255, 0, 0, 0, 0, 0, 0, 0, 5, 0, 0, 0, 7, 0xaa, 1]
    lengthAt ([0, 0, 0, 0] ++ table ++ [0xb1]) (4 + 1) = .ok 23
    ∧ lengthAt (0xff :: table.drop 1) 1 = .ok 23
    ∧ lengthAt [0, 0x10, 9] 1 = .ok 2
    ∧ Machine.Agrees UInt64.toNat (Machine.lengthAt table 1) (.ok 23)
    ∧ Machine.lengthAt [0xaa, 0, 0, 0, 0, 0, 0, 0, 0x80, 0, 0, 0, 0x7f, 0xff, 0xff, 0xff] 0
        = .error (.refused (pastEnd 17179869199))
    ∧ Machine.lengthAt [0xab, 0, 0, 0, 0, 0, 0, 0, 0x7f, 0xff, 0xff, 0xff] 0
        = .error (.refused (pastEnd 17179869187)) := by
  intro table
  have htable : lengthAt table 1 = .ok 23 := by decide +kernel
  have hpush : lengthAt [0x10, 7] 0 = .ok 2 := by decide +kernel
  have hlocal := lengthAt_local_and_exact.1 table 1 23 htable
  refine ⟨?_, ?_, ?_, ?_, ?_, ?_⟩
  · exact hlocal.shifted [0, 0, 0, 0] [0xb1] (by decide)
  · apply hlocal.surrounded
    intro i hstart hstop
    cases i with
    | zero => omega
    | succ i => rfl
  · exact (lengthAt_local_and_exact.1 [0x10, 7] 0 2 hpush).anywhere 0x10 rfl (by decide) (by decide)
      [0, 0x10, 9] 1 rfl (by decide)
  · rw [← htable]
    exact (lengthAt_local_and_exact.2 table (by decide) 1).1
  · exact (lengthAt_local_and_exact.2
      [0xaa, 0, 0, 0, 0, 0, 0, 0, 0x80, 0, 0, 0, 0x7f, 0xff, 0xff, 0xff] (by decide) 0).2.2.1
      (by decide +kernel) (by decide +kernel) (by decide +kernel)
  · exact (lengthAt_local_and_exact.2
      [0xab, 0, 0, 0, 0, 0, 0, 0, 0x7f, 0xff, 0xff, 0xff] (by decide) 0).2.2.2
      (by decide +kernel) (by decide +kernel)

end Instruction

end ClassFormat
