/-
# ClassFormat.Proofs.Bytecode.Locality: what the length of an instruction depends on

The length of an instruction is decided by its own bytes and, for the padding of a switch, by the
remainder of its offset by four.  What stands in front of the instruction or behind it has no
part in it: the instruction can be moved by a multiple of four, and all bytes around it can be
changed.  The opcodes that are neither switches nor `wide` decide the length alone.
-/
import ClassFormat.Proofs.Bytecode.Tiling

namespace ClassFormat

theorem splitExact_eq {α : Type} (n : Nat) (xs : List α) :
    splitExact n xs = if n ≤ xs.length then some (xs.take n, xs.drop n) else none := by
  split
  · rename_i hle
    exact splitExact_eq_some_iff.mpr
      ⟨(List.take_append_drop n xs).symm, List.length_take_of_le hle⟩
  · rename_i hlt
    apply Option.eq_none_iff_forall_ne_some.mpr
    rintro ⟨front, rest⟩ hsplit
    obtain ⟨rfl, rfl⟩ := splitExact_eq_some_iff.mp hsplit
    simp at hlt

namespace Instruction

/-! ## Words and lengths, by the bytes that are there -/

theorem wordAt_eq (start : Nat) (bytes : List UInt8) (distance : Nat) :
    wordAt start bytes distance
      = if distance + 4 ≤ bytes.length
        then .ok (bigEndianSigned ((bytes.drop distance).take 4))
        else .error (pastEnd (start + distance)) := by
  rw [wordAt, splitExact_eq, List.length_drop]
  by_cases hinside : distance + 4 ≤ bytes.length
  · rw [if_pos hinside, if_pos (by omega)]
  · rw [if_neg hinside, if_neg (by omega)]

/-- The declared length is the length as long as the instruction ends within the array. -/
theorem lengthAt_eq (code : List UInt8) (start : Nat) :
    lengthAt code start = declaredLength start (code.drop start) >>= fun length =>
      if start + length ≤ code.length then .ok length
      else .error (pastEnd (start + length - 1)) := by
  rw [lengthAt, next]
  cases hdeclared : declaredLength start (code.drop start) with
  | error cause => rfl
  | ok length =>
    have hpos := declaredLength_pos hdeclared
    simp only [bind, Except.bind, splitExact_eq, List.length_drop]
    by_cases hinside : start + length ≤ code.length
    · rw [if_pos hinside, if_pos (by omega)]
      show Except.ok ((code.drop start).take length).length = _
      rw [List.length_take_of_le (by rw [List.length_drop]; omega)]
    · rw [if_neg hinside, if_neg (by omega)]
      rfl

theorem lengthAt_eq_ok_iff {code : List UInt8} {start length : Nat} :
    lengthAt code start = .ok length
      ↔ declaredLength start (code.drop start) = .ok length ∧ start + length ≤ code.length := by
  rw [lengthAt_eq, bind_eq_ok_iff]
  constructor
  · rintro ⟨declared, hdeclared, h⟩
    split at h
    · rename_i hinside
      cases h
      exact ⟨hdeclared, hinside⟩
    · cases h
  · rintro ⟨hdeclared, hinside⟩
    exact ⟨length, hdeclared, if_pos hinside⟩

/-- A length comes out of a check and a computation only if the check passes. -/
theorem refuse_eq_ok_iff {bad : Prop} [Decidable bad] {cause : Error} {computed length : Nat} :
    (do if bad then throw cause
        return computed : Except Error Nat) = .ok length ↔ ¬ bad ∧ length = computed := by
  by_cases hbad : bad
  · simp [hbad, throw, throwThe, MonadExceptOf.throw, bind, Except.bind]
  · simp [hbad, pure, Except.pure, eq_comm]

theorem tableswitchLength_eq_ok_iff {start length : Nat} {bytes : List UInt8} :
    tableswitchLength start bytes = .ok length
      ↔ ∃ low, wordAt start bytes (1 + switchPadding start + 4) = .ok low
        ∧ ∃ high, wordAt start bytes (1 + switchPadding start + 8) = .ok high ∧ low ≤ high
          ∧ length = 1 + switchPadding start + 12 + 4 * (high - low + 1).toNat := by
  simp only [tableswitchLength, bind_eq_ok_iff, refuse_eq_ok_iff, Int.not_lt]

theorem lookupswitchLength_eq_ok_iff {start length : Nat} {bytes : List UInt8} :
    lookupswitchLength start bytes = .ok length
      ↔ ∃ pairs, wordAt start bytes (1 + switchPadding start + 4) = .ok pairs ∧ 0 ≤ pairs
        ∧ length = 1 + switchPadding start + 8 + 8 * pairs.toNat := by
  simp only [lookupswitchLength, bind_eq_ok_iff, refuse_eq_ok_iff, Int.not_lt]

/-- The widened opcode alone decides the length of a `wide` instruction. -/
theorem wideLength_cons_eq_ok_iff {start length : Nat} {widened : UInt8} {others : List UInt8} :
    wideLength start (widened :: others) = .ok length
      ↔ widened = Opcode.iinc ∧ length = 6
        ∨ widened ≠ Opcode.iinc ∧ Opcode.isWidenable widened = true ∧ length = 4 := by
  rw [wideLength]
  by_cases hiinc : widened = Opcode.iinc
  · simp only [hiinc, if_true, Except.ok.injEq, ne_eq, not_true_eq_false, true_and, false_and,
      or_false]
    exact eq_comm
  · by_cases hwidenable : Opcode.isWidenable widened = true
    · simp only [hiinc, hwidenable, if_true, if_false, Except.ok.injEq, ne_eq, not_false_eq_true,
        true_and, false_and, false_or]
      exact eq_comm
    · simp [hiinc, hwidenable]

/-- An opcode that is neither a switch nor `wide` alone decides the length that it declares. -/
theorem declaredLength_cons_of_fixed {opcode : UInt8} (hswitch : Opcode.isSwitch opcode = false)
    (hwide : opcode ≠ Opcode.wide) (start : Nat) (operands : List UInt8) :
    declaredLength start (opcode :: operands)
      = (Opcode.operandLength? opcode).elim
          (.error (.malformed (.undefinedOpcode opcode start))) fun length => .ok (1 + length) := by
  simp only [Opcode.isSwitch, Bool.or_eq_false_iff, beq_eq_false_iff_ne] at hswitch
  rw [declaredLength, if_neg hswitch.1, if_neg hswitch.2, if_neg hwide]
  cases Opcode.operandLength? opcode <;> rfl

/-! ## Own bytes -/

/-- An offset that gives a switch the same padding. -/
theorem switchPadding_congr {start place : Nat} (h : place % 4 = start % 4) :
    switchPadding place = switchPadding start := by
  rw [switchPadding, switchPadding, h]

theorem switchPadding_le (start : Nat) : switchPadding start ≤ 3 := Nat.sub_le 3 _

section Own

variable {start place : Nat} {own rest behind : List UInt8}

/-- A word inside the first bytes is found there, whatever stands behind them. -/
theorem wordAt_append {distance : Nat} {word : Int}
    (h : wordAt start (own ++ rest) distance = .ok word) (hinside : distance + 4 ≤ own.length) :
    wordAt place (own ++ behind) distance = .ok word := by
  have hown : ∀ others : List UInt8,
      ((own ++ others).drop distance).take 4 = (own.drop distance).take 4 := by
    intro others
    rw [List.drop_append_of_le_length (by omega), List.take_append_of_le_length]
    rw [List.length_drop]
    omega
  rw [wordAt_eq, List.length_append, if_pos (by omega), hown] at h ⊢
  exact h

theorem tableswitchLength_append (hmod : place % 4 = start % 4)
    (h : tableswitchLength start (own ++ rest) = .ok own.length) :
    tableswitchLength place (own ++ behind) = .ok own.length := by
  rw [tableswitchLength_eq_ok_iff] at h ⊢
  obtain ⟨low, hlow, high, hhigh, hbounds, hlength⟩ := h
  rw [switchPadding_congr hmod]
  exact ⟨low, wordAt_append hlow (by omega), high, wordAt_append hhigh (by omega), hbounds, hlength⟩

theorem lookupswitchLength_append (hmod : place % 4 = start % 4)
    (h : lookupswitchLength start (own ++ rest) = .ok own.length) :
    lookupswitchLength place (own ++ behind) = .ok own.length := by
  rw [lookupswitchLength_eq_ok_iff] at h ⊢
  obtain ⟨pairs, hpairs, hcount, hlength⟩ := h
  rw [switchPadding_congr hmod]
  exact ⟨pairs, wordAt_append hpairs (by omega), hcount, hlength⟩

/-- The widened opcode is one of the instruction's own bytes, since no length is one. -/
theorem wideLength_append (h : wideLength start (own ++ rest) = .ok (own.length + 1)) :
    wideLength place (own ++ behind) = .ok (own.length + 1) := by
  cases own with
  | nil =>
    cases rest with
    | nil => cases h
    | cons widened others =>
      rw [List.nil_append, wideLength_cons_eq_ok_iff, List.length_nil] at h
      omega
  | cons widened others =>
    rw [List.cons_append, wideLength_cons_eq_ok_iff] at h ⊢
    exact h

/-- An instruction that ends where its own bytes do has its length at all offsets with the same
remainder, whatever stands behind it. -/
theorem declaredLength_append (hmod : place % 4 = start % 4)
    (h : declaredLength start (own ++ rest) = .ok own.length) :
    declaredLength place (own ++ behind) = .ok own.length := by
  cases own with
  | nil => exact absurd (declaredLength_pos h) (Nat.lt_irrefl 0)
  | cons opcode operands =>
    by_cases hswitch : Opcode.isSwitch opcode = false
    · by_cases hwide : opcode = Opcode.wide
      · subst hwide
        exact wideLength_append h
      · rw [List.cons_append, declaredLength_cons_of_fixed hswitch hwide] at h ⊢
        cases hoperands : Opcode.operandLength? opcode with
        | none =>
          rw [hoperands] at h
          cases h
        | some found =>
          rw [hoperands] at h
          exact h
    · simp only [Opcode.isSwitch, Bool.not_eq_false, Bool.or_eq_true, beq_iff_eq] at hswitch
      rcases hswitch with rfl | rfl
      · exact tableswitchLength_append hmod h
      · exact lookupswitchLength_append hmod h

end Own

/-! ## Places in a code array -/

section Places

variable {code other : List UInt8} {start place length : Nat}

/-- The same bytes at an offset with the same remainder are an instruction of the same length. -/
theorem lengthAt_of_take_eq (h : lengthAt code start = .ok length) (hmod : place % 4 = start % 4)
    (hbytes : (other.drop place).take length = (code.drop start).take length) :
    lengthAt other place = .ok length := by
  obtain ⟨-, hpos, -⟩ := lengthAt_eq_ok h
  obtain ⟨hdeclared, hinside⟩ := lengthAt_eq_ok_iff.mp h
  -- Both places have the same own bytes and differ in what stands behind them.
  generalize hown : (code.drop start).take length = own at hbytes
  have hcode : code.drop start = own ++ (code.drop start).drop length := by
    rw [← hown, List.take_append_drop]
  have hother : other.drop place = own ++ (other.drop place).drop length := by
    rw [← hbytes, List.take_append_drop]
  have hlength : own.length = length := by
    rw [← hown, List.length_take, List.length_drop]
    omega
  have hroom := congrArg List.length hother
  rw [List.length_append, List.length_drop] at hroom
  refine lengthAt_eq_ok_iff.mpr ⟨?_, by omega⟩
  rw [hcode, ← hlength] at hdeclared
  rw [hother, ← hlength]
  exact declaredLength_append hmod hdeclared

/-- Bytes in front, a multiple of four of them, and bytes behind do not matter. -/
theorem lengthAt_append (h : lengthAt code start = .ok length) {front : List UInt8}
    (hfront : 4 ∣ front.length) (behind : List UInt8) :
    lengthAt (front ++ code ++ behind) (front.length + start) = .ok length := by
  obtain ⟨-, -, hinside⟩ := lengthAt_eq_ok h
  apply lengthAt_of_take_eq h (by omega)
  rw [List.append_assoc, ← List.drop_drop, List.drop_left, List.drop_append_of_le_length (by omega),
    List.take_append_of_le_length]
  rw [List.length_drop]
  omega

/-- Bytes outside the instruction can be changed, and the array cut or prolonged behind it. -/
theorem lengthAt_of_getElem?_eq (h : lengthAt code start = .ok length)
    (hbytes : ∀ i, start ≤ i → i < start + length → other[i]? = code[i]?) :
    lengthAt other start = .ok length := by
  apply lengthAt_of_take_eq h rfl
  apply List.ext_getElem?
  intro i
  rw [List.getElem?_take, List.getElem?_take]
  split
  · rename_i hi
    rw [List.getElem?_drop, List.getElem?_drop]
    exact hbytes (start + i) (by omega) (by omega)
  · rfl

/-- An opcode that is neither a switch nor `wide` has one length, wherever there is room for it. -/
theorem lengthAt_eq_ok_iff_of_fixed {opcode : UInt8} (hopcode : code[start]? = some opcode)
    (hswitch : Opcode.isSwitch opcode = false) (hwide : opcode ≠ Opcode.wide) :
    lengthAt code start = .ok length
      ↔ (Opcode.operandLength? opcode).map (1 + ·) = some length
        ∧ start + length ≤ code.length := by
  obtain ⟨hinside, rfl⟩ := List.getElem?_eq_some_iff.mp hopcode
  rw [lengthAt_eq_ok_iff, List.drop_eq_getElem_cons hinside,
    declaredLength_cons_of_fixed hswitch hwide]
  cases Opcode.operandLength? code[start] <;> simp

/-- The length of an instruction is a matter of the instruction alone. -/
structure IsLocal (code : List UInt8) (start length : Nat) : Prop where
  pos : 1 ≤ length
  within : start + length ≤ code.length
  /-- The instruction can be moved by a multiple of four. -/
  shifted : ∀ front behind : List UInt8, 4 ∣ front.length →
    lengthAt (front ++ code ++ behind) (front.length + start) = .ok length
  /-- The bytes around it can be changed. -/
  surrounded : ∀ other : List UInt8,
    (∀ i, start ≤ i → i < start + length → other[i]? = code[i]?) →
      lengthAt other start = .ok length
  /-- Unless it is a switch or `wide`, any place with its opcode and room for it will do. -/
  anywhere : ∀ opcode, code[start]? = some opcode → Opcode.isSwitch opcode = false →
    opcode ≠ Opcode.wide → ∀ (other : List UInt8) (place : Nat), other[place]? = some opcode →
      place + length ≤ other.length → lengthAt other place = .ok length

theorem isLocal_of_lengthAt (h : lengthAt code start = .ok length) :
    IsLocal code start length where
  pos := (lengthAt_eq_ok h).2.1
  within := (lengthAt_eq_ok h).2.2
  shifted _ behind hfront := lengthAt_append h hfront behind
  surrounded _ hbytes := lengthAt_of_getElem?_eq h hbytes
  anywhere := by
    intro opcode hopcode hswitch hwide other place hother hroom
    rw [lengthAt_eq_ok_iff_of_fixed hother hswitch hwide]
    exact ⟨((lengthAt_eq_ok_iff_of_fixed hopcode hswitch hwide).mp h).1, hroom⟩

end Places

end Instruction

end ClassFormat
