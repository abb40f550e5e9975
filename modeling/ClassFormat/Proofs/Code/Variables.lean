/-
# ClassFormat.Proofs.Code.Variables: the local variable that an instruction names

An instruction names a slot in its opcode, in the byte behind it or, widened, in two bytes, and it
reads the slot or writes it.  Which variable is in a slot changes along the code: tables may have
several variables for one slot, each for a range of offsets, and these ranges may overlap.

A variable comes into being with the store that gives it its first value, so a store looks behind
itself, at the offset where the next instruction starts.  That is where a load that comes next looks
too, whatever forms the two have, and so both find the same variable.
-/
import Mathlib.Data.List.Basic
import ClassFormat.Proofs.Bytecode.Disassembly
import ClassFormat.Proofs.Bytecode.Tiling
import ClassFormat.Proofs.Code.Tables

namespace ClassFormat

/-! ## Slots that are read or written -/

/-- What an instruction does with a local variable. -/
inductive Access where
  | read
  | write
  deriving DecidableEq

/-- The offset that a variable is looked up at: where the instruction starts if it is read, and
where the instruction ends if it is written. -/
def Access.pc (instruction : Instruction) : Access → Nat
  | read => instruction.start
  | write => instruction.start + instruction.length

def SlotUse.access : SlotUse → Access
  | load _ | ret => .read
  | store _ => .write

/-- The slot that a statement names and what it does with it.  An increment reads it first. -/
def Statement.access? : Statement → Option (Access × UInt16)
  | ofSlot use slot => some (use.access, slot.toUInt16)
  | shortLoad _ slot => some (.read, UInt16.ofNat slot)
  | shortStore _ slot => some (.write, UInt16.ofNat slot)
  | ofWideSlot use slot => some (use.access, slot)
  | iinc slot _ => some (.read, slot.toUInt16)
  | wideIinc slot _ => some (.read, slot)
  | _ => none

/-- The bytes of an instruction are those of a statement that reads or writes a slot. -/
def Instruction.Accesses (instruction : Instruction) (access : Access) (slot : UInt16) : Prop :=
  ∃ statement : Statement, statement.access? = some (access, slot)
    ∧ instruction.bytes = statement.encode instruction.start

namespace Meaning

/-- Whether an instruction with these answers reads or writes a local variable. -/
def does (meaning : Meaning) : Access → Bool
  | .read => meaning.isLoad
  | .write => meaning.isStore

/-- The slot of an instruction with these answers, if it is a load or a store. -/
def access? (meaning : Meaning) : Option (Access × UInt16) :=
  if meaning.isStore then meaning.index?.map (Prod.mk .write)
  else if meaning.isLoad then meaning.index?.map (Prod.mk .read)
  else none

end Meaning

namespace Statement

theorem access?_meaning (statement : Statement) :
    statement.meaning.access? = statement.access? := by
  cases statement with
  | ofSlot use slot | ofWideSlot use slot => cases use <;> rfl
  | _ => rfl

theorem does_meaning_iff (statement : Statement) (access : Access) :
    statement.meaning.does access = true ↔ ∃ slot, statement.access? = some (access, slot) := by
  cases statement with
  | ofSlot use slot | ofWideSlot use slot =>
    cases use <;> cases access <;>
      simp [meaning, access?, Meaning.does, SlotUse.access, SlotUse.loads, SlotUse.stores]
  | _ => cases access <;> simp [meaning, access?, Meaning.does]

theorem meaning_of_bytes {statement : Statement} {instruction : Instruction}
    (h : instruction.bytes = statement.encode instruction.start) :
    instruction.meaning = statement.meaning := by
  rw [← statement.meaning_encode instruction.start, ← h]

end Statement

/-! ## Decoded instructions as statements -/

namespace Instruction

/-- Everything that can be widened uses a slot or is the increment. -/
theorem exists_use_of_isWidenable : ∀ opcode, Opcode.isWidenable opcode →
    opcode = Opcode.iinc ∨ ∃ use ∈ SlotUse.all, use.opcode = opcode :=
  forall_byte (by decide +kernel)

theorem wideLength_eq_ok {start length : Nat} {bytes : List UInt8}
    (h : wideLength start bytes = .ok length) :
    ∃ widened others, bytes = widened :: others
      ∧ (widened = Opcode.iinc ∧ length = 6
        ∨ (∃ use : SlotUse, use.opcode = widened) ∧ length = 4) := by
  cases bytes with
  | nil => cases h
  | cons widened others =>
    refine ⟨widened, others, rfl, ?_⟩
    rw [wideLength] at h
    split at h
    · rename_i hiinc
      exact .inl ⟨hiinc, (Except.ok.inj h).symm⟩
    · rename_i hiinc
      split at h
      · rename_i hwidenable
        rcases exists_use_of_isWidenable widened hwidenable with heq | ⟨use, -, huse⟩
        · exact absurd heq hiinc
        · exact .inr ⟨⟨use, huse⟩, (Except.ok.inj h).symm⟩
      · cases h

/-- What `wide` takes with it is a use of a slot or the increment, with a slot of two bytes. -/
theorem statement_of_wideLength {start : Nat} {operands rest : List UInt8}
    (h : wideLength start (operands ++ rest) = .ok (operands.length + 1)) :
    ∃ statement : Statement, Opcode.wide :: operands = statement.encode start := by
  obtain ⟨widened, others, hbytes, hwidened⟩ := wideLength_eq_ok h
  rcases operands with _ | ⟨first, operands⟩
  · simp at hwidened
  · obtain ⟨rfl, -⟩ := List.cons.inj hbytes
    rw [List.length_cons] at hwidened
    rcases hwidened with ⟨rfl, hlength⟩ | ⟨⟨use, rfl⟩, hlength⟩
    · have hfour : operands.length = 4 := by omega
      obtain ⟨high, low, third, fourth, rfl⟩ := List.length_eq_four.mp hfour
      obtain ⟨slot, hslot⟩ := Statement.exists_u16 high low
      obtain ⟨increment, hincrement⟩ := Statement.exists_i16 third fourth
      refine ⟨.wideIinc slot increment, ?_⟩
      rw [Statement.encode, hslot, hincrement]
      rfl
    · have htwo : operands.length = 2 := by omega
      obtain ⟨high, low, rfl⟩ := List.length_eq_two.mp htwo
      obtain ⟨slot, hslot⟩ := Statement.exists_u16 high low
      refine ⟨.ofWideSlot use slot, ?_⟩
      rw [Statement.encode, hslot]
      rfl

/-- Every instruction that decodes, apart from the switches, is a statement. -/
theorem statement_of_declaredLength {start : Nat} {own rest : List UInt8}
    (h : declaredLength start (own ++ rest) = .ok own.length) :
    Opcode.isSwitch (opcode ⟨start, own⟩) = true
      ∨ ∃ statement : Statement, own = statement.encode start := by
  cases own with
  | nil => exact absurd (declaredLength_pos h) (Nat.lt_irrefl 0)
  | cons first operands =>
    simp only [List.cons_append, declaredLength] at h
    split at h
    · rename_i htable
      subst htable
      exact .inl rfl
    · split at h
      · rename_i hlookup
        subst hlookup
        exact .inl rfl
      · split at h
        · rename_i hwide
          subst hwide
          exact .inr (statement_of_wideLength h)
        · split at h
          · rename_i length hoperands
            have hlength : 1 + length = operands.length + 1 := Except.ok.inj h
            obtain rfl : length = operands.length := by omega
            obtain ⟨statement, hencode⟩ := Statement.exists_encode hoperands
            exact .inr ⟨statement, (hencode start).symm⟩
          · cases h

theorem statement_of_next {start : Nat} {bytes rest : List UInt8} {instruction : Instruction}
    (h : next start bytes = .ok (instruction, rest)) :
    Opcode.isSwitch instruction.opcode = true
      ∨ ∃ statement : Statement, instruction.bytes = statement.encode instruction.start := by
  obtain ⟨declared, hdeclared, h⟩ := bind_eq_ok_iff.mp h
  split at h
  · rename_i own behind hsplit
    obtain ⟨hbytes, hown⟩ := splitExact_eq_some_iff.mp hsplit
    cases h
    rw [hbytes, ← hown] at hdeclared
    exact statement_of_declaredLength hdeclared
  · cases h

theorem Chain.statement {code : List UInt8} {start stop : Nat} {instructions : List Instruction}
    (h : Chain code start instructions stop) : ∀ instruction ∈ instructions,
      Opcode.isSwitch instruction.opcode = true
        ∨ ∃ statement : Statement, instruction.bytes = statement.encode instruction.start := by
  induction h with
  | nil start => exact fun instruction hmem => absurd hmem List.not_mem_nil
  | cons hlength _ ih =>
    exact List.forall_mem_cons.mpr ⟨statement_of_next (lengthAt_eq_ok hlength).1, ih⟩

/-- A switch names no local variable. -/
theorem does_of_isSwitch {instruction : Instruction}
    (h : Opcode.isSwitch instruction.opcode = true) (access : Access) :
    instruction.meaning.does access = false := by
  have hopcode : instruction.opcode = Opcode.tableswitch
      ∨ instruction.opcode = Opcode.lookupswitch := by
    simpa [Opcode.isSwitch] using h
  have hwide : instruction.isWide = false := by
    rcases hopcode with hopcode | hopcode <;> rw [isWide, hopcode] <;> rfl
  have heffective : instruction.effectiveOpcode = instruction.opcode := by
    simp [effectiveOpcode, hwide]
  cases access with
  | read =>
    show instruction.isLoad = false
    rcases hopcode with hopcode | hopcode <;> rw [isLoad, heffective, hopcode] <;> rfl
  | write =>
    show instruction.isStore = false
    rcases hopcode with hopcode | hopcode <;> rw [isStore, heffective, hopcode] <;> rfl

/-- Loads and stores are the instructions that have one of the forms for reading or writing. -/
theorem Chain.does_iff {code : List UInt8} {start stop : Nat} {instructions : List Instruction}
    (h : Chain code start instructions stop) {instruction : Instruction}
    (hmem : instruction ∈ instructions) (access : Access) :
    instruction.meaning.does access = true ↔ ∃ slot, instruction.Accesses access slot := by
  constructor
  · intro hdoes
    rcases h.statement instruction hmem with hswitch | ⟨statement, hbytes⟩
    · rw [does_of_isSwitch hswitch] at hdoes
      cases hdoes
    · rw [Statement.meaning_of_bytes hbytes, statement.does_meaning_iff] at hdoes
      obtain ⟨slot, haccess⟩ := hdoes
      exact ⟨slot, statement, haccess, hbytes⟩
  · rintro ⟨slot, statement, haccess, hbytes⟩
    rw [Statement.meaning_of_bytes hbytes, statement.does_meaning_iff]
    exact ⟨slot, haccess⟩

/-! ## Look-ups -/

theorem localVariable?_eq (instruction : Instruction) (code : Code) :
    instruction.localVariable? code
      = instruction.meaning.access?.bind fun (access, slot) =>
          code.variableAt? slot (access.pc instruction) := by
  unfold localVariable? variablePc?
  show _ = Option.bind (if instruction.isStore then instruction.index?.map (Prod.mk Access.write)
    else if instruction.isLoad then instruction.index?.map (Prod.mk Access.read) else none) _
  cases instruction.isStore <;> cases instruction.isLoad <;> cases instruction.index? <;> rfl

theorem Accesses.localVariable?_eq {instruction : Instruction} {access : Access} {slot : UInt16}
    (h : instruction.Accesses access slot) (code : Code) :
    instruction.localVariable? code = code.variableAt? slot (access.pc instruction) := by
  obtain ⟨statement, haccess, hbytes⟩ := h
  rw [Instruction.localVariable?_eq, Statement.meaning_of_bytes hbytes, statement.access?_meaning,
    haccess]
  rfl

end Instruction

/-- A variable is in a slot at an offset: the slot is its own, and the offset is in its range. -/
def LocalVariable.LivesIn (entry : LocalVariable) (slot : UInt16) (pc : Nat) : Prop :=
  entry.slot = slot ∧ entry.startPc.toNat ≤ pc ∧ pc < entry.startPc.toNat + entry.length.toNat

instance (entry : LocalVariable) (slot : UInt16) (pc : Nat) : Decidable (entry.LivesIn slot pc) :=
  inferInstanceAs (Decidable (_ ∧ _ ∧ _))

namespace Code

theorem variableAt?_eq (code : Code) (slot : UInt16) (pc : Nat) :
    code.variableAt? slot pc = (code.attributes.flatMap fun held => held.info.variables).find?
      fun entry => entry.LivesIn slot pc := by
  have htest : (fun entry : LocalVariable => entry.slot == slot && entry.covers pc)
      = fun entry => decide (entry.LivesIn slot pc) := by
    funext entry
    rw [Bool.eq_iff_iff, decide_eq_true_iff]
    simp [LocalVariable.LivesIn, LocalVariable.covers]
  rw [variableAt?, htest]
  rfl

/-- A slot that is read or written holds the first variable declared for it that lives there. -/
theorem isFirst_localVariable? (code : Code) {instruction : Instruction} {access : Access}
    {slot : UInt16} (h : instruction.Accesses access slot) :
    Attribute.IsFirst AttributeInfo.variables code.attributes
      (fun entry => entry.LivesIn slot (access.pc instruction))
      (instruction.localVariable? code) := by
  rw [h.localVariable?_eq, variableAt?_eq]
  exact Attribute.isFirst_find?

/-- In whatever tables its variables are and however their ranges overlap, an instruction of a body
that reads or writes a slot names the first variable declared for the slot that lives where it is
looked up; others name none.  A load right behind a store looks where the store does, so if they
have the same slot they name the same variable, and what a store names lives beyond it. -/
theorem localVariable?_first_living (code : Code) :
    (∀ instruction ∈ code.instructions,
      (instruction.isLoad = true ↔ ∃ slot, instruction.Accesses .read slot)
        ∧ (instruction.isStore = true ↔ ∃ slot, instruction.Accesses .write slot)
        ∧ (instruction.isLoad = false → instruction.isStore = false →
            instruction.localVariable? code = none)
        ∧ ∀ access slot, instruction.Accesses access slot →
            Attribute.IsFirst AttributeInfo.variables code.attributes
              (fun entry => entry.LivesIn slot (access.pc instruction))
              (instruction.localVariable? code))
      ∧ (∀ n store behind, code.instructions[n]? = some store →
          code.instructions[n + 1]? = some behind →
          behind.start = Access.write.pc store
            ∧ ∀ slot, store.Accesses .write slot → behind.Accesses .read slot →
                store.localVariable? code = behind.localVariable? code)
      ∧ ∀ store ∈ code.instructions, store.isStore = true → ∀ entry,
          store.localVariable? code = some entry →
          Access.write.pc store < entry.startPc.toNat + entry.length.toNat := by
  obtain ⟨stop, hchain, -⟩ := Listing.chain_decode code.bytes
  refine ⟨fun instruction hmem => ⟨hchain.does_iff hmem .read, hchain.does_iff hmem .write, ?_,
    fun _ _ => code.isFirst_localVariable?⟩, ?_, ?_⟩
  · intro hload hstore
    simp [Instruction.localVariable?, Instruction.variablePc?, hload, hstore]
  · intro n store behind hstore hbehind
    have hstart := hchain.start_getElem_succ hstore hbehind
    refine ⟨hstart, fun slot hwrite hread => ?_⟩
    rw [hwrite.localVariable?_eq, hread.localVariable?_eq]
    exact congrArg (code.variableAt? slot) hstart.symm
  · intro store hmem hstore entry hentry
    obtain ⟨slot, hwrite⟩ := (hchain.does_iff hmem .write).mp hstore
    have hlives := code.isFirst_localVariable? hwrite
    rw [hentry] at hlives
    exact hlives.1.2.2

/-- A store and a widened load of one slot.  The variable that had the slot before ends where the
load starts, and the one that has it then is in another table. -/
def reusedSlot : Code :=
  ⟨1, 2, [0x3c, 0xc4, 0x15, 0, 1, 0xac], [],
    [⟨1, .localVariableTable [⟨0, 1, 2, 3, 1⟩]⟩, ⟨4, .synthetic⟩,
      ⟨1, .localVariableTable [⟨1, 5, 5, 3, 1⟩, ⟨0, 6, 6, 3, 1⟩]⟩]⟩

theorem localVariable?_first_living_reused :
    ∃ store load, reusedSlot.instructions[0]? = some store ∧ store.isStore = true
      ∧ reusedSlot.instructions[1]? = some load ∧ load.isLoad = true
      ∧ store.localVariable? reusedSlot = load.localVariable? reusedSlot
      ∧ store.localVariable? reusedSlot = some ⟨1, 5, 5, 3, 1⟩ := by
  obtain ⟨-, hadjacent, -⟩ := localVariable?_first_living reusedSlot
  have hstore : reusedSlot.instructions[0]? = some ⟨0, [0x3c]⟩ := by decide +kernel
  have hload : reusedSlot.instructions[1]? = some ⟨1, [0xc4, 0x15, 0, 1]⟩ := by decide +kernel
  have hsame := (hadjacent 0 _ _ hstore hload).2 1 ⟨.shortStore .int 1, rfl, rfl⟩
    ⟨.ofWideSlot (.load .int) 1, rfl, rfl⟩
  exact ⟨_, _, hstore, rfl, hload, rfl, hsame, by decide +kernel⟩

end Code

end ClassFormat
