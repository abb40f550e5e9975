/-
# ClassFormat.Proofs.Bytecode.AcceptedCode: the method bodies of class files that are read

A method body is read only if its code array decodes to the end.  Bodies can stand anywhere: on a
method, on the class, on a record component or inside another body.  Wherever one stands in a class
file that was read, its instructions cover its code array without a gap.

For a body that was not read nothing of the kind is known; there the listing is as long a chain of
instructions as the array has, and the iterator and the check see that same chain.
-/
import ClassFormat.Proofs.Attribute.Accepted
import ClassFormat.Proofs.Bytecode.Tiling
import ClassFormat.Proofs.Layout.ClassFile

namespace ClassFormat

open Reader (Ensures)

/-! ## Covered code arrays -/

namespace Instruction

/-- Instructions that cover a code array, each with the bytes at its place. -/
structure Tile (code : List UInt8) (instructions : List Instruction) : Prop where
  empty_iff : instructions = [] ↔ code = []
  first : ∀ instruction, instructions.head? = some instruction → instruction.start = 0
  consecutive : ∀ n before behind, instructions[n]? = some before →
    instructions[n + 1]? = some behind → behind.start = before.start + before.length
  length_pos : ∀ instruction ∈ instructions, 1 ≤ instruction.length
  last : ∀ instruction, instructions.getLast? = some instruction →
    instruction.start + instruction.length = code.length
  bytes : ∀ instruction ∈ instructions,
    instruction.bytes = (code.drop instruction.start).take instruction.length

/-- The chain from the first byte of a code array that every other such chain is the front of. -/
structure IsLongestChain (code : List UInt8) (instructions : List Instruction) : Prop where
  chain : ∃ stop, Chain code 0 instructions stop
  longest : ∀ others stop, Chain code 0 others stop → others <+: instructions

theorem Chain.bytes {code : List UInt8} {start stop : Nat} {instructions : List Instruction}
    (h : Chain code start instructions stop) : ∀ instruction ∈ instructions,
      instruction.bytes = (code.drop instruction.start).take instruction.length := by
  induction h with
  | nil start => exact fun instruction hmem => absurd hmem List.not_mem_nil
  | cons hlength _ ih =>
    refine List.forall_mem_cons.mpr ⟨?_, ih⟩
    rw [length_slice hlength]
    rfl

theorem Chain.tile {code : List UInt8} {instructions : List Instruction}
    (h : Chain code 0 instructions code.length) : Tile code instructions where
  empty_iff := by
    constructor
    · rintro rfl
      -- An empty chain stops where it starts, so the array ends at its first byte.
      generalize hstop : code.length = stop at h
      cases h
      exact List.length_eq_zero_iff.mp hstop
    · rintro rfl
      cases h with
      | nil => rfl
      | cons hlength _ =>
        rw [lengthAt_eq_error_of_le (Nat.le_refl 0)] at hlength
        cases hlength
  first := fun _ => h.start_head
  consecutive := fun _ _ _ => h.start_getElem_succ
  length_pos := h.length_pos
  last := fun _ => h.stop_getLast
  bytes := h.bytes

theorem isLongestChain_decode (code : List UInt8) :
    IsLongestChain code (Listing.decode code).instructions := by
  obtain ⟨stop, hchain, hstops⟩ := Listing.chain_decode code
  obtain ⟨cause, hstop⟩ := hstops.lengthAt_eq_error
  exact ⟨⟨stop, hchain⟩, fun others _ hothers => hothers.isPrefix hchain hstop⟩

end Instruction

/-! ## Bodies that were read -/

theorem Code.check_eq_ok_iff (bytes : List UInt8) :
    Code.check bytes = .ok () ↔ (Listing.decode bytes).fault = none := by
  unfold Code.check
  cases (Listing.decode bytes).fault with
  | none => exact ⟨fun _ => rfl, fun _ => rfl⟩
  | some cause => exact ⟨fun h => (nomatch h), fun h => (nomatch h)⟩

theorem Code.readerOf_check (inner : Reader Attribute) :
    Ensures (Code.readerOf inner) fun code => Code.check code.bytes = .ok () :=
  .skip fun _ => .skip fun _ => .skip fun _ => .skip fun _ =>
    Ensures.bind (Ensures.lift fun _ h => h)
      fun _ hcheck => .skip fun _ => .skip fun _ => .pure hcheck

/-- The code array in the body, if the attribute is one, decodes to its end. -/
def AttributeInfo.DecodesCode : AttributeInfo → Prop
  | code body => Code.check body.bytes = .ok ()
  | _ => True

theorem AttributeInfo.readerOf_decodesCode (inner : Reader Attribute) (kind : AttributeKind) :
    Ensures (AttributeInfo.readerOf inner kind) AttributeInfo.DecodesCode := by
  cases kind with
  | code => exact (Code.readerOf_check inner).bind fun code hcode => .pure hcode
  | synthetic | deprecated => exact .pure True.intro
  | _ => exact .skip fun _ => .pure True.intro

/-- Every method body of a class file that was read decodes to its end. -/
theorem ClassFile.fault_eq_none_of_read {input left : Input} {file : ClassFile}
    (h : ClassFile.reader input = .ok (file, left)) {nameIndex : PoolIndex} {code : Code}
    (hcode : file.Holds ⟨nameIndex, .code code⟩) : code.listing.fault = none := by
  have hdecodes : (AttributeInfo.code code).DecodesCode :=
    ClassFile.reader_ensures (fun _ => True.intro) AttributeInfo.readerOf_decodesCode
      input file left h ⟨nameIndex, .code code⟩ hcode
  exact (Code.check_eq_ok_iff code.bytes).mp hdecodes

/-! ## All bodies -/

namespace Code

/-- The iterator over the instructions of a body, before its first call. -/
def cursor (code : Code) : Cursor := ⟨code.bytes, 0⟩

/-- The instructions of a body that was read, wherever it stands, cover its code array, and no call
of the iterator over them reports anything.  For any body at all, the iterator yields the longest
chain of instructions and then nothing any more, reports only right behind the chain, the check
passes if the chain covers the array, and an offset is that of an instruction if it is one of the
chain's. -/
theorem instructions_tile_and_iterate :
    (∀ (input left : Input) (file : ClassFile), ClassFile.reader input = .ok (file, left) →
      ∀ (nameIndex : PoolIndex) (code : Code), file.Holds ⟨nameIndex, .code code⟩ →
        Instruction.Tile code.bytes code.instructions
          ∧ ∀ calls, (code.cursor.call calls).warnings = [])
    ∧ ∀ code : Code,
        Instruction.IsLongestChain code.bytes code.instructions
          ∧ (∀ calls, (code.cursor.call calls).yielded = code.instructions[calls]?)
          ∧ (∀ calls, (code.cursor.call calls).warnings
              = if calls = code.instructions.length
                then code.listing.fault.toList.map Warning.undecodable else [])
          ∧ Code.check code.bytes = ((countFrom code.bytes 0 0).map fun _ => ())
          ∧ (Code.check code.bytes = .ok ()
              ↔ Instruction.Chain code.bytes 0 code.instructions code.bytes.length)
          ∧ ∀ pc, code.checkInstructionStart pc = .ok ()
              ↔ ∃ instruction ∈ code.instructions, instruction.start = pc := by
  have hcalls : ∀ (code : Code) (calls : Nat),
      (code.cursor.call calls).yielded = code.instructions[calls]?
        ∧ (code.cursor.call calls).warnings = if calls = code.instructions.length
            then code.listing.fault.toList.map Warning.undecodable else [] := by
    intro code calls
    obtain ⟨stop, hchain, hstops⟩ := Listing.chain_decode code.bytes
    exact Cursor.call_chain hchain hstops calls
  refine ⟨fun input left file hread nameIndex code hcode => ⟨?_, ?_⟩, fun code => ?_⟩
  · have hfault := ClassFile.fault_eq_none_of_read hread hcode
    exact ((Listing.fault_decode_eq_none_iff code.bytes).mp hfault).tile
  · intro calls
    rw [(hcalls code calls).2, ClassFile.fault_eq_none_of_read hread hcode]
    exact ite_self []
  · refine ⟨Instruction.isLongestChain_decode code.bytes, fun calls => (hcalls code calls).1,
      fun calls => (hcalls code calls).2, check_eq_countFrom code.bytes, ?_, fun pc => ?_⟩
    · rw [check_eq_ok_iff]
      exact Listing.fault_decode_eq_none_iff code.bytes
    · exact Listing.checkStart_eq_ok_iff code.listing pc

/-- The body in the sample class, whose second instruction starts behind a wide one. -/
theorem instructions_tile_nestedSample :
    ClassFile.reader ⟨ClassFile.nestedSample.encode, .finished⟩
        = .ok (ClassFile.nestedSample, ⟨[], .finished⟩)
      ∧ ∃ code, ClassFile.nestedSample.Holds ⟨3, .code code⟩
        ∧ code.instructions.map Instruction.start = [0, 4]
        ∧ Instruction.Tile code.bytes code.instructions := by
  have hread : ClassFile.reader ⟨ClassFile.nestedSample.encode, .finished⟩
      = .ok (ClassFile.nestedSample, ⟨[], .finished⟩) := rfl
  have hheld : ClassFile.nestedSample.Holds ClassFile.sampleBody :=
    .direct (List.mem_append_right _ (List.mem_append_right _ List.mem_cons_self))
  exact ⟨hread, _, hheld, rfl, (instructions_tile_and_iterate.1 _ _ _ hread 3 _ hheld).1⟩

end Code

end ClassFormat
