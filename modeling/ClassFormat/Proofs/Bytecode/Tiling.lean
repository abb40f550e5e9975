/-
# ClassFormat.Proofs.Bytecode.Tiling: the instructions of a code array

An instruction says how long it is, so the bytes of a code array fix where each one starts: the
first at zero, every other right behind the one before it.  `Instruction.Chain` is that relation,
said without a decoder.  The listing of a code array is its longest chain, and it stops either at
the end of the array or at the first offset where no instruction decodes.

Listings are decoded from front to back.  Two other ways to go through a code array, an iterator
that is asked for one instruction at a time and a loop that only adds up lengths, are shown to see
the same instructions.
-/
import ClassFormat.Attribute.Layout
import ClassFormat.Code
import ClassFormat.Proofs.Outcome
import ClassFormat.Warning

namespace ClassFormat

/-! ## One instruction -/

namespace Instruction

theorem tableswitchLength_pos {start length : Nat} {bytes : List UInt8}
    (h : tableswitchLength start bytes = .ok length) : 0 < length := by
  obtain ⟨low, -, h⟩ := bind_eq_ok_iff.mp h
  obtain ⟨high, -, h⟩ := bind_eq_ok_iff.mp h
  split at h
  · cases h
  · cases h
    omega

theorem lookupswitchLength_pos {start length : Nat} {bytes : List UInt8}
    (h : lookupswitchLength start bytes = .ok length) : 0 < length := by
  obtain ⟨pairs, -, h⟩ := bind_eq_ok_iff.mp h
  split at h
  · cases h
  · cases h
    omega

theorem wideLength_pos {start length : Nat} {operands : List UInt8}
    (h : wideLength start operands = .ok length) : 0 < length := by
  unfold wideLength at h
  split at h
  · cases h
  · split at h
    · cases h
      decide
    · split at h
      · cases h
        decide
      · cases h

/-- Every instruction has at least its opcode. -/
theorem declaredLength_pos {start length : Nat} {bytes : List UInt8}
    (h : declaredLength start bytes = .ok length) : 0 < length := by
  unfold declaredLength at h
  split at h
  · cases h
  · split at h
    · exact tableswitchLength_pos h
    · split at h
      · exact lookupswitchLength_pos h
      · split at h
        · exact wideLength_pos h
        · split at h
          · cases h
            omega
          · cases h

/-- What `next` takes off the front is an instruction at the given offset, with a byte at least. -/
theorem next_eq_ok {start : Nat} {bytes rest : List UInt8} {instruction : Instruction}
    (h : next start bytes = .ok (instruction, rest)) :
    instruction.start = start ∧ bytes = instruction.bytes ++ rest ∧ 0 < instruction.length := by
  obtain ⟨declared, hdeclared, h⟩ := bind_eq_ok_iff.mp h
  have hpos : 0 < declared := declaredLength_pos hdeclared
  split at h
  · rename_i own behind hsplit
    obtain ⟨hbytes, hown⟩ := splitExact_eq_some_iff.mp hsplit
    cases h
    refine ⟨rfl, hbytes, ?_⟩
    rw [Instruction.length, hown]
    exact hpos
  · cases h

/-- The instruction of a code array at an offset, given its length. -/
def slice (code : List UInt8) (start length : Nat) : Instruction :=
  ⟨start, (code.drop start).take length⟩

/-- What it means that an instruction of some length stands at an offset. -/
theorem lengthAt_eq_ok {code : List UInt8} {start length : Nat}
    (h : lengthAt code start = .ok length) :
    next start (code.drop start) = .ok (slice code start length, code.drop (start + length))
      ∧ 0 < length ∧ start + length ≤ code.length := by
  obtain ⟨⟨instruction, rest⟩, hnext, hlength⟩ := bind_eq_ok_iff.mp h
  obtain ⟨hstart, hbytes, hpos⟩ := next_eq_ok hnext
  have hlength : instruction.bytes.length = length := Except.ok.inj hlength
  have hsum : code.length - start = length + rest.length := by
    rw [← hlength, ← List.length_append, ← hbytes, List.length_drop]
  have htake : (code.drop start).take length = instruction.bytes := by
    rw [hbytes, ← hlength, List.take_left]
  have hdrop : code.drop (start + length) = rest := by
    rw [← List.drop_drop, hbytes, ← hlength, List.drop_left]
  have hpos : 0 < length := hlength ▸ hpos
  have hslice : slice code start length = instruction := by
    rw [slice, htake, ← hstart]
  refine ⟨?_, hpos, by omega⟩
  rw [hslice, hdrop]
  exact hnext

theorem length_slice {code : List UInt8} {start length : Nat}
    (h : lengthAt code start = .ok length) : (slice code start length).length = length := by
  obtain ⟨-, -, hle⟩ := lengthAt_eq_ok h
  rw [Instruction.length, slice, List.length_take, List.length_drop]
  omega

/-- An instruction that `next` finds has its length. -/
theorem lengthAt_of_next {code rest : List UInt8} {start : Nat} {instruction : Instruction}
    (h : next start (code.drop start) = .ok (instruction, rest)) :
    lengthAt code start = .ok instruction.length := by
  rw [lengthAt, h]
  rfl

theorem lengthAt_of_next_error {code : List UInt8} {start : Nat} {cause : Error}
    (h : next start (code.drop start) = .error cause) : lengthAt code start = .error cause := by
  rw [lengthAt, h]
  rfl

theorem lengthAt_eq_error_of_le {code : List UInt8} {start : Nat} (h : code.length ≤ start) :
    lengthAt code start = .error (pastEnd start) := by
  rw [lengthAt, List.drop_eq_nil_of_le h]
  rfl

end Instruction

/-! ## Chains -/

/-- Instructions of a code array, each right behind the one before it, from the first offset up to
the second. -/
inductive Instruction.Chain (code : List UInt8) : Nat → List Instruction → Nat → Prop
  | nil (start : Nat) : Chain code start [] start
  | cons {start length stop : Nat} {others : List Instruction}
      (h : Instruction.lengthAt code start = .ok length)
      (hothers : Chain code (start + length) others stop) :
      Chain code start (Instruction.slice code start length :: others) stop

namespace Instruction.Chain

variable {code : List UInt8} {start stop : Nat} {instructions : List Instruction}

theorem length_pos (h : Chain code start instructions stop) :
    ∀ instruction ∈ instructions, 1 ≤ instruction.length := by
  induction h with
  | nil start => exact fun instruction hmem => absurd hmem List.not_mem_nil
  | @cons start length stop others hlength _ ih =>
    refine List.forall_mem_cons.mpr ⟨?_, ih⟩
    rw [length_slice hlength]
    exact (lengthAt_eq_ok hlength).2.1

/-- The first instruction of a chain starts where the chain does. -/
theorem start_head (h : Chain code start instructions stop) {first : Instruction}
    (hfirst : instructions.head? = some first) : first.start = start := by
  cases h with
  | nil => cases hfirst
  | cons hlength hothers =>
    cases hfirst
    rfl

/-- The last instruction of a chain ends where the chain does. -/
theorem stop_getLast (h : Chain code start instructions stop) {last : Instruction}
    (hlast : instructions.getLast? = some last) : last.start + last.length = stop := by
  induction h with
  | nil start => cases hlast
  | @cons start length stop others hlength hothers ih =>
    cases hothers with
    | nil =>
      have hlast : slice code start length = last := Option.some.inj hlast
      rw [← hlast, length_slice hlength]
      rfl
    | cons hnext hrest =>
      rw [List.getLast?_cons_cons] at hlast
      exact ih hlast

/-- Each instruction of a chain but the first starts where the one before it ends. -/
theorem start_getElem_succ (h : Chain code start instructions stop) {n : Nat}
    {before behind : Instruction} (hbefore : instructions[n]? = some before)
    (hbehind : instructions[n + 1]? = some behind) :
    behind.start = before.start + before.length := by
  induction h generalizing n with
  | nil start => cases hbefore
  | @cons start length stop others hlength hothers ih =>
    cases n with
    | zero =>
      cases hbefore
      rw [length_slice hlength]
      have hhead : others.head? = some behind := by
        rw [List.head?_eq_getElem?]
        exact hbehind
      exact hothers.start_head hhead
    | succ n => exact ih hbefore hbehind

/-- No instruction begins before the chain does. -/
theorem le_start (h : Chain code start instructions stop) :
    ∀ instruction ∈ instructions, start ≤ instruction.start := by
  induction h with
  | nil start => exact fun instruction hmem => absurd hmem List.not_mem_nil
  | @cons start length stop others hlength _ ih =>
    refine List.forall_mem_cons.mpr ⟨Nat.le_refl start, fun instruction hmem => ?_⟩
    have hbehind := ih instruction hmem
    omega

/-- The instructions stand in the order of their offsets. -/
theorem pairwise_start (h : Chain code start instructions stop) :
    instructions.Pairwise fun before behind => before.start < behind.start := by
  induction h with
  | nil start => exact .nil
  | @cons start length stop others hlength hothers ih =>
    refine List.pairwise_cons.mpr ⟨fun behind hmem => ?_, ih⟩
    obtain ⟨-, hpos, -⟩ := lengthAt_eq_ok hlength
    have hbehind := hothers.le_start behind hmem
    show start < behind.start
    omega

/-- A chain that cannot be continued starts with every chain from the same offset. -/
theorem isPrefix {others : List Instruction} {end' : Nat} {cause : Error}
    (h : Chain code start others end') (hlongest : Chain code start instructions stop)
    (hstop : lengthAt code stop = .error cause) : others <+: instructions := by
  induction h generalizing instructions with
  | nil start => exact List.nil_prefix
  | cons hlength _ ih =>
    cases hlongest with
    | nil =>
      rw [hlength] at hstop
      cases hstop
    | cons hlength' hothers' =>
      rw [hlength] at hlength'
      cases hlength'
      exact List.cons_prefix_cons.mpr ⟨rfl, ih hothers'⟩

/-- Chains that cannot be continued end at the same offset as soon as they start at the same. -/
theorem stop_unique {others : List Instruction} {end' : Nat} {cause cause' : Error}
    (h : Chain code start instructions stop) (hstop : lengthAt code stop = .error cause)
    (hother : Chain code start others end') (hend : lengthAt code end' = .error cause') :
    stop = end' := by
  induction h generalizing others with
  | nil start =>
    cases hother with
    | nil => rfl
    | cons hlength _ =>
      rw [hlength] at hstop
      cases hstop
  | cons hlength _ ih =>
    cases hother with
    | nil =>
      rw [hlength] at hend
      cases hend
    | cons hlength' hothers' =>
      rw [hlength] at hlength'
      cases hlength'
      exact ih hstop hothers'

end Instruction.Chain

/-! ## Listings -/

namespace Listing

/-- Where a listing may stop and what it reports there: nothing at the end of the array, else why no
instruction decodes. -/
inductive Stops (code : List UInt8) : Nat → Option Error → Prop
  | atEnd : Stops code code.length none
  | atFault {stop : Nat} {cause : Error} (hstop : stop < code.length)
      (h : Instruction.lengthAt code stop = .error cause) : Stops code stop (some cause)

theorem Stops.lengthAt_eq_error {code : List UInt8} {stop : Nat} {fault : Option Error}
    (h : Stops code stop fault) : ∃ cause, Instruction.lengthAt code stop = .error cause := by
  cases h with
  | atEnd => exact ⟨_, Instruction.lengthAt_eq_error_of_le (Nat.le_refl code.length)⟩
  | atFault hstop h => exact ⟨_, h⟩

theorem Stops.fault_eq_none_iff {code : List UInt8} {stop : Nat} {fault : Option Error}
    (h : Stops code stop fault) : fault = none ↔ stop = code.length := by
  cases h with
  | atEnd => exact ⟨fun _ => rfl, fun _ => rfl⟩
  | atFault hstop h =>
    constructor
    · intro hnone
      cases hnone
    · intro hend
      omega

/-- Decoding follows the instructions from an offset until it stops. -/
theorem chain_decodeFrom {code : List UInt8} (fuel : Nat) :
    ∀ {start : Nat}, start ≤ code.length → code.length - start ≤ fuel →
      ∃ stop, Instruction.Chain code start (decodeFrom fuel start (code.drop start)).instructions
          stop ∧ Stops code stop (decodeFrom fuel start (code.drop start)).fault := by
  induction fuel with
  | zero =>
    intro start hstart hfuel
    -- Without fuel there are no bytes left either.
    have hend : start = code.length := by omega
    subst hend
    rw [List.drop_length]
    exact ⟨code.length, .nil code.length, .atEnd⟩
  | succ fuel ih =>
    intro start hstart hfuel
    cases hbytes : code.drop start with
    | nil =>
      have hend : start = code.length := by
        have hle := List.drop_eq_nil_iff.mp hbytes
        omega
      subst hend
      exact ⟨code.length, .nil code.length, .atEnd⟩
    | cons byte bytes =>
      have hinside : start < code.length := by
        have hlength := congrArg List.length hbytes
        rw [List.length_drop, List.length_cons] at hlength
        omega
      rw [decodeFrom]
      cases hnext : Instruction.next start (byte :: bytes) with
      | error cause =>
        rw [← hbytes] at hnext
        exact ⟨start, .nil start, .atFault hinside (Instruction.lengthAt_of_next_error hnext)⟩
      | ok found =>
        obtain ⟨instruction, rest⟩ := found
        rw [← hbytes] at hnext
        -- What was taken off the front is the slice of the array at this offset.
        have hlength := Instruction.lengthAt_of_next hnext
        obtain ⟨hslice, hpos, hle⟩ := Instruction.lengthAt_eq_ok hlength
        rw [hnext] at hslice
        injection hslice with hslice
        injection hslice with hslice hrest
        obtain ⟨stop, hchain, hstops⟩ := ih hle (by omega)
        rw [← hrest] at hchain hstops
        have hcons := Instruction.Chain.cons hlength hchain
        rw [← hslice] at hcons
        exact ⟨stop, hcons, hstops⟩

/-- The listing of a code array is a chain from its first byte that cannot be continued. -/
theorem chain_decode (code : List UInt8) :
    ∃ stop, Instruction.Chain code 0 (decode code).instructions stop
      ∧ Stops code stop (decode code).fault :=
  chain_decodeFrom code.length (Nat.zero_le code.length) (Nat.le_refl code.length)

theorem fault_decode_eq_none_iff (code : List UInt8) :
    (decode code).fault = none
      ↔ Instruction.Chain code 0 (decode code).instructions code.length := by
  obtain ⟨stop, hchain, hstops⟩ := chain_decode code
  rw [hstops.fault_eq_none_iff]
  constructor
  · rintro rfl
    exact hchain
  · intro hcovers
    -- No chain goes on behind the end of the array either, so both stop at one offset.
    obtain ⟨cause, hstop⟩ := hstops.lengthAt_eq_error
    exact hchain.stop_unique hstop hcovers
      (Instruction.lengthAt_eq_error_of_le (Nat.le_refl code.length))

theorem checkStart_eq_ok_iff (listing : Listing) (pc : Nat) :
    listing.checkStart pc = .ok ()
      ↔ ∃ instruction ∈ listing.instructions, instruction.start = pc := by
  unfold checkStart
  split
  · rename_i hany
    simpa using hany
  · rename_i hany
    constructor
    · intro h
      cases h
    · rintro ⟨instruction, hmem, hstart⟩
      refine absurd (List.any_eq_true.mpr ⟨instruction, hmem, ?_⟩) hany
      exact beq_iff_eq.mpr hstart

end Listing

/-! ## Going through a code array one call at a time -/

/-- An iterator over the instructions of a code array, at some offset of it. -/
structure Cursor where
  code : List UInt8
  position : Nat

namespace Cursor

/-- What a call for the next instruction gives and reports, and the iterator it leaves. -/
structure Call where
  yielded : Option Instruction
  warnings : List Warning
  left : Cursor

/-- Asks for the next instruction.  Where none decodes, the iterator reports why and goes to the end
of the array. -/
def next (cursor : Cursor) : Call :=
  if cursor.code.length ≤ cursor.position then ⟨none, [], cursor⟩
  else
    match Instruction.lengthAt cursor.code cursor.position with
    | .ok length =>
      ⟨some (Instruction.slice cursor.code cursor.position length), [],
        { cursor with position := cursor.position + length }⟩
    | .error cause =>
      ⟨none, [.undecodable cause], { cursor with position := cursor.code.length }⟩

/-- The iterator that a number of calls leave. -/
def after (cursor : Cursor) : (calls : Nat) → Cursor
  | 0 => cursor
  | calls + 1 => cursor.next.left.after calls

/-- What one more call does after a number of them. -/
def call (cursor : Cursor) (calls : Nat) : Call := (cursor.after calls).next

theorem next_of_le {cursor : Cursor} (h : cursor.code.length ≤ cursor.position) :
    cursor.next = ⟨none, [], cursor⟩ :=
  if_pos h

/-- An iterator at the end of its array stays there. -/
theorem call_of_le {cursor : Cursor} (h : cursor.code.length ≤ cursor.position) (calls : Nat) :
    cursor.call calls = ⟨none, [], cursor⟩ := by
  have hafter : cursor.after calls = cursor := by
    induction calls with
    | zero => rfl
    | succ calls ih =>
      rw [after, next_of_le h]
      exact ih
  rw [call, hafter, next_of_le h]

theorem next_of_ok {code : List UInt8} {start length : Nat}
    (h : Instruction.lengthAt code start = .ok length) :
    next ⟨code, start⟩
      = ⟨some (Instruction.slice code start length), [], ⟨code, start + length⟩⟩ := by
  obtain ⟨-, hpos, hle⟩ := Instruction.lengthAt_eq_ok h
  have hinside : ¬ code.length ≤ start := by omega
  simp only [next, if_neg hinside, h]

theorem next_of_error {code : List UInt8} {start : Nat} {cause : Error}
    (hinside : start < code.length) (h : Instruction.lengthAt code start = .error cause) :
    next ⟨code, start⟩ = ⟨none, [.undecodable cause], ⟨code, code.length⟩⟩ := by
  have hinside : ¬ code.length ≤ start := by omega
  simp only [next, if_neg hinside, h]

/-- Call after call, an iterator yields the chain at its offset and then nothing any more.  Only the
first call behind the chain reports, and only if the chain stops early. -/
theorem call_chain {code : List UInt8} {start stop : Nat} {instructions : List Instruction}
    {fault : Option Error} (h : Instruction.Chain code start instructions stop)
    (hstops : Listing.Stops code stop fault) (calls : Nat) :
    (call ⟨code, start⟩ calls).yielded = instructions[calls]?
      ∧ (call ⟨code, start⟩ calls).warnings
        = if calls = instructions.length then fault.toList.map .undecodable else [] := by
  induction h generalizing calls with
  | nil start =>
    cases hstops with
    | atEnd =>
      rw [call_of_le (Nat.le_refl code.length)]
      simp
    | atFault hinside hlength =>
      cases calls with
      | zero =>
        rw [call, after, next_of_error hinside hlength]
        exact ⟨rfl, rfl⟩
      | succ calls =>
        -- The call that reports has moved to the end of the array, where nothing is found again.
        have hcall : call ⟨code, start⟩ (calls + 1) = call ⟨code, code.length⟩ calls := by
          rw [call, after, next_of_error hinside hlength, call]
        rw [hcall, call_of_le (Nat.le_refl code.length)]
        exact ⟨rfl, rfl⟩
  | @cons start length stop others hlength hothers ih =>
    cases calls with
    | zero =>
      rw [call, after, next_of_ok hlength]
      exact ⟨rfl, rfl⟩
    | succ calls =>
      have hcall : call ⟨code, start⟩ (calls + 1) = call ⟨code, start + length⟩ calls := by
        rw [call, after, next_of_ok hlength, call]
      obtain ⟨hyielded, hwarnings⟩ := ih hstops calls
      rw [hcall, List.getElem?_cons_succ, List.length_cons]
      refine ⟨hyielded, ?_⟩
      rw [hwarnings]
      simp only [Nat.add_right_cancel_iff]

end Cursor

/-! ## Adding up lengths -/

/-- The loop that checks a code array: it goes from instruction to instruction and counts them. -/
def Code.countFrom (code : List UInt8) (start count : Nat) : Except Error Nat :=
  if start < code.length then
    match h : Instruction.lengthAt code start with
    | .ok length => countFrom code (start + length) (count + 1)
    | .error cause => .error cause
  else .ok count
termination_by code.length - start
decreasing_by
  have hpos := (Instruction.lengthAt_eq_ok h).2.1
  omega

theorem Code.countFrom_chain {code : List UInt8} {start stop : Nat}
    {instructions : List Instruction} {fault : Option Error}
    (h : Instruction.Chain code start instructions stop) (hstops : Listing.Stops code stop fault)
    (count : Nat) :
    countFrom code start count = fault.elim (.ok (count + instructions.length)) .error := by
  induction h generalizing count with
  | nil start =>
    cases hstops with
    | atEnd =>
      unfold countFrom
      rw [if_neg (Nat.lt_irrefl code.length)]
      rfl
    | atFault hinside hlength =>
      unfold countFrom
      rw [if_pos hinside]
      split
      · rename_i length hok
        rw [hlength] at hok
        cases hok
      · rename_i cause' herror
        rw [hlength] at herror
        cases herror
        rfl
  | @cons start length stop others hlength hothers ih =>
    obtain ⟨-, hpos, hle⟩ := Instruction.lengthAt_eq_ok hlength
    have hinside : start < code.length := by omega
    unfold countFrom
    rw [if_pos hinside]
    split
    · rename_i length' hok
      rw [hlength] at hok
      cases hok
      rw [ih hstops (count + 1), List.length_cons]
      cases fault with
      | none =>
        rw [Option.elim_none, Option.elim_none, Nat.add_assoc, Nat.add_comm 1]
      | some cause => rfl
    · rename_i cause herror
      rw [hlength] at herror
      cases herror

/-- The check of a code array and the loop pass and fail alike. -/
theorem Code.check_eq_countFrom (bytes : List UInt8) :
    Code.check bytes = (countFrom bytes 0 0).map fun _ => () := by
  obtain ⟨stop, hchain, hstops⟩ := Listing.chain_decode bytes
  rw [countFrom_chain hchain hstops 0, Code.check]
  cases (Listing.decode bytes).fault <;> rfl

end ClassFormat
