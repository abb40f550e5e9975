/-
# ClassFormat.Proofs.Constant.Walk: a walk through the pool meets every index

The entries of a pool and the second indices of its eight-byte constants tile the numbers from 1 up
to the declared size.  A walk lists them entry by entry, from the offset at which each one starts, so
that it meets every number once and in order.

Offsets are natural numbers and indices have 16 bits.  What the reader accepts is never too large
for them: no offset is cut off, and no sum of an index and a place in an entry comes round.
-/
import ClassFormat.Proofs.Constant.Grammar
import ClassFormat.Traversal
import Mathlib.Data.List.Forall2

namespace ClassFormat

namespace SlotTable

variable {α : Type} [HasWidth α] {offset number : Nat} {elements : List α} {element : α}

theorem mem_numbered_iff :
    (number, element) ∈ numbered offset elements
      ↔ ∃ p, elements[p]? = some element ∧ number = offset + totalWidth (elements.take p) := by
  rw [List.mem_iff_getElem?]
  refine exists_congr fun p => ?_
  rw [getElem?_numbered, Option.map_eq_some_iff]
  constructor
  · rintro ⟨found, hfound, heq⟩
    cases heq
    exact ⟨hfound, rfl⟩
  · rintro ⟨hfound, rfl⟩
    exact ⟨element, hfound, rfl⟩

/-- No slot of an element is behind the end of the table. -/
theorem slots_le_of_mem_numbered (h : (number, element) ∈ numbered offset elements) :
    number + HasWidth.width element ≤ offset + totalWidth elements := by
  obtain ⟨p, hp, rfl⟩ := mem_numbered_iff.mp h
  have hnext := totalWidth_take_succ hp
  have hle := totalWidth_take_le_self elements (p + 1)
  omega

end SlotTable

namespace ConstantPool

open SlotTable (numbered totalWidth)

/-! ## Numbers and what is met there -/

/-- The visit of a number that fits an index: of the entry that the index finds, or of an index that
finds none. -/
inductive VisitsNumber (pool : ConstantPool) (number : Nat) : Visit → Prop
  | entry {index : PoolIndex} {constant : Constant} (hindex : index.toNat = number)
      (h : pool.get index = .ok constant) : VisitsNumber pool number (.constant index constant)
  | unusable {index : PoolIndex} (hindex : index.toNat = number)
      (h : pool.get index = .error (.invalidIndex index)) :
      VisitsNumber pool number (.unusable index)

/-- Every number of an entry fits an index: neither its offset nor the sum of its offset and a place
in it has to be cut off.  The size of the pool fits too. -/
structure FitsIndices (pool : ConstantPool) : Prop where
  slot_lt : ∀ offset position constant, (offset, position, constant) ∈ pool.slots.toList →
    ∀ place < HasWidth.width constant, offset + place < 65536
  next_lt : pool.slots.next < 65536

/-- The visits of an entry: the entry itself, and the other indices it takes. -/
def entryVisits (index : PoolIndex) (constant : Constant) : List Visit :=
  .constant index constant :: (List.range (HasWidth.width constant - 1)).map fun i =>
    .unusable (index + UInt16.ofNat (i + 1))

section Walk

variable {constants : List Constant}

theorem visits_ofList :
    (ofList constants).visits = .pool (ofList constants)
      :: (numbered 1 constants).flatMap fun entry =>
        entryVisits (UInt16.ofNat entry.1) entry.2 := by
  have hentries : (ofList constants).entries
      = (numbered 1 constants).map fun entry => (UInt16.ofNat entry.1, entry.2) := by
    rw [entries, SlotTable.toList, ofList, SlotTable.toList_ofListFrom, List.map_map]
    conv_rhs => rw [← List.zipIdx_map_fst 0 (numbered 1 constants), List.map_map]
    rfl
  rw [visits, hentries, List.flatMap_map]
  rfl

/-- An entry is found at its offset. -/
theorem get_of_mem_numbered {index : PoolIndex} {constant : Constant}
    (h : (index.toNat, constant) ∈ numbered 1 constants) :
    (ofList constants).get index = .ok constant :=
  get_eq_ok_iff.mpr (SlotTable.mem_numbered_iff.mp h)

variable (hwidth : totalWidth constants ≤ 65534)

include hwidth

/-- Inside an entry, behind its offset, nothing is found. -/
theorem get_inside {start : Nat} {constant : Constant} {index : PoolIndex}
    (h : (start, constant) ∈ numbered 1 constants) (hstart : start < index.toNat)
    (hend : index.toNat < start + HasWidth.width constant) :
    (ofList constants).get index = .error (.invalidIndex index) := by
  obtain ⟨p, hp, rfl⟩ := SlotTable.mem_numbered_iff.mp h
  have hlarge : 1 < constant.kind.width := by
    have hkind : HasWidth.width constant = constant.kind.width := rfl
    omega
  have hwide := constant.kind.wide_iff.mp hlarge
  have htwo : HasWidth.width constant = 2 := Constant.width_of_wide hwide
  exact (get_eq_error_iff hwidth).mpr (.inr (.inr ⟨p, constant, hp, hwide, by omega⟩))

/-- The visits of one entry are of the numbers it takes, in order. -/
theorem visitsNumber_entry {offset : Nat} {constant : Constant}
    (h : (offset, constant) ∈ numbered 1 constants) :
    List.Forall₂ (VisitsNumber (ofList constants))
      (List.range' offset (HasWidth.width constant))
      (entryVisits (UInt16.ofNat offset) constant) := by
  have hle := SlotTable.slots_le_of_mem_numbered h
  have hpos : 0 < HasWidth.width constant := constant.width_pos
  have hfits : ∀ place < HasWidth.width constant,
      (UInt16.ofNat (offset + place)).toNat = offset + place := fun place hplace =>
    UInt16.toNat_ofNat_of_lt' (show _ < 65536 by omega)
  obtain ⟨more, hmore⟩ : ∃ more, HasWidth.width constant = more + 1 :=
    ⟨HasWidth.width constant - 1, by omega⟩
  rw [entryVisits, hmore, List.range'_succ, Nat.add_sub_cancel]
  refine .cons ?_ ?_
  · have hoffset := hfits 0 hpos
    exact .entry hoffset (get_of_mem_numbered (hoffset ▸ h))
  · rw [List.range'_eq_map_range, List.forall₂_map_left_iff, List.forall₂_map_right_iff,
      List.forall₂_same]
    intro i hi
    have hlt := List.mem_range.mp hi
    have hsum : UInt16.ofNat offset + UInt16.ofNat (i + 1) = UInt16.ofNat (offset + (i + 1)) :=
      (UInt16.ofNat_add offset (i + 1)).symm
    have hindex := hfits (i + 1) (by omega)
    rw [hsum]
    refine .unusable (hindex.trans (by omega)) (get_inside hwidth h ?_ ?_)
    · omega
    · omega

/-- The visits of entries that follow each other are of consecutive numbers. -/
theorem visitsNumber_numbered {offset : Nat} {behind : List Constant}
    (h : numbered offset behind ⊆ numbered 1 constants) :
    List.Forall₂ (VisitsNumber (ofList constants)) (List.range' offset (totalWidth behind))
      ((numbered offset behind).flatMap fun entry =>
        entryVisits (UInt16.ofNat entry.1) entry.2) := by
  induction behind generalizing offset with
  | nil => exact .nil
  | cons constant behind ih =>
    obtain ⟨hfirst, hrest⟩ := List.cons_subset.mp h
    rw [SlotTable.totalWidth_cons, ← List.range'_append_1, numbered, List.flatMap_cons]
    exact List.rel_append (visitsNumber_entry hwidth hfirst) (ih hrest)

theorem fitsIndices_ofList : FitsIndices (ofList constants) where
  slot_lt := by
    intro offset position constant hmem place hplace
    obtain ⟨_, hentry, heq⟩ := List.mem_map.mp hmem
    cases heq
    have hnumbered := List.fst_mem_of_mem_zipIdx hentry
    rw [ofList, SlotTable.toList_ofListFrom] at hnumbered
    have hle := SlotTable.slots_le_of_mem_numbered hnumbered
    omega
  next_lt := by
    have hnext : (ofList constants).slots.next = 1 + totalWidth constants :=
      SlotTable.next_ofListFrom 1 constants
    omega

end Walk

/-- A walk through a pool that was read visits the pool and then every number below its size, from 1
upwards, each once: the entry that the index finds, or an index that finds none.  All of these
numbers fit the indices that they are written as. -/
theorem visits_every_index {bytes : List UInt8} {ending : Ending} {pool : ConstantPool}
    {left : Input} (h : reader ⟨bytes, ending⟩ = .ok (pool, left)) :
    FitsIndices pool
      ∧ ∃ visits, pool.visits = .pool pool :: visits
          ∧ List.Forall₂ (VisitsNumber pool) (List.range' 1 (pool.count.toNat - 1)) visits := by
  obtain ⟨own, count, constants, ⟨-, -, -, hsize⟩, -, -, rfl⟩ := reader_eq_ok_iff.mp h
  have hcount : count.toNat < 65536 := count.toNat_lt
  have hwidth : totalWidth constants ≤ 65534 := by omega
  refine ⟨fitsIndices_ofList hwidth, _, visits_ofList, ?_⟩
  rw [count_ofList hwidth, Nat.add_sub_cancel_left]
  exact visitsNumber_numbered hwidth (List.Subset.refl _)

/-- A pool that ends with an eight-byte constant, of which the second index is the last there is. -/
theorem visits_every_index_long :
    reader ⟨[0, 4, 1, 0, 1, 65, 5, 0, 0, 0, 0, 0, 0, 0, 7], .finished⟩
        = .ok (ofList [.utf8 "A", .long 7], ⟨[], .finished⟩)
      ∧ (ofList [.utf8 "A", .long 7]).visits = [.pool (ofList [.utf8 "A", .long 7]),
          .constant 1 (.utf8 "A"), .constant 2 (.long 7), .unusable 3]
      ∧ FitsIndices (ofList [.utf8 "A", .long 7])
      ∧ ∃ visits, (ofList [.utf8 "A", .long 7]).visits = .pool (ofList [.utf8 "A", .long 7]) :: visits
          ∧ List.Forall₂ (VisitsNumber (ofList [.utf8 "A", .long 7])) [1, 2, 3] visits := by
  have hread : reader ⟨[0, 4, 1, 0, 1, 65, 5, 0, 0, 0, 0, 0, 0, 0, 7], .finished⟩
      = .ok (ofList [.utf8 "A", .long 7], ⟨[], .finished⟩) := by rfl
  exact ⟨hread, rfl, visits_every_index hread⟩

end ConstantPool

end ClassFormat
