/-
# ClassFormat.Proofs.Layout.Constants: the constant pool as it is written

An entry is written as its tag and its contents, and a pool as one more than the numbers its entries
take and then the entries.  The reader counts numbers and not entries, so the invariant of its loop
is that the numbers still to come are the widths of the entries still to come.
-/
import ClassFormat.Constant.Pool
import ClassFormat.Proofs.Layout.Reads
import ClassFormat.Proofs.Text.Encoding

namespace ClassFormat

open Text

/-! ## Entries -/

def HandleKind.encode (kind : HandleKind) : List UInt8 := Writer.u8 kind.number

def MemberRef.encode (ref : MemberRef) : List UInt8 :=
  Writer.u16 ref.owner ++ Writer.u16 ref.nameAndType

def NameAndType.encode (pair : NameAndType) : List UInt8 :=
  Writer.u16 pair.name ++ Writer.u16 pair.descriptor

def MethodHandle.encode (handle : MethodHandle) : List UInt8 :=
  handle.kind.encode ++ Writer.u16 handle.reference

def DynamicRef.encode (ref : DynamicRef) : List UInt8 :=
  Writer.u16 ref.bootstrap ++ Writer.u16 ref.nameAndType

theorem HandleKind.reads (kind : HandleKind) : Reads HandleKind.reader kind.encode kind :=
  (Reads.u8 kind.number).check (ofNumber_number kind)

theorem MemberRef.reads (ref : MemberRef) : Reads MemberRef.reader ref.encode ref :=
  (Reads.u16 ref.owner).bind (Reads.u16 ref.nameAndType).map

theorem NameAndType.reads (pair : NameAndType) : Reads NameAndType.reader pair.encode pair :=
  (Reads.u16 pair.name).bind (Reads.u16 pair.descriptor).map

theorem MethodHandle.reads (handle : MethodHandle) :
    Reads MethodHandle.reader handle.encode handle :=
  (HandleKind.reads handle.kind).bind (Reads.u16 handle.reference).map

theorem DynamicRef.reads (ref : DynamicRef) : Reads DynamicRef.reader ref.encode ref :=
  (Reads.u16 ref.bootstrap).bind (Reads.u16 ref.nameAndType).map

namespace Constant

/-- Text as its length in bytes and that many bytes. -/
def encodeText (text : String) : List UInt8 :=
  Writer.u16 (UInt16.ofNat (ModifiedUtf8.encode text).length) ++ ModifiedUtf8.encode text

/-- What stands behind the tag of an entry. -/
def encodeBody : Constant → List UInt8
  | utf8 text => encodeText text
  | integer value => Writer.i32 value
  | float word => Writer.u32 word
  | long value => Writer.i64 value
  | double word => Writer.u64 word
  | classRef name => Writer.u16 name
  | string text => Writer.u16 text
  | fieldRef ref => ref.encode
  | methodRef ref => ref.encode
  | interfaceMethodRef ref => ref.encode
  | nameAndType pair => pair.encode
  | methodHandle handle => handle.encode
  | methodType descriptor => Writer.u16 descriptor
  | dynamic ref => ref.encode
  | invokeDynamic ref => ref.encode
  | moduleRef name => Writer.u16 name
  | packageRef name => Writer.u16 name

def encode (constant : Constant) : List UInt8 :=
  Writer.u8 constant.kind.tag ++ constant.encodeBody

/-- The length of a text has to fit its two bytes; nothing else in an entry is bounded. -/
def Fits : Constant → Prop
  | utf8 text => (ModifiedUtf8.encode text).length < UInt16.size
  | _ => True

theorem reads_text {text : String} (h : (ModifiedUtf8.encode text).length < UInt16.size) :
    Reads textReader (encodeText text) text := by
  have hlength : (ModifiedUtf8.encode text).length
      = (UInt16.ofNat (ModifiedUtf8.encode text).length).toNat :=
    (UInt16.toNat_ofNat_of_lt' h).symm
  exact (Reads.u16 _).bind ((Reads.run hlength).check (ModifiedUtf8.decode_encode text))

theorem reads_body {constant : Constant} (h : constant.Fits) :
    Reads (bodyReader constant.kind) constant.encodeBody constant := by
  cases constant with
  | utf8 text => exact (reads_text h).map
  | integer value => exact (Reads.i32 value).map
  | float word => exact (Reads.u32 word).map
  | long value => exact (Reads.i64 value).map
  | double word => exact (Reads.u64 word).map
  | classRef name => exact (Reads.u16 name).map
  | string text => exact (Reads.u16 text).map
  | fieldRef ref => exact (MemberRef.reads ref).map
  | methodRef ref => exact (MemberRef.reads ref).map
  | interfaceMethodRef ref => exact (MemberRef.reads ref).map
  | nameAndType pair => exact (NameAndType.reads pair).map
  | methodHandle handle => exact (MethodHandle.reads handle).map
  | methodType descriptor => exact (Reads.u16 descriptor).map
  | dynamic ref => exact (DynamicRef.reads ref).map
  | invokeDynamic ref => exact (DynamicRef.reads ref).map
  | moduleRef name => exact (Reads.u16 name).map
  | packageRef name => exact (Reads.u16 name).map

/-- An entry is read back at any index: the index only shows in errors. -/
theorem reads {constant : Constant} (h : constant.Fits) (index : Nat) :
    Reads (reader index) constant.encode constant := by
  refine (Reads.u8 constant.kind.tag).bind ?_
  rw [ConstantKind.ofTag?_tag]
  exact reads_body h

theorem width_pos (constant : Constant) : 0 < HasWidth.width constant :=
  constant.kind.width_pos

end Constant

/-! ## Numbering -/

namespace SlotTable

variable {α : Type} [HasWidth α]

/-- The numbers that some elements take together. -/
def totalWidth : List α → Nat
  | [] => 0
  | element :: elements => HasWidth.width element + totalWidth elements

theorem totalWidth_cons (element : α) (elements : List α) :
    totalWidth (element :: elements) = HasWidth.width element + totalWidth elements := rfl

theorem next_foldl_push (elements : List α) (table : SlotTable α) :
    (elements.foldl push table).next = table.next + totalWidth elements := by
  induction elements generalizing table with
  | nil => rfl
  | cons element elements ih =>
    rw [List.foldl_cons, ih, totalWidth_cons]
    exact Nat.add_assoc _ _ _

theorem next_ofListFrom (offset : Nat) (elements : List α) :
    (ofListFrom offset elements).next = offset + totalWidth elements :=
  next_foldl_push elements (startingAt offset)

end SlotTable

/-! ## Pools -/

namespace ConstantPool

/-- The entries of a pool, in order. -/
def constants (pool : ConstantPool) : List Constant := pool.slots.entries.toList.map Prod.snd

def encode (pool : ConstantPool) : List UInt8 :=
  Writer.u16 pool.count ++ pool.constants.flatMap Constant.encode

/-- A pool that a class file can hold: the entries are numbered from 1 one after the other, their
numbers fit two bytes together with the number behind them, and so does every text. -/
structure Representable (pool : ConstantPool) : Prop where
  numbered : pool = ofList pool.constants
  width_le : SlotTable.totalWidth pool.constants ≤ 65534
  fits : ∀ constant ∈ pool.constants, constant.Fits

/-- The invariant of the loop: what is left to number is what the entries to come will take. -/
theorem reads_slots {constants : List Constant} (hfits : ∀ constant ∈ constants, constant.Fits)
    {count fuel : Nat} {slots : SlotTable Constant}
    (hcount : slots.next + SlotTable.totalWidth constants = count)
    (hfuel : SlotTable.totalWidth constants ≤ fuel) :
    Reads (slotsReader count fuel slots) (constants.flatMap Constant.encode)
      (constants.foldl SlotTable.push slots) := by
  induction constants generalizing fuel slots with
  | nil =>
    -- Nothing is left to number, so the loop stops, whether or not there is fuel.
    have hend : ¬ slots.next < count := by
      rw [← hcount]
      simp [SlotTable.totalWidth]
    cases fuel with
    | zero => exact Reads.pure slots
    | succ fuel =>
      rw [slotsReader, if_neg hend]
      exact Reads.pure slots
  | cons constant constants ih =>
    have hpos : 0 < HasWidth.width constant := constant.width_pos
    rw [SlotTable.totalWidth_cons] at hcount hfuel
    cases fuel with
    | zero => omega
    | succ fuel =>
      -- The numbers that are left include those of this entry, so it cannot reach past the end.
      have hmore : slots.next < count := by omega
      have hroom : ¬ count < slots.next + HasWidth.width constant := by omega
      have hothers : Reads (slotsReader count fuel (slots.push constant))
          (constants.flatMap Constant.encode)
          (constants.foldl SlotTable.push (slots.push constant)) :=
        ih (fun other hother => hfits other (by simp [hother]))
          (by rw [SlotTable.push, Nat.add_assoc]; exact hcount) (by omega)
      rw [slotsReader, if_pos hmore, List.flatMap_cons, List.foldl_cons]
      refine (Constant.reads (hfits constant (by simp)) slots.next).bind ?_
      rw [if_neg hroom]
      exact hothers

theorem Representable.count_toNat {pool : ConstantPool} (h : pool.Representable) :
    pool.count.toNat = 1 + SlotTable.totalWidth pool.constants := by
  have hnext : pool.slots.next = 1 + SlotTable.totalWidth pool.constants := by
    have hslots : pool.slots = SlotTable.ofListFrom 1 pool.constants := congrArg slots h.numbered
    rw [hslots, SlotTable.next_ofListFrom]
  have hle := h.width_le
  rw [count, hnext]
  exact UInt16.toNat_ofNat_of_lt' (show _ < 65536 by omega)

theorem reads {pool : ConstantPool} (h : pool.Representable) : Reads reader pool.encode pool := by
  have hcount := h.count_toNat
  have hslots : Reads (slotsReader pool.count.toNat pool.count.toNat (SlotTable.startingAt 1))
      (pool.constants.flatMap Constant.encode) (SlotTable.ofListFrom 1 pool.constants) :=
    reads_slots h.fits hcount.symm (by omega)
  have hread : Reads reader pool.encode (ofList pool.constants) :=
    (Reads.u16 pool.count).bind hslots.map
  rwa [← h.numbered] at hread

end ConstantPool

end ClassFormat
