/-
# ClassFormat.Proofs.Layout.Reads: what a reader makes of the bytes in front of it

`Reads reader bytes value` says that a reader takes exactly `bytes` off the front of its input and
makes `value` of them, whatever follows and however the input ends.  The relation composes along
the layout: a reader that runs two readers in a row reads the bytes of the first followed by the
bytes of the second.

Beside each reader of a number or of a table stands the writer of the same layout, so that the
layouts built from them need one lemma each.
-/
import ClassFormat.Reader

namespace ClassFormat

/-! ## Numbers as bytes -/

/-- The `size` low bytes of a number, the most significant first. -/
def bigEndianBytes : (size value : Nat) → List UInt8
  | 0, _ => []
  | size + 1, value => bigEndianBytes size (value / 256) ++ [UInt8.ofNat value]

@[simp]
theorem length_bigEndianBytes (size value : Nat) : (bigEndianBytes size value).length = size := by
  induction size generalizing value with
  | zero => rfl
  | succ size ih => simp [bigEndianBytes, ih]

theorem bigEndian_concat (bytes : List UInt8) (byte : UInt8) :
    bigEndian (bytes ++ [byte]) = bigEndian bytes * 256 + byte.toNat := by
  simp [bigEndian]

theorem bigEndian_bigEndianBytes (size value : Nat) :
    bigEndian (bigEndianBytes size value) = value % Nat.pow 256 size := by
  induction size generalizing value with
  | zero => exact (Nat.mod_one value).symm
  | succ size ih =>
    have hbyte : (UInt8.ofNat value).toNat = value % 256 := UInt8.toNat_ofNat'
    show _ = value % (Nat.pow 256 size * 256)
    rw [bigEndianBytes, bigEndian_concat, ih, hbyte, Nat.mul_comm (Nat.pow 256 size) 256,
      Nat.mod_mul, Nat.mul_comm, Nat.add_comm]

/-- What holds of the 256 bytes one by one holds of every byte. -/
theorem forall_byte {property : UInt8 → Prop} (h : ∀ n < 256, property (UInt8.ofNat n))
    (byte : UInt8) : property byte := by
  have hbyte := h byte.toNat byte.toNat_lt
  rwa [UInt8.ofNat_toNat] at hbyte

/-! ## Reading what was written -/

/-- The reader takes exactly `bytes` off the front of any input and makes `value` of them. -/
def Reads {α : Type} (reader : Reader α) (bytes : List UInt8) (value : α) : Prop :=
  ∀ (rest : List UInt8) (ending : Ending),
    reader ⟨bytes ++ rest, ending⟩ = .ok (value, ⟨rest, ending⟩)

namespace Reads

variable {α β : Type} {reader : Reader α} {bytes others : List UInt8} {value : α}

theorem pure (value : α) : Reads (Pure.pure value : Reader α) [] value := by
  intro rest ending
  rfl

/-- One reader after the other reads what the first reads and then what the second reads. -/
theorem bind {next : α → Reader β} {result : β} (h : Reads reader bytes value)
    (hnext : Reads (next value) others result) :
    Reads (reader >>= next) (bytes ++ others) result := by
  intro rest ending
  show (reader ⟨bytes ++ others ++ rest, ending⟩ >>= fun (v, left) => next v left) = _
  rw [List.append_assoc, h (others ++ rest) ending]
  exact hnext rest ending

/-- Nothing is added by a second reader that takes nothing. -/
theorem bind_nil {next : α → Reader β} {result : β} (h : Reads reader bytes value)
    (hnext : Reads (next value) [] result) : Reads (reader >>= next) bytes result := by
  have hbind := h.bind hnext
  rwa [List.append_nil] at hbind

/-- A reader that ends with a computation reads what it reads without it. -/
theorem map {f : α → β} (h : Reads reader bytes value) :
    Reads (do return f (← reader)) bytes (f value) :=
  h.bind_nil (Reads.pure (f value))

/-- A check that passes takes nothing off the input. -/
theorem lift {result : Except Error α} (h : result = .ok value) :
    Reads (Reader.lift result) [] value := by
  intro rest ending
  rw [h]
  rfl

/-- A reader that ends with a check reads what it reads without it. -/
theorem check {f : α → Except Error β} {result : β} (h : Reads reader bytes value)
    (hf : f value = .ok result) : Reads (do Reader.lift (f (← reader))) bytes result :=
  h.bind_nil (Reads.lift hf)

/-- A check that passes in front of a reader changes nothing. -/
theorem lift_bind {result : Except Error α} {next : α → Reader β} {out : β}
    (h : result = .ok value) (hnext : Reads (next value) bytes out) :
    Reads (Reader.lift result >>= next) bytes out := by
  have hbind := (Reads.lift h).bind hnext
  rwa [List.nil_append] at hbind

theorem item {size : Nat} (h : bytes.length = size) : Reads (Reader.item size) bytes bytes := by
  intro rest ending
  have hsplit : splitExact size (bytes ++ rest) = some (bytes, rest) :=
    splitExact_eq_some_iff.2 ⟨rfl, h⟩
  simp only [Reader.item, hsplit]

theorem run {count : Nat} (h : bytes.length = count) : Reads (Reader.run count) bytes bytes := by
  intro rest ending
  have hsplit : splitExact count (bytes ++ rest) = some (bytes, rest) :=
    splitExact_eq_some_iff.2 ⟨rfl, h⟩
  simp only [Reader.run, hsplit]

end Reads

/-! ## Writers of numbers -/

namespace Writer

def u8 (value : UInt8) : List UInt8 := bigEndianBytes 1 value.toNat

def u16 (value : UInt16) : List UInt8 := bigEndianBytes 2 value.toNat

def u32 (value : UInt32) : List UInt8 := bigEndianBytes 4 value.toNat

def u64 (value : UInt64) : List UInt8 := bigEndianBytes 8 value.toNat

def i32 (value : Int32) : List UInt8 := u32 value.toUInt32

def i64 (value : Int64) : List UInt8 := u64 value.toUInt64

/-- A pool index that stands for nothing is written as zero. -/
def optionalIndex (index : Option PoolIndex) : List UInt8 := u16 (index.getD 0)

@[simp]
theorem length_u8 (value : UInt8) : (u8 value).length = 1 := length_bigEndianBytes 1 _

@[simp]
theorem length_u16 (value : UInt16) : (u16 value).length = 2 := length_bigEndianBytes 2 _

@[simp]
theorem length_u32 (value : UInt32) : (u32 value).length = 4 := length_bigEndianBytes 4 _

end Writer

namespace Reads

/-- A number is read back from its bytes when they are enough for it. -/
theorem number {α : Type} {size n : Nat} {ofNat : Nat → α} {value : α} (hn : n < Nat.pow 256 size)
    (hvalue : ofNat n = value) :
    Reads (do return ofNat (bigEndian (← Reader.item size))) (bigEndianBytes size n) value := by
  have hread : Reads (do return ofNat (bigEndian (← Reader.item size))) (bigEndianBytes size n)
      (ofNat (bigEndian (bigEndianBytes size n))) :=
    (item (length_bigEndianBytes size n)).map
  -- The bytes keep what is left of the number modulo their range, which is all of it.
  rwa [bigEndian_bigEndianBytes, Nat.mod_eq_of_lt hn, hvalue] at hread

theorem u8 (value : UInt8) : Reads Reader.u8 (Writer.u8 value) value :=
  number value.toNat_lt UInt8.ofNat_toNat

theorem u16 (value : UInt16) : Reads Reader.u16 (Writer.u16 value) value :=
  number value.toNat_lt UInt16.ofNat_toNat

theorem u32 (value : UInt32) : Reads Reader.u32 (Writer.u32 value) value :=
  number value.toNat_lt UInt32.ofNat_toNat

theorem u64 (value : UInt64) : Reads Reader.u64 (Writer.u64 value) value :=
  number value.toNat_lt UInt64.ofNat_toNat

theorem i32 (value : Int32) : Reads Reader.i32 (Writer.i32 value) value :=
  (u32 value.toUInt32).map

theorem i64 (value : Int64) : Reads Reader.i64 (Writer.i64 value) value :=
  (u64 value.toUInt64).map

/-- An index that is present has to be told from an absent one. -/
theorem optionalIndex {index : Option PoolIndex} (h : index ≠ some 0) :
    Reads Reader.optionalIndex (Writer.optionalIndex index) index := by
  have hread : Reads Reader.optionalIndex (Writer.optionalIndex index)
      (if index.getD 0 = 0 then none else some (index.getD 0)) :=
    (u16 (index.getD 0)).map
  have hindex : (if index.getD 0 = 0 then none else some (index.getD 0)) = index := by
    cases index with
    | none => rfl
    | some index => simp_all
  rwa [hindex] at hread

end Reads

/-! ## Tables -/

namespace Writer

variable {α : Type}

/-- A table whose entries follow their two-byte number. -/
def table (item : α → List UInt8) (items : List α) : List UInt8 :=
  u16 (UInt16.ofNat items.length) ++ items.flatMap item

/-- A table whose entries follow their one-byte number. -/
def shortTable (item : α → List UInt8) (items : List α) : List UInt8 :=
  u8 (UInt8.ofNat items.length) ++ items.flatMap item

theorem length_le_flatMap {write : α → List UInt8} {items : List α} {x : α} (h : x ∈ items) :
    (write x).length ≤ (items.flatMap write).length := by
  rw [List.flatMap_def]
  exact (List.sublist_flatten_of_mem (List.mem_map_of_mem h)).length_le

/-- A table is longer than any of its entries. -/
theorem length_lt_table {write : α → List UInt8} {items : List α} {x : α} (h : x ∈ items) :
    (write x).length < (table write items).length := by
  have hle : (write x).length ≤ (items.flatMap write).length := length_le_flatMap h
  rw [table, List.length_append, length_u16]
  omega

end Writer

namespace Reads

variable {α : Type} {item : Reader α} {write : α → List UInt8} {items : List α}

theorem times (h : ∀ x ∈ items, Reads item (write x) x) :
    Reads (Reader.times items.length item) (items.flatMap write) items := by
  induction items with
  | nil => exact Reads.pure []
  | cons x items ih =>
    have hfirst : Reads item (write x) x := h x (by simp)
    have hothers : Reads (Reader.times items.length item) (items.flatMap write) items :=
      ih fun y hy => h y (by simp [hy])
    rw [List.flatMap_cons]
    exact hfirst.bind hothers.map

theorem table (hfits : items.length < UInt16.size) (h : ∀ x ∈ items, Reads item (write x) x) :
    Reads (Reader.table item) (Writer.table write items) items := by
  have hcount : (UInt16.ofNat items.length).toNat = items.length :=
    UInt16.toNat_ofNat_of_lt' hfits
  refine (u16 (UInt16.ofNat items.length)).bind ?_
  rw [hcount]
  exact times h

theorem shortTable (hfits : items.length < UInt8.size) (h : ∀ x ∈ items, Reads item (write x) x) :
    Reads (Reader.shortTable item) (Writer.shortTable write items) items := by
  have hcount : (UInt8.ofNat items.length).toNat = items.length :=
    UInt8.toNat_ofNat_of_lt' hfits
  refine (u8 (UInt8.ofNat items.length)).bind ?_
  rw [hcount]
  exact times h

/-- A table of two-byte numbers. -/
theorem numbers {values : List UInt16} (hfits : values.length < UInt16.size) :
    Reads (Reader.table Reader.u16) (Writer.table Writer.u16 values) values :=
  table hfits fun value _ => u16 value

end Reads

end ClassFormat
