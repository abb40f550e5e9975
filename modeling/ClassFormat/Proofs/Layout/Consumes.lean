/-
# ClassFormat.Proofs.Layout.Consumes: the bytes that a value was made of

`Reads` goes from bytes to values: these bytes give this value.  `Reader.Consumes` goes back: a
value that a reader gives was made of the bytes it took off the front, and those bytes have the
layout.
With both directions a layout is known exactly.
-/
import ClassFormat.Proofs.Layout.Reads
import ClassFormat.Proofs.Outcome
import Mathlib.Data.List.Induction

namespace ClassFormat

/-! ## Numbers from their bytes -/

theorem bigEndian_lt (bytes : List UInt8) : bigEndian bytes < Nat.pow 256 bytes.length := by
  induction bytes using List.reverseRecOn with
  | nil => decide
  | append_singleton bytes byte ih =>
    have hbyte : byte.toNat < 256 := byte.toNat_lt
    rw [bigEndian_concat, List.length_append]
    show _ < Nat.pow 256 bytes.length * 256
    omega

theorem bigEndianBytes_bigEndian (bytes : List UInt8) :
    bigEndianBytes bytes.length (bigEndian bytes) = bytes := by
  induction bytes using List.reverseRecOn with
  | nil => rfl
  | append_singleton bytes byte ih =>
    have hbyte : byte.toNat < 256 := byte.toNat_lt
    have hhigh : (bigEndian bytes * 256 + byte.toNat) / 256 = bigEndian bytes := by omega
    have hlow : UInt8.ofNat (bigEndian bytes * 256 + byte.toNat) = byte := by
      apply UInt8.toNat_inj.mp
      rw [UInt8.toNat_ofNat']
      show _ % 256 = _
      omega
    rw [bigEndian_concat, List.length_append]
    show bigEndianBytes bytes.length _ ++ [_] = _
    rw [hhigh, hlow, ih]

/-- One byte is written as itself. -/
theorem Writer.u8_eq_singleton (value : UInt8) : u8 value = [value] := by
  show [UInt8.ofNat value.toNat] = [value]
  rw [UInt8.ofNat_toNat]

namespace Reader

/-- Every value that the reader gives is made of the bytes that it takes off the front, which have
the given layout. -/
def Consumes {α : Type} (reader : Reader α) (layout : List UInt8 → α → Prop) : Prop :=
  ∀ input value left, reader input = .ok (value, left) →
    ∃ own, input = ⟨own ++ left.bytes, left.ending⟩ ∧ layout own value

namespace Consumes

variable {α β : Type} {reader : Reader α} {layout : List UInt8 → α → Prop}
  {next : α → Reader β} {whole : List UInt8 → β → Prop}

theorem pure {value : α} (h : layout [] value) : Consumes (Pure.pure value) layout := by
  intro input found left hfound
  cases hfound
  exact ⟨[], rfl, h⟩

theorem fail {cause : Error} : Consumes (Reader.fail cause) layout := by
  intro input value left h
  cases h

/-- The bytes of the first reader come before those of the second. -/
theorem bind (h : Consumes reader layout)
    (hnext : ∀ value own, layout own value →
      Consumes (next value) fun others result => whole (own ++ others) result) :
    Consumes (reader >>= next) whole := by
  intro input result left hresult
  obtain ⟨⟨value, between⟩, hvalue, hafter⟩ := bind_eq_ok_iff.mp hresult
  obtain ⟨own, hinput, hown⟩ := h input value between hvalue
  obtain ⟨others, hbetween, hothers⟩ := hnext value own hown between result left hafter
  refine ⟨own ++ others, ?_, hothers⟩
  rw [hinput, hbetween, List.append_assoc]

/-- A check in front takes nothing, and what comes behind it may count on it. -/
theorem lift_bind {result : Except Error α}
    (hnext : ∀ value, result = .ok value → Consumes (next value) whole) :
    Consumes (Reader.lift result >>= next) whole := by
  intro input found left hfound
  obtain ⟨⟨value, between⟩, hvalue, hafter⟩ := bind_eq_ok_iff.mp hfound
  obtain ⟨checked, hchecked, heq⟩ := map_eq_ok_iff.mp hvalue
  cases heq
  exact hnext value hchecked input found left hafter

theorem map {f : α → β} (h : Consumes reader layout)
    (hf : ∀ value own, layout own value → whole own (f value)) :
    Consumes (do return f (← reader)) whole := by
  refine h.bind fun value own hown => pure ?_
  rw [List.append_nil]
  exact hf value own hown

/-- A check behind a reader takes nothing more. -/
theorem check {f : α → Except Error β} (h : Consumes reader layout)
    (hf : ∀ value own result, layout own value → f value = .ok result → whole own result) :
    Consumes (do Reader.lift (f (← reader))) whole := by
  intro input result left hresult
  obtain ⟨⟨value, between⟩, hvalue, hafter⟩ := bind_eq_ok_iff.mp hresult
  obtain ⟨own, hinput, hown⟩ := h input value between hvalue
  obtain ⟨found, hfound, heq⟩ := map_eq_ok_iff.mp hafter
  cases heq
  exact ⟨own, hinput, hf value own result hown hfound⟩

theorem mono {weaker : List UInt8 → α → Prop} (h : Consumes reader layout)
    (hweaker : ∀ own value, layout own value → weaker own value) : Consumes reader weaker := by
  intro input value left hvalue
  obtain ⟨own, hinput, hown⟩ := h input value left hvalue
  exact ⟨own, hinput, hweaker own value hown⟩

/-- Bytes that are split off the front as they are. -/
theorem front {reader : Reader (List UInt8)} {size : Nat} {short : Input → Error}
    (h : TakesFront reader size short) :
    Consumes reader fun own bytes => own = bytes ∧ bytes.length = size := by
  intro input bytes left hread
  rw [h] at hread
  split at hread
  · rename_i front rest hsplit
    obtain ⟨hbytes, hlength⟩ := splitExact_eq_some_iff.mp hsplit
    cases hread
    refine ⟨bytes, ?_, rfl, hlength⟩
    rw [← hbytes]
  · cases hread

theorem item (size : Nat) :
    Consumes (Reader.item size) fun own bytes => own = bytes ∧ bytes.length = size :=
  front (takesFront_item size)

theorem run (count : Nat) :
    Consumes (Reader.run count) fun own bytes => own = bytes ∧ bytes.length = count :=
  front (takesFront_run count)

/-- A number was made of its own bytes, if it keeps all that they can hold. -/
theorem number {size : Nat} {ofNat : Nat → α} {toNat : α → Nat}
    (h : ∀ n, n < Nat.pow 256 size → toNat (ofNat n) = n) :
    Consumes (do return ofNat (bigEndian (← Reader.item size)))
      fun own value => own = bigEndianBytes size (toNat value) := by
  refine (item size).map fun bytes own hown => ?_
  obtain ⟨rfl, hlength⟩ := hown
  have hlt : bigEndian own < Nat.pow 256 size := hlength ▸ bigEndian_lt own
  rw [h _ hlt, ← hlength, bigEndianBytes_bigEndian]

theorem u8 : Consumes Reader.u8 fun own value => own = Writer.u8 value :=
  number fun _ hn => UInt8.toNat_ofNat_of_lt' hn

theorem u16 : Consumes Reader.u16 fun own value => own = Writer.u16 value :=
  number fun _ hn => UInt16.toNat_ofNat_of_lt' hn

theorem u32 : Consumes Reader.u32 fun own value => own = Writer.u32 value :=
  number fun _ hn => UInt32.toNat_ofNat_of_lt' hn

theorem u64 : Consumes Reader.u64 fun own value => own = Writer.u64 value :=
  number fun _ hn => UInt64.toNat_ofNat_of_lt' hn

theorem i32 : Consumes Reader.i32 fun own value => own = Writer.i32 value :=
  u32.map fun value own hown => by rw [hown, Writer.i32, UInt32.toUInt32_toInt32]

theorem i64 : Consumes Reader.i64 fun own value => own = Writer.i64 value :=
  u64.map fun value own hown => by rw [hown, Writer.i64, UInt64.toUInt64_toInt64]

end Consumes

end Reader

/-! ## Parts of a layout -/

/-- Each of the values stands somewhere in the bytes, in the given layout. -/
def Contains {α : Type} (layout : List UInt8 → α → Prop) (bytes : List UInt8)
    (values : List α) : Prop :=
  ∀ value ∈ values, ∃ part, part <:+: bytes ∧ layout part value

namespace Contains

variable {α : Type} {layout : List UInt8 → α → Prop} {bytes others : List UInt8} {values : List α}

theorem nil : Contains layout bytes [] := fun _ hvalue => absurd hvalue List.not_mem_nil

theorem mono (h : Contains layout bytes values) (hbytes : bytes <:+: others) :
    Contains layout others values := by
  intro value hvalue
  obtain ⟨part, hpart, hlayout⟩ := h value hvalue
  exact ⟨part, hpart.trans hbytes, hlayout⟩

theorem behind (h : Contains layout bytes values) (front : List UInt8) :
    Contains layout (front ++ bytes) values :=
  h.mono (List.suffix_append front bytes).isInfix

theorem before (h : Contains layout bytes values) (back : List UInt8) :
    Contains layout (bytes ++ back) values :=
  h.mono (List.prefix_append bytes back).isInfix

theorem append {more : List α} (h : Contains layout bytes values)
    (hmore : Contains layout bytes more) : Contains layout bytes (values ++ more) := by
  intro value hvalue
  rcases List.mem_append.mp hvalue with hleft | hright
  · exact h value hleft
  · exact hmore value hright

end Contains

namespace Reader.Consumes

variable {α β : Type} {reader : Reader α} {layout : List UInt8 → α → Prop}

theorem times_contains (h : Consumes reader layout) (count : Nat) :
    Consumes (Reader.times count reader) (Contains layout) := by
  induction count with
  | zero => exact pure Contains.nil
  | succ count ih =>
    refine h.bind fun first own hown => ih.map fun others bytes hothers => ?_
    have hfirst : Contains layout (own ++ bytes) [first] := by
      intro value hvalue
      obtain rfl := List.mem_singleton.mp hvalue
      exact ⟨own, (List.prefix_append own bytes).isInfix, hown⟩
    exact hfirst.append (hothers.behind own)

theorem table_contains (h : Consumes reader layout) :
    Consumes (Reader.table reader) (Contains layout) :=
  u16.bind fun count own _ =>
    (h.times_contains count.toNat).mono fun _ _ hvalues => hvalues.behind own

end Reader.Consumes

/-! ## Layouts that are written in one way -/

/-- The bytes are those that are written of the value, and it is one that can be written. -/
def Written {α : Type} (write : α → List UInt8) (fits : α → Prop) (own : List UInt8)
    (value : α) : Prop :=
  own = write value ∧ fits value

/-- The reader and the writer undo each other.  What can be written is read back, whatever follows
it, and what is read was written. -/
structure Reader.Undoes {α : Type} (reader : Reader α) (write : α → List UInt8)
    (fits : α → Prop) : Prop where
  reads : ∀ value, fits value → Reads reader (write value) value
  consumes : Reader.Consumes reader (Written write fits)

namespace Reader.Consumes

variable {α : Type} {reader : Reader α} {write : α → List UInt8} {fits : α → Prop}

theorem times_written (h : Consumes reader (Written write fits)) (count : Nat) :
    Consumes (Reader.times count reader) fun own values =>
      own = values.flatMap write ∧ values.length = count ∧ ∀ value ∈ values, fits value := by
  induction count with
  | zero =>
    apply pure
    simp
  | succ count ih =>
    refine h.bind fun first own hfirst => ih.map fun others bytes hothers => ?_
    obtain ⟨rfl, hfits⟩ := hfirst
    obtain ⟨rfl, hlength, hall⟩ := hothers
    refine ⟨rfl, ?_, List.forall_mem_cons.mpr ⟨hfits, hall⟩⟩
    rw [List.length_cons, hlength]

theorem table_written (h : Consumes reader (Written write fits)) :
    Consumes (Reader.table reader) (Written (Writer.table write) fun values =>
      values.length < UInt16.size ∧ ∀ value ∈ values, fits value) := by
  refine u16.bind fun count own hcount => (h.times_written count.toNat).mono ?_
  rintro bytes values ⟨rfl, hlength, hall⟩
  have hlt : values.length < UInt16.size := hlength ▸ count.toNat_lt
  refine ⟨?_, hlt, hall⟩
  rw [hcount, Writer.table, hlength, UInt16.ofNat_toNat]

theorem shortTable_written (h : Consumes reader (Written write fits)) :
    Consumes (Reader.shortTable reader) (Written (Writer.shortTable write) fun values =>
      values.length < UInt8.size ∧ ∀ value ∈ values, fits value) := by
  refine u8.bind fun count own hcount => (h.times_written count.toNat).mono ?_
  rintro bytes values ⟨rfl, hlength, hall⟩
  have hlt : values.length < UInt8.size := hlength ▸ count.toNat_lt
  refine ⟨?_, hlt, hall⟩
  rw [hcount, Writer.shortTable, hlength, UInt8.ofNat_toNat]

end Reader.Consumes

end ClassFormat
