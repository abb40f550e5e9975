/-
# ClassFormat.Proofs.Constant.Grammar: which bytes are a constant pool

`Constant.Stored` says which bytes are an entry: a tag and the contents of its kind, where the bytes
of a text are a row of groups and all other contents have one form only.  A pool is its declared
size and then entries that take exactly the indices below it.

The reader counts indices and not entries.  Its loop is followed by `Constant.StoredAll`, a row of
entries, with the indices that are taken so far and those that are still to come.
-/
import ClassFormat.Proofs.Layout.Sequential
import ClassFormat.Proofs.SlotTable
import ClassFormat.Proofs.Text.Groups

namespace ClassFormat

open Reader (Consumes FailsOnly)
open Text

/-! ## Entries -/

/-- The bytes are a well-formed entry: its tag, and behind it a text or the contents of its kind. -/
inductive Constant.Stored : List UInt8 → Constant → Prop
  | text {bytes : List UInt8} {units : List UInt16} (hlength : bytes.length < UInt16.size)
      (hgroups : ModifiedUtf8.Groups bytes units) :
      Stored (Writer.u8 ConstantKind.utf8.tag
          ++ (Writer.u16 (UInt16.ofNat bytes.length) ++ bytes))
        (.utf8 (String.ofList (Utf16.decode units)))
  | other {constant : Constant} (hkind : constant.kind ≠ .utf8) :
      Stored constant.encode constant

/-- The bytes are well-formed entries one after the other. -/
inductive Constant.StoredAll : List UInt8 → List Constant → Prop
  | nil : StoredAll [] []
  | cons {own others : List UInt8} {constant : Constant} {constants : List Constant}
      (h : Stored own constant) (hothers : StoredAll others constants) :
      StoredAll (own ++ others) (constant :: constants)

theorem ConstantKind.tag_of_ofTag? {tag : UInt8} {kind : ConstantKind}
    (h : ofTag? tag = some kind) : tag = kind.tag := by
  have hfound := List.find?_some h
  exact (beq_iff_eq.mp hfound).symm

theorem ConstantKind.wide_iff (kind : ConstantKind) :
    1 < kind.width ↔ kind = .long ∨ kind = .double := by
  cases kind <;> decide

theorem HandleKind.number_of_ofNumber {number : UInt8} {kind : HandleKind}
    (h : ofNumber number = .ok kind) : number = kind.number := by
  unfold ofNumber at h
  split at h
  · rename_i found hfound
    cases h
    have hnumber := List.find?_some hfound
    exact (beq_iff_eq.mp hnumber).symm
  · cases h

theorem MemberRef.consumes : Consumes MemberRef.reader fun own ref => own = ref.encode :=
  Consumes.u16.bind fun owner _ howner => Consumes.u16.map fun nameAndType _ hpair => by
    rw [howner, hpair, encode]

theorem NameAndType.consumes : Consumes NameAndType.reader fun own pair => own = pair.encode :=
  Consumes.u16.bind fun name _ hname => Consumes.u16.map fun descriptor _ hdescriptor => by
    rw [hname, hdescriptor, encode]

theorem DynamicRef.consumes : Consumes DynamicRef.reader fun own ref => own = ref.encode :=
  Consumes.u16.bind fun bootstrap _ hbootstrap => Consumes.u16.map fun nameAndType _ hpair => by
    rw [hbootstrap, hpair, encode]

theorem HandleKind.consumes : Consumes HandleKind.reader fun own kind => own = kind.encode :=
  Consumes.u8.check fun number own kind hown hnumber => by
    rw [hown, number_of_ofNumber hnumber, encode]

theorem MethodHandle.consumes :
    Consumes MethodHandle.reader fun own handle => own = handle.encode :=
  HandleKind.consumes.bind fun kind _ hkind => Consumes.u16.map fun reference _ hreference => by
    rw [hkind, hreference, encode]

namespace Constant

theorem width_of_wide {constant : Constant}
    (h : constant.kind = .long ∨ constant.kind = .double) : HasWidth.width constant = 2 := by
  show constant.kind.width = 2
  rcases h with h | h <;> rw [h] <;> rfl

theorem fits_of_kind_ne {constant : Constant} (h : constant.kind ≠ .utf8) : constant.Fits := by
  cases constant with
  | utf8 text => exact absurd rfl h
  | _ => trivial

theorem consumes_text : Consumes textReader fun own text =>
    Stored (Writer.u8 ConstantKind.utf8.tag ++ own) (.utf8 text) := by
  refine Consumes.u16.bind fun length _ hlength => ?_
  refine (Consumes.run length.toNat).check fun bytes own text hown htext => ?_
  obtain ⟨rfl, hcount⟩ := hown
  obtain ⟨units, hgroups, rfl⟩ := ModifiedUtf8.decode_eq_ok_iff.mp htext
  have hlt : own.length < UInt16.size := hcount ▸ length.toNat_lt
  have hown : length = UInt16.ofNat own.length := by
    rw [hcount, UInt16.ofNat_toNat]
  rw [hlength, hown]
  exact .text hlt hgroups

theorem consumes_body {kind : ConstantKind} (h : kind ≠ .utf8) :
    Consumes (bodyReader kind) fun own constant =>
      constant.kind = kind ∧ own = constant.encodeBody := by
  cases kind with
  | utf8 => exact absurd rfl h
  | integer => exact Consumes.i32.map fun _ _ hown => ⟨rfl, hown⟩
  | float => exact Consumes.u32.map fun _ _ hown => ⟨rfl, hown⟩
  | long => exact Consumes.i64.map fun _ _ hown => ⟨rfl, hown⟩
  | double => exact Consumes.u64.map fun _ _ hown => ⟨rfl, hown⟩
  | classRef | string | methodType | moduleRef | packageRef =>
    exact Consumes.u16.map fun _ _ hown => ⟨rfl, hown⟩
  | fieldRef | methodRef | interfaceMethodRef =>
    exact MemberRef.consumes.map fun _ _ hown => ⟨rfl, hown⟩
  | nameAndType => exact NameAndType.consumes.map fun _ _ hown => ⟨rfl, hown⟩
  | methodHandle => exact MethodHandle.consumes.map fun _ _ hown => ⟨rfl, hown⟩
  | dynamic | invokeDynamic => exact DynamicRef.consumes.map fun _ _ hown => ⟨rfl, hown⟩

/-- Every entry that is read is well-formed. -/
theorem consumes (index : Nat) : Consumes (reader index) Stored := by
  refine Consumes.u8.bind fun tag _ htag => ?_
  subst htag
  cases hkind : ConstantKind.ofTag? tag with
  | none => exact .fail
  | some kind =>
    obtain rfl := ConstantKind.tag_of_ofTag? hkind
    by_cases htext : kind = .utf8
    · subst htext
      exact consumes_text.map fun _ _ hown => hown
    · refine (consumes_body htext).mono fun own constant hown => ?_
      obtain ⟨rfl, rfl⟩ := hown
      exact .other htext

/-- Every well-formed entry is read, at any index. -/
theorem Stored.reads {own : List UInt8} {constant : Constant} (h : Stored own constant)
    (index : Nat) : Reads (reader index) own constant := by
  cases h with
  | other hkind => exact Constant.reads (fits_of_kind_ne hkind) index
  | @text bytes units hlength hgroups =>
    have hcount : bytes.length = (UInt16.ofNat bytes.length).toNat :=
      (UInt16.toNat_ofNat_of_lt' hlength).symm
    have hdecode : ModifiedUtf8.decode bytes = .ok (String.ofList (Utf16.decode units)) :=
      ModifiedUtf8.decode_eq_ok_iff.mpr ⟨units, hgroups, rfl⟩
    have htext : Reads textReader (Writer.u16 (UInt16.ofNat bytes.length) ++ bytes)
        (String.ofList (Utf16.decode units)) :=
      (Reads.u16 _).bind ((Reads.run hcount).check hdecode)
    refine (Reads.u8 ConstantKind.utf8.tag).bind ?_
    rw [ConstantKind.ofTag?_tag]
    exact htext.map

end Constant

/-! ## How entries fail -/

/-- The error is about the bytes: they break the layout, or their source fails. -/
inductive Error.OfBytes : Error → Prop
  | malformed (defect : Defect) : OfBytes (.malformed defect)
  | unreadable (reason : String) : OfBytes (.unreadable reason)

theorem Error.OfBytes.of_explains {ending : Ending} {cause : Error} (h : ending.Explains cause) :
    OfBytes cause := by
  cases h with
  | finished defect => exact .malformed defect
  | broken reason => exact .unreadable reason

theorem Reader.failsOnly_item (size : Nat) : FailsOnly (Reader.item size) Error.OfBytes :=
  .front (takesFront_item size) fun input => .of_explains input.ending.explains_shortfall

theorem Reader.failsOnly_run (count : Nat) : FailsOnly (Reader.run count) Error.OfBytes :=
  .front (takesFront_run count) fun input => .of_explains (input.ending.explains_missing _ _)

theorem Reader.failsOnly_u16 : FailsOnly Reader.u16 Error.OfBytes := (failsOnly_item 2).map

theorem HandleKind.failsOnly : FailsOnly HandleKind.reader Error.OfBytes := by
  refine (Reader.failsOnly_item 1).map.bind fun number => .lift fun cause h => ?_
  unfold ofNumber at h
  split at h
  · cases h
  · cases h
    exact .malformed _

namespace Constant

theorem failsOnly_text : FailsOnly textReader Error.OfBytes := by
  refine Reader.failsOnly_u16.bind fun length => ?_
  refine (Reader.failsOnly_run length.toNat).bind fun bytes => .lift fun cause h => ?_
  obtain ⟨defect, rfl⟩ := ModifiedUtf8.unitsFrom_error (map_eq_error_iff.mp h)
  exact .malformed defect

/-- Behind a tag that is defined, whatever goes wrong is about the bytes. -/
theorem failsOnly_body (kind : ConstantKind) : FailsOnly (bodyReader kind) Error.OfBytes := by
  have hpair : ∀ {α : Type} (make : UInt16 → UInt16 → α),
      FailsOnly (do let first ← Reader.u16; let second ← Reader.u16; return make first second)
        Error.OfBytes :=
    fun make => Reader.failsOnly_u16.bind fun _ => Reader.failsOnly_u16.map
  cases kind with
  | utf8 => exact failsOnly_text.map
  | integer => exact (Reader.failsOnly_item 4).map.map.map
  | float => exact (Reader.failsOnly_item 4).map.map
  | long => exact (Reader.failsOnly_item 8).map.map.map
  | double => exact (Reader.failsOnly_item 8).map.map
  | classRef | string | methodType | moduleRef | packageRef => exact Reader.failsOnly_u16.map
  | fieldRef | methodRef | interfaceMethodRef => exact (hpair MemberRef.mk).map
  | nameAndType => exact (hpair NameAndType.mk).map
  | dynamic | invokeDynamic => exact (hpair DynamicRef.mk).map
  | methodHandle =>
    exact FailsOnly.map (HandleKind.failsOnly.bind fun _ => Reader.failsOnly_u16.map)

/-- An unknown tag is reported for the tag in front and at the index that the entry was to have. -/
theorem reader_unknownTag {index found : Nat} {bytes : List UInt8} {ending : Ending} {tag : UInt8}
    (h : reader index ⟨bytes, ending⟩ = .error (.unknownTag tag found)) :
    found = index ∧ ConstantKind.ofTag? tag = none ∧ ∃ rest, bytes = Writer.u8 tag ++ rest := by
  cases htag : Reader.u8 ⟨bytes, ending⟩ with
  | error cause =>
    have hbytes : Error.OfBytes cause := (Reader.failsOnly_item 1).map _ _ htag
    rw [reader, Reader.bind_of_error htag] at h
    cases h
    cases hbytes
  | ok read =>
    obtain ⟨first, left⟩ := read
    obtain ⟨own, hinput, rfl⟩ := Consumes.u8 _ _ _ htag
    injection hinput with hbytes
    rw [reader, Reader.bind_of_ok htag] at h
    cases hkind : ConstantKind.ofTag? first with
    | some kind =>
      simp only [hkind] at h
      cases failsOnly_body kind left _ h
    | none =>
      simp only [hkind] at h
      cases h
      exact ⟨rfl, hkind, left.bytes, hbytes⟩

theorem reader_of_unknown {tag : UInt8} (h : ConstantKind.ofTag? tag = none) (index : Nat)
    (rest : List UInt8) (ending : Ending) :
    reader index ⟨Writer.u8 tag ++ rest, ending⟩ = .error (.unknownTag tag index) := by
  rw [reader, Reader.bind_of_ok (Reads.u8 tag rest ending)]
  simp only [h]
  rfl

end Constant

/-! ## Rows of entries -/

namespace ConstantPool

open SlotTable (totalWidth totalWidth_cons push)

/-- The entries that the loop reads are well-formed and take the indices up to the declared size,
if there are any to take. -/
theorem consumes_slots {count fuel : Nat} {slots : SlotTable Constant}
    (hfuel : count ≤ slots.next + fuel) :
    Consumes (slotsReader count fuel slots) fun own result =>
      ∃ constants, Constant.StoredAll own constants ∧ result = constants.foldl push slots
        ∧ slots.next + totalWidth constants = max count slots.next := by
  -- Every entry takes an index, so the fuel lasts as long as there are indices to take.
  induction fuel generalizing slots with
  | zero =>
    refine Consumes.pure ⟨[], .nil, rfl, ?_⟩
    simp only [totalWidth]
    omega
  | succ fuel ih =>
    rw [slotsReader]
    split
    · rename_i hmore
      refine (Constant.consumes slots.next).bind fun constant own hown => ?_
      split
      · exact .fail
      · rename_i hroom
        have hpos : 0 < HasWidth.width constant := constant.width_pos
        have hnext : (slots.push constant).next = slots.next + HasWidth.width constant := rfl
        refine (ih (by omega)).mono fun others result hothers => ?_
        obtain ⟨constants, hstored, hresult, hwidth⟩ := hothers
        refine ⟨constant :: constants, .cons hown hstored, hresult, ?_⟩
        rw [totalWidth_cons]
        omega
    · refine Consumes.pure ⟨[], .nil, rfl, ?_⟩
      simp only [totalWidth]
      omega

/-- A row of entries that takes the indices up to the declared size is read. -/
theorem reads_storedAll {own : List UInt8} {constants : List Constant}
    (h : Constant.StoredAll own constants) {count fuel : Nat} {slots : SlotTable Constant}
    (hcount : slots.next + totalWidth constants = max count slots.next)
    (hfuel : count ≤ slots.next + fuel) :
    Reads (slotsReader count fuel slots) own (constants.foldl push slots) := by
  induction h generalizing fuel slots with
  | nil =>
    have hend : ¬ slots.next < count := by
      simp only [totalWidth] at hcount
      omega
    cases fuel with
    | zero => exact Reads.pure slots
    | succ fuel =>
      rw [slotsReader, if_neg hend]
      exact Reads.pure slots
  | @cons own others constant constants hstored _ ih =>
    have hpos : 0 < HasWidth.width constant := constant.width_pos
    have hnext : (slots.push constant).next = slots.next + HasWidth.width constant := rfl
    rw [totalWidth_cons] at hcount
    cases fuel with
    | zero => omega
    | succ fuel =>
      rw [slotsReader, if_pos (by omega)]
      refine (hstored.reads slots.next).bind ?_
      rw [if_neg (by omega)]
      exact ih (by omega) (by omega)

/-- The loop reports an unknown tag behind a row of well-formed entries, at the index that comes
after theirs. -/
theorem slots_unknownTag {count fuel index : Nat} {slots : SlotTable Constant} {bytes : List UInt8}
    {ending : Ending} {tag : UInt8}
    (h : slotsReader count fuel slots ⟨bytes, ending⟩ = .error (.unknownTag tag index)) :
    ∃ own constants rest, bytes = own ++ (Writer.u8 tag ++ rest)
      ∧ Constant.StoredAll own constants ∧ index = slots.next + totalWidth constants
      ∧ index < count ∧ ConstantKind.ofTag? tag = none := by
  induction fuel generalizing slots bytes with
  | zero => cases h
  | succ fuel ih =>
    rw [slotsReader] at h
    split at h
    · rename_i hmore
      cases hread : Constant.reader slots.next ⟨bytes, ending⟩ with
      | error cause =>
        rw [Reader.bind_of_error hread] at h
        cases h
        obtain ⟨rfl, htag, rest, hbytes⟩ := Constant.reader_unknownTag hread
        exact ⟨[], [], rest, hbytes, .nil, rfl, hmore, htag⟩
      | ok found =>
        obtain ⟨constant, left⟩ := found
        rw [Reader.bind_of_ok hread] at h
        obtain ⟨own, hinput, hown⟩ := Constant.consumes slots.next _ _ _ hread
        injection hinput with hbytes hending
        subst hending
        split at h
        · -- An entry that reaches past the declared size is another error.
          cases h
        · obtain ⟨others, constants, rest, hleft, hstored, hindex, hlt, htag⟩ := ih h
          refine ⟨own ++ others, constant :: constants, rest, ?_, .cons hown hstored, ?_, hlt, htag⟩
          · rw [hbytes, hleft, List.append_assoc]
          · rw [hindex, totalWidth_cons, push, Nat.add_assoc]
    · cases h

theorem slots_of_unknown {own : List UInt8} {constants : List Constant}
    (h : Constant.StoredAll own constants) {tag : UInt8} (htag : ConstantKind.ofTag? tag = none)
    {count fuel : Nat} {slots : SlotTable Constant}
    (hcount : slots.next + totalWidth constants < count) (hfuel : count ≤ slots.next + fuel)
    (rest : List UInt8) (ending : Ending) :
    slotsReader count fuel slots ⟨own ++ (Writer.u8 tag ++ rest), ending⟩
      = .error (.unknownTag tag (slots.next + totalWidth constants)) := by
  induction h generalizing fuel slots with
  | nil =>
    cases fuel with
    | zero => omega
    | succ fuel =>
      simp only [totalWidth] at hcount
      rw [slotsReader, if_pos (by omega), List.nil_append,
        Reader.bind_of_error (Constant.reader_of_unknown htag _ rest ending)]
      rfl
  | @cons own others constant constants hstored _ ih =>
    have hpos : 0 < HasWidth.width constant := constant.width_pos
    have hnext : (slots.push constant).next = slots.next + HasWidth.width constant := rfl
    rw [totalWidth_cons] at hcount
    cases fuel with
    | zero => omega
    | succ fuel =>
      have hroom : ¬ count < slots.next + HasWidth.width constant := by omega
      rw [slotsReader, if_pos (by omega), List.append_assoc,
        Reader.bind_of_ok (hstored.reads slots.next _ ending), if_neg hroom,
        ih (by omega) (by omega), hnext, totalWidth_cons, Nat.add_assoc]

/-! ## Pools -/

/-- The bytes are a pool: its declared size, and entries that take all indices from 1 up to it. -/
def StoredAs (bytes : List UInt8) (count : UInt16) (constants : List Constant) : Prop :=
  ∃ own, bytes = Writer.u16 count ++ own ∧ Constant.StoredAll own constants
    ∧ totalWidth constants = max count.toNat 1 - 1

/-- A pool is read from exactly the bytes that are one. -/
theorem reader_eq_ok_iff {bytes : List UInt8} {ending : Ending} {pool : ConstantPool}
    {left : Input} :
    reader ⟨bytes, ending⟩ = .ok (pool, left)
      ↔ ∃ own count constants, StoredAs own count constants ∧ bytes = own ++ left.bytes
          ∧ left.ending = ending ∧ pool = ofList constants := by
  have hstart : (SlotTable.startingAt 1 : SlotTable Constant).next = 1 := rfl
  constructor
  · intro h
    have hconsumes : Consumes reader fun own pool =>
        ∃ count constants, StoredAs own count constants ∧ pool = ofList constants := by
      refine Consumes.u16.bind fun count first hfirst => ?_
      refine (consumes_slots (by omega)).map fun slots own hown => ?_
      obtain ⟨constants, hstored, rfl, hwidth⟩ := hown
      refine ⟨count, constants, ⟨own, by rw [hfirst], hstored, ?_⟩, rfl⟩
      omega
    obtain ⟨own, hinput, count, constants, hstored, hpool⟩ := hconsumes _ _ _ h
    injection hinput with hbytes hending
    exact ⟨own, count, constants, hstored, hbytes, hending.symm, hpool⟩
  · rintro ⟨_, count, constants, ⟨own, rfl, hstored, hwidth⟩, rfl, rfl, rfl⟩
    have hslots : Reads (slotsReader count.toNat count.toNat (SlotTable.startingAt 1)) own
        (SlotTable.ofListFrom 1 constants) :=
      reads_storedAll hstored (by omega) (by omega)
    have hread : Reads reader (Writer.u16 count ++ own) (ofList constants) :=
      (Reads.u16 count).bind hslots.map
    exact hread left.bytes left.ending

/-- An unknown tag is reported exactly where the first entry that is not well-formed has one, at
the index that this entry would have. -/
theorem reader_unknownTag_iff {bytes : List UInt8} {ending : Ending} {tag : UInt8} {index : Nat} :
    reader ⟨bytes, ending⟩ = .error (.unknownTag tag index)
      ↔ ∃ count own constants rest, bytes = Writer.u16 count ++ (own ++ (Writer.u8 tag ++ rest))
          ∧ Constant.StoredAll own constants ∧ index = 1 + totalWidth constants
          ∧ index < count.toNat ∧ ConstantKind.ofTag? tag = none := by
  have hstart : (SlotTable.startingAt 1 : SlotTable Constant).next = 1 := rfl
  constructor
  · intro h
    cases hcount : Reader.u16 ⟨bytes, ending⟩ with
    | error cause =>
      have hbytes : Error.OfBytes cause := Reader.failsOnly_u16 _ _ hcount
      rw [reader, Reader.bind_of_error hcount] at h
      cases h
      cases hbytes
    | ok found =>
      obtain ⟨count, left⟩ := found
      obtain ⟨_, hinput, rfl⟩ := Consumes.u16 _ _ _ hcount
      injection hinput with hbytes
      rw [reader, Reader.bind_of_ok hcount] at h
      cases hslots : slotsReader count.toNat count.toNat (SlotTable.startingAt 1) left with
      | ok found =>
        rw [Reader.bind_of_ok hslots] at h
        cases h
      | error cause =>
        rw [Reader.bind_of_error hslots] at h
        cases h
        obtain ⟨own, constants, rest, hleft, hstored, hindex, hlt, htag⟩ := slots_unknownTag hslots
        exact ⟨count, own, constants, rest, hleft ▸ hbytes, hstored, hindex, hlt, htag⟩
  · rintro ⟨count, own, constants, rest, rfl, hstored, rfl, hlt, htag⟩
    have hslots : slotsReader count.toNat count.toNat (SlotTable.startingAt 1)
        ⟨own ++ (Writer.u8 tag ++ rest), ending⟩
          = .error (.unknownTag tag (1 + totalWidth constants)) :=
      slots_of_unknown hstored htag hlt (by omega) rest ending
    rw [reader, Reader.bind_of_ok (Reads.u16 count _ ending), Reader.bind_of_error hslots]

/-! ## Indices -/

section Indices

variable {constants : List Constant}

theorem count_ofList (h : totalWidth constants ≤ 65534) :
    (ofList constants).count.toNat = 1 + totalWidth constants := by
  have hnext : (ofList constants).slots.next = 1 + totalWidth constants :=
    SlotTable.next_ofListFrom 1 constants
  rw [count, hnext]
  exact UInt16.toNat_ofNat_of_lt' (show _ < 65536 by omega)

/-- An entry has the index that comes after those of the entries before it. -/
theorem entries_ofList_iff (h : totalWidth constants ≤ 65534) {j : Nat} {index : PoolIndex}
    {constant : Constant} :
    (ofList constants).entries[j]? = some (index, constant)
      ↔ constants[j]? = some constant ∧ index.toNat = 1 + totalWidth (constants.take j) := by
  have hentry : (ofList constants).entries[j]?
      = constants[j]?.map fun constant =>
          (UInt16.ofNat (1 + totalWidth (constants.take j)), constant) := by
    simp only [entries, SlotTable.toList, ofList, SlotTable.toList_ofListFrom, List.getElem?_map,
      List.getElem?_zipIdx, SlotTable.getElem?_numbered, Option.map_map]
    rfl
  have hle := SlotTable.totalWidth_take_le_self constants j
  have hindex : (UInt16.ofNat (1 + totalWidth (constants.take j))).toNat
      = 1 + totalWidth (constants.take j) := UInt16.toNat_ofNat_of_lt' (show _ < 65536 by omega)
  rw [hentry, Option.map_eq_some_iff]
  constructor
  · rintro ⟨found, hfound, heq⟩
    cases heq
    exact ⟨hfound, hindex⟩
  · rintro ⟨hfound, hsame⟩
    refine ⟨constant, hfound, ?_⟩
    rw [← hsame, UInt16.ofNat_toNat]

theorem get_eq_ok_iff {index : PoolIndex} {constant : Constant} :
    (ofList constants).get index = .ok constant
      ↔ ∃ j, constants[j]? = some constant
          ∧ index.toNat = 1 + totalWidth (constants.take j) := by
  rw [← SlotTable.lookup_element_iff fun other _ => other.width_pos]
  unfold get
  split
  case h_1 found hfound =>
    have hentry : ((SlotTable.ofListFrom 1 constants).lookup index.toNat).element? = some found :=
      hfound
    simp [hentry]
  case h_2 hnone =>
    have hentry : ((SlotTable.ofListFrom 1 constants).lookup index.toNat).element? = none := hnone
    simp [hentry]

theorem get_ok_or_invalidIndex (pool : ConstantPool) (index : PoolIndex) :
    (∃ constant, pool.get index = .ok constant)
      ∨ pool.get index = .error (.invalidIndex index) := by
  unfold get
  split
  · exact Or.inl ⟨_, rfl⟩
  · exact Or.inr rfl

/-- The indices without an entry are zero, those behind the last entry, and the second index of
every eight-byte constant. -/
theorem get_eq_error_iff (h : totalWidth constants ≤ 65534) {index : PoolIndex} :
    (ofList constants).get index = .error (.invalidIndex index)
      ↔ index = 0 ∨ (ofList constants).count ≤ index
        ∨ ∃ j constant, constants[j]? = some constant
            ∧ (constant.kind = .long ∨ constant.kind = .double)
            ∧ index.toNat = 2 + totalWidth (constants.take j) := by
  have hzero : index = 0 ↔ index.toNat = 0 := UInt16.toNat_inj.symm
  have hcount : (ofList constants).count ≤ index ↔ 1 + totalWidth constants ≤ index.toNat := by
    rw [UInt16.le_iff_toNat_le, count_ofList h]
  rw [hzero, hcount]
  constructor
  · intro herror
    by_cases hinside : 0 < index.toNat ∧ index.toNat < 1 + totalWidth constants
    · -- Inside the table the index falls on an entry, but not on the first of its indices.
      obtain ⟨j, constant, hconstant, hle, hlt⟩ :=
        SlotTable.exists_slot constants (show index.toNat - 1 < totalWidth constants by omega)
      have hne : index.toNat ≠ 1 + totalWidth (constants.take j) := by
        intro hindex
        have hok := get_eq_ok_iff.mpr ⟨j, hconstant, hindex⟩
        rw [herror] at hok
        cases hok
      have hwide : 1 < constant.kind.width := by
        have hwidth : HasWidth.width constant = constant.kind.width := rfl
        omega
      have hkind := constant.kind.wide_iff.mp hwide
      have hwidth : HasWidth.width constant = 2 := Constant.width_of_wide hkind
      exact Or.inr (Or.inr ⟨j, constant, hconstant, hkind, by omega⟩)
    · omega
  · intro hindex
    rcases get_ok_or_invalidIndex (ofList constants) index with ⟨constant, hok⟩ | herror
    · exfalso
      obtain ⟨j, hconstant, hj⟩ := get_eq_ok_iff.mp hok
      have hpos : 0 < HasWidth.width constant := constant.width_pos
      have hnext := SlotTable.totalWidth_take_succ hconstant
      rcases hindex with hfirst | hbehind | ⟨i, wide, hwide, hkind, hi⟩
      · omega
      · have hle := SlotTable.totalWidth_take_le_self constants (j + 1)
        omega
      · -- An entry starts at the index before, and the next one at the index behind.
        have hwidth : HasWidth.width wide = 2 := Constant.width_of_wide hkind
        have hsucc := SlotTable.totalWidth_take_succ hwide
        by_cases hij : j ≤ i
        · have hle := SlotTable.totalWidth_take_le constants hij
          omega
        · have hle := SlotTable.totalWidth_take_le constants (show i + 1 ≤ j by omega)
          omega
    · exact herror

end Indices

/-- The constant pool accepts its grammar and resolves its entries, both exactly.  The size that is
declared is the size that the pool reports, one at the least; an index finds the entry whose turn it
is, and nothing if it is zero, too large, or the second of an eight-byte constant.  An unknown tag
is reported behind well-formed entries, at the index that comes after theirs. -/
theorem reader_accepts_and_resolves :
    (∀ bytes ending pool left, reader ⟨bytes, ending⟩ = .ok (pool, left)
      ↔ ∃ own count constants, StoredAs own count constants ∧ bytes = own ++ left.bytes
          ∧ left.ending = ending ∧ pool = ofList constants)
    ∧ (∀ own count constants, StoredAs own count constants →
      (ofList constants).count.toNat = max count.toNat 1
      ∧ (∀ j index constant, (ofList constants).entries[j]? = some (index, constant)
          ↔ constants[j]? = some constant ∧ index.toNat = 1 + totalWidth (constants.take j))
      ∧ (∀ index constant, (ofList constants).get index = .ok constant
          ↔ ∃ j, constants[j]? = some constant
              ∧ index.toNat = 1 + totalWidth (constants.take j))
      ∧ (∀ index, (¬ ∃ constant, (ofList constants).get index = .ok constant) →
          (ofList constants).get index = .error (.invalidIndex index))
      ∧ ∀ index, (ofList constants).get index = .error (.invalidIndex index)
          ↔ index = 0 ∨ (ofList constants).count ≤ index
            ∨ ∃ j constant, constants[j]? = some constant
                ∧ (constant.kind = .long ∨ constant.kind = .double)
                ∧ index.toNat = 2 + totalWidth (constants.take j))
    ∧ ∀ bytes ending tag index, reader ⟨bytes, ending⟩ = .error (.unknownTag tag index)
      ↔ ∃ count own constants rest, bytes = Writer.u16 count ++ (own ++ (Writer.u8 tag ++ rest))
          ∧ Constant.StoredAll own constants ∧ index = 1 + totalWidth constants
          ∧ index < count.toNat ∧ ConstantKind.ofTag? tag = none := by
  refine ⟨fun _ _ _ _ => reader_eq_ok_iff, fun own count constants h => ?_,
    fun _ _ _ _ => reader_unknownTag_iff⟩
  obtain ⟨-, -, -, hwidth⟩ := h
  have hlt : count.toNat < 65536 := count.toNat_lt
  have hle : totalWidth constants ≤ 65534 := by omega
  refine ⟨?_, fun _ _ _ => entries_ofList_iff hle, fun _ _ => get_eq_ok_iff, fun index hnone => ?_,
    fun _ => get_eq_error_iff hle⟩
  · rw [count_ofList hle]
    omega
  · exact (get_ok_or_invalidIndex _ index).resolve_left hnone

/-- A pool of four indices with an eight-byte constant at its end, and the same pool with an
undefined tag in the place of that constant. -/
theorem reader_accepts_and_resolves_long :
    StoredAs [0, 4, 1, 0, 1, 65, 5, 0, 0, 0, 0, 0, 0, 0, 7] 4 [.utf8 "A", .long 7]
      ∧ (ofList [.utf8 "A", .long 7]).get 2 = .ok (.long 7)
      ∧ (ofList [.utf8 "A", .long 7]).get 3 = .error (.invalidIndex 3)
      ∧ reader ⟨[0, 4, 1, 0, 1, 65, 2], .finished⟩ = .error (.unknownTag 2 2) := by
  have hgroups : ModifiedUtf8.Groups [65] [65] := .cons (.one (by decide)) .nil
  have htext : Constant.Stored [1, 0, 1, 65] (.utf8 "A") := .text (by decide) hgroups
  have hencode : (Constant.long 7).encode = [5, 0, 0, 0, 0, 0, 0, 0, 7] := by decide
  have hlong : Constant.Stored [5, 0, 0, 0, 0, 0, 0, 0, 7] (.long 7) :=
    hencode ▸ .other (by decide)
  obtain ⟨-, hresolves, hunknown⟩ := reader_accepts_and_resolves
  have hstored : StoredAs [0, 4, 1, 0, 1, 65, 5, 0, 0, 0, 0, 0, 0, 0, 7] 4
      [.utf8 "A", .long 7] := ⟨_, rfl, .cons htext (.cons hlong .nil), by decide⟩
  obtain ⟨-, -, hget, -, hmissing⟩ := hresolves _ _ _ hstored
  refine ⟨hstored, (hget 2 _).mpr ⟨1, rfl, by decide⟩, (hmissing 3).mpr ?_, ?_⟩
  · exact Or.inr (Or.inr ⟨1, .long 7, rfl, Or.inl rfl, by decide⟩)
  · exact (hunknown _ _ _ _).mpr ⟨4, _, [.utf8 "A"], [], rfl, .cons htext .nil,
      by decide, by decide, by decide⟩

end ConstantPool

end ClassFormat
