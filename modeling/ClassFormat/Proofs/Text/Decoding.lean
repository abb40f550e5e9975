/-
# ClassFormat.Proofs.Text.Decoding: what bytes store, and where they stop storing it

No group is the front of another, so bytes are a row of groups in at most one way, and the longest
front that is such a row is found by taking off one group after the other.  The decoder does that.
Where the longest row is all of the bytes it gives a text, and where it is not, it names the first
byte behind it.

From units to characters only unpaired surrogates are lost.  `Utf16.Shown` says which characters
stand for a row of units, one constructor for each of the cases, without the arithmetic of the
decoder.
-/
import ClassFormat.Proofs.Text.Groups

namespace ClassFormat.Text

/-! ## Characters for units -/

namespace Utf16

/-- Two surrogates stand in front that belong together. -/
def StartsPair : List UInt16 → Prop
  | high :: low :: _ => (0xD800 ≤ high ∧ high ≤ 0xDBFF) ∧ (0xDC00 ≤ low ∧ low ≤ 0xDFFF)
  | _ => False

/-- The characters that are shown for units, from left to right. -/
inductive Shown : List UInt16 → List Char → Prop
  | nil : Shown [] []
  /-- A pair of surrogates is one supplementary character. -/
  | pair {high low : UInt16} {c : Char} {units : List UInt16} {chars : List Char}
      (hpair : StartsPair (high :: low :: units))
      (hc : c.toNat = 0x10000 + (high.toNat - 0xD800) * 0x400 + (low.toNat - 0xDC00))
      (h : Shown units chars) : Shown (high :: low :: units) (c :: chars)
  /-- Any other surrogate is replaced. -/
  | lone {unit : UInt16} {units : List UInt16} {chars : List Char}
      (hunit : 0xD800 ≤ unit ∧ unit ≤ 0xDFFF) (halone : ¬ StartsPair (unit :: units))
      (h : Shown units chars) : Shown (unit :: units) ('\uFFFD' :: chars)
  /-- Any other unit is the character of its number. -/
  | plain {unit : UInt16} {c : Char} {units : List UInt16} {chars : List Char}
      (hunit : unit < 0xD800 ∨ 0xDFFF < unit) (hc : c.toNat = unit.toNat)
      (h : Shown units chars) : Shown (unit :: units) (c :: chars)

theorem startsPair_iff (high low : UInt16) (units : List UInt16) :
    StartsPair (high :: low :: units) ↔ (isHighSurrogate high && isLowSurrogate low) = true := by
  simp [StartsPair, isHighSurrogate, isLowSurrogate]

theorem isSurrogate_iff (unit : UInt16) :
    isSurrogate unit = true ↔ 0xD800 ≤ unit ∧ unit ≤ 0xDFFF := by
  simp only [isSurrogate, Bool.or_eq_true, isHighSurrogate_iff, isLowSurrogate_iff,
    UInt16.le_iff_toNat_le, UInt16.reduceToNat]
  omega

theorem toNat_ofNat_of_isValidChar {n : Nat} (h : n.isValidChar) : (Char.ofNat n).toNat = n := by
  rw [Char.ofNat, dif_pos h]
  rfl

/-- Both halves of a pair together stay below the last character. -/
theorem toNat_pair {high low : UInt16} {units : List UInt16}
    (h : StartsPair (high :: low :: units)) :
    (pair high low).toNat = 0x10000 + (high.toNat - 0xD800) * 0x400 + (low.toNat - 0xDC00) := by
  simp only [StartsPair, UInt16.le_iff_toNat_le, UInt16.reduceToNat] at h
  have hvalid : Nat.isValidChar
      (0x10000 + (high.toNat - 0xD800) * 0x400 + (low.toNat - 0xDC00)) := by
    right
    omega
  rw [pair, toNat_ofNat_of_isValidChar hvalid]

theorem toNat_single {unit : UInt16} (h : unit < 0xD800 ∨ 0xDFFF < unit) :
    (single unit).toNat = unit.toNat := by
  have hlt : unit.toNat < 0x10000 := unit.toNat_lt
  have hplain : ¬ isSurrogate unit = true := by
    rw [isSurrogate_iff]
    simp only [UInt16.le_iff_toNat_le, UInt16.lt_iff_toNat_lt, UInt16.reduceToNat] at h ⊢
    omega
  have hvalid : Nat.isValidChar unit.toNat := by
    simp only [UInt16.lt_iff_toNat_lt, UInt16.reduceToNat] at h
    unfold Nat.isValidChar
    omega
  rw [single, if_neg hplain, toNat_ofNat_of_isValidChar hvalid]

theorem single_of_isSurrogate {unit : UInt16} (h : 0xD800 ≤ unit ∧ unit ≤ 0xDFFF) :
    single unit = replacement := by
  rw [single, if_pos ((isSurrogate_iff unit).mpr h)]

/-- A unit that starts no pair is shown by itself. -/
theorem decode_cons_of_not_startsPair {unit : UInt16} {units : List UInt16}
    (h : ¬ StartsPair (unit :: units)) : decode (unit :: units) = single unit :: decode units := by
  cases units with
  | nil => rfl
  | cons second units =>
    rw [startsPair_iff] at h
    rw [decode, if_neg h]

theorem not_startsPair_of_plain {unit : UInt16} (h : unit < 0xD800 ∨ 0xDFFF < unit)
    (units : List UInt16) : ¬ StartsPair (unit :: units) := by
  cases units with
  | nil => simp [StartsPair]
  | cons second units =>
    simp only [StartsPair, UInt16.le_iff_toNat_le, UInt16.lt_iff_toNat_lt,
      UInt16.reduceToNat] at h ⊢
    omega

theorem Shown.eq_decode {units : List UInt16} {chars : List Char} (h : Shown units chars) :
    chars = decode units := by
  induction h with
  | nil => rfl
  | @pair high low c units chars hpair hc h ih =>
    have hchar : c = Utf16.pair high low := by
      apply Char.toNat_inj.mp
      rw [hc, toNat_pair hpair]
    rw [decode, if_pos ((startsPair_iff high low units).mp hpair), hchar, ih]
  | @lone unit units chars hunit halone h ih =>
    rw [decode_cons_of_not_startsPair halone, single_of_isSurrogate hunit, ih]
    rfl
  | @plain unit c units chars hunit hc h ih =>
    have hchar : c = single unit := by
      apply Char.toNat_inj.mp
      rw [hc, toNat_single hunit]
    rw [decode_cons_of_not_startsPair (not_startsPair_of_plain hunit units), hchar, ih]

/-- A unit that starts no pair is replaced or kept. -/
theorem shown_single {unit : UInt16} {units : List UInt16} {chars : List Char}
    (halone : ¬ StartsPair (unit :: units)) (h : Shown units chars) :
    Shown (unit :: units) (single unit :: chars) := by
  by_cases hunit : 0xD800 ≤ unit ∧ unit ≤ 0xDFFF
  · rw [single_of_isSurrogate hunit]
    exact .lone hunit halone h
  · have hplain : unit < 0xD800 ∨ 0xDFFF < unit := by
      simp only [UInt16.le_iff_toNat_le, UInt16.lt_iff_toNat_lt, UInt16.reduceToNat] at hunit ⊢
      omega
    exact .plain hplain (toNat_single hplain) h

theorem shown_decode (units : List UInt16) : Shown units (decode units) := by
  fun_induction decode units with
  | case1 => exact .nil
  | case2 unit =>
    apply shown_single _ .nil
    simp [StartsPair]
  | case3 high low units hpair ih =>
    have hpair := (startsPair_iff high low units).mpr hpair
    exact .pair hpair (toNat_pair hpair) ih
  | case4 first second units hpair ih =>
    rw [← startsPair_iff first second units] at hpair
    exact shown_single hpair ih

/-- Every row of units is shown in one way. -/
theorem shown_iff {units : List UInt16} {chars : List Char} :
    Shown units chars ↔ chars = decode units := by
  constructor
  · exact Shown.eq_decode
  · rintro rfl
    exact shown_decode units

end Utf16

/-! ## Rows of groups -/

namespace ModifiedUtf8

/-- The bytes cut into groups, each with the unit that it stores. -/
structure IsRow (bytes : List UInt8) (row : List (List UInt8 × UInt16)) : Prop where
  groups : ∀ piece ∈ row, Group piece.1 piece.2
  joined : row.flatMap Prod.fst = bytes

/-- The number in a group: what its bytes have above the least byte of their range, six bits each
behind the first. -/
def groupNumber : List UInt8 → Nat
  | [first] => first.toNat
  | [first, second] => (first.toNat - 0xC0) * 0x40 + (second.toNat - 0x80)
  | [first, second, third] =>
    ((first.toNat - 0xE0) * 0x40 + (second.toNat - 0x80)) * 0x40 + (third.toNat - 0x80)
  | _ => 0

/-- A byte is the least byte of its range and a number above it. -/
theorem exists_above {base : Nat} {byte : UInt8} (h : base ≤ byte.toNat) :
    ∃ n, byte = UInt8.ofNat (base + n) ∧ byte.toNat = base + n := by
  have hsum : base + (byte.toNat - base) = byte.toNat := by omega
  refine ⟨byte.toNat - base, ?_, hsum.symm⟩
  rw [hsum, UInt8.ofNat_toNat]

theorem toNat_unit2 {first second : UInt8} (h : 0xC0 ≤ first ∧ first ≤ 0xDF)
    (hsecond : Tail second) : (unit2 first second).toNat = groupNumber [first, second] := by
  simp only [Tail, UInt8.le_iff_toNat_le, UInt8.reduceToNat] at h hsecond
  obtain ⟨high, hfirst, hhigh⟩ := exists_above h.1
  obtain ⟨low, hbyte, hlow⟩ := exists_above hsecond.1
  have hunit : unit2 first second = UInt16.ofNat (high * 0x40 + low) := by
    rw [hfirst, hbyte, unit2_ofNat (by omega) (by omega)]
  show _ = (first.toNat - 0xC0) * 0x40 + (second.toNat - 0x80)
  rw [hunit, Text.toNat_unit (by omega)]
  omega

theorem toNat_unit3 {first second third : UInt8} (h : 0xE0 ≤ first ∧ first ≤ 0xEF)
    (hsecond : Tail second) (hthird : Tail third) :
    (unit3 first second third).toNat = groupNumber [first, second, third] := by
  simp only [Tail, UInt8.le_iff_toNat_le, UInt8.reduceToNat] at h hsecond hthird
  obtain ⟨high, hfirst, hhigh⟩ := exists_above h.1
  obtain ⟨middle, hbyte, hmiddle⟩ := exists_above hsecond.1
  obtain ⟨low, hlast, hlow⟩ := exists_above hthird.1
  have hunit : unit3 first second third = UInt16.ofNat ((high * 0x40 + middle) * 0x40 + low) := by
    rw [hfirst, hbyte, hlast, unit3_ofNat (by omega) (by omega) (by omega)]
  show _ = ((first.toNat - 0xE0) * 0x40 + (second.toNat - 0x80)) * 0x40 + (third.toNat - 0x80)
  rw [hunit, Text.toNat_unit (by omega)]
  omega

theorem Group.toNat_eq {bytes : List UInt8} {unit : UInt16} (h : Group bytes unit) :
    unit.toNat = groupNumber bytes := by
  cases h with
  | one h => exact UInt8.toNat_toUInt16 _
  | two h hsecond => exact toNat_unit2 h hsecond
  | three h hsecond hthird => exact toNat_unit3 h hsecond hthird

theorem Group.ne_nil {bytes : List UInt8} {unit : UInt16} (h : Group bytes unit) : bytes ≠ [] := by
  cases h <;> simp

/-- No group is the front of another, so at most one stands in front. -/
theorem Group.unique_front {own other rest behind : List UInt8} {unit otherUnit : UInt16}
    (h : Group own unit) (hother : Group other otherUnit) (hsame : own ++ rest = other ++ behind) :
    own = other ∧ unit = otherUnit ∧ rest = behind := by
  cases h with
  | one h => cases hother <;> simp_all [UInt8.le_iff_toNat_le] <;> omega
  | two h hsecond => cases hother <;> simp_all [UInt8.le_iff_toNat_le] <;> omega
  | three h hsecond hthird => cases hother <;> simp_all [UInt8.le_iff_toNat_le] <;> omega

namespace IsRow

theorem nil : IsRow [] [] := ⟨by simp, rfl⟩

theorem cons {own rest : List UInt8} {unit : UInt16} {row : List (List UInt8 × UInt16)}
    (h : Group own unit) (hrow : IsRow rest row) : IsRow (own ++ rest) ((own, unit) :: row) := by
  refine ⟨List.forall_mem_cons.mpr ⟨h, hrow.groups⟩, ?_⟩
  rw [List.flatMap_cons, hrow.joined]

theorem unique {bytes : List UInt8} {row other : List (List UInt8 × UInt16)}
    (h : IsRow bytes row) (hother : IsRow bytes other) : row = other := by
  obtain ⟨hgroups, rfl⟩ := h
  obtain ⟨hothers, hsame⟩ := hother
  induction row generalizing other with
  | nil =>
    cases other with
    | nil => rfl
    | cons piece other =>
      have hempty : piece.1 = [] := (List.append_eq_nil_iff.mp hsame).1
      exact absurd hempty (hothers piece List.mem_cons_self).ne_nil
  | cons piece row ih =>
    rw [List.forall_mem_cons] at hgroups
    cases other with
    | nil =>
      have hempty : piece.1 = [] := (List.append_eq_nil_iff.mp hsame.symm).1
      exact absurd hempty hgroups.1.ne_nil
    | cons first other =>
      rw [List.forall_mem_cons] at hothers
      obtain ⟨hbytes, hunit, hrest⟩ := hothers.1.unique_front hgroups.1 hsame
      rw [Prod.ext hbytes hunit, ih hgroups.2 hothers.2 hrest]

end IsRow

/-- Rows of groups with and without their places in the bytes. -/
theorem groups_iff_exists_isRow {bytes : List UInt8} {units : List UInt16} :
    Groups bytes units ↔ ∃ row, IsRow bytes row ∧ row.map Prod.snd = units := by
  constructor
  · intro h
    induction h with
    | nil => exact ⟨[], .nil, rfl⟩
    | cons h _ ih =>
      obtain ⟨row, hrow, rfl⟩ := ih
      exact ⟨_, hrow.cons h, rfl⟩
  · rintro ⟨row, ⟨hgroups, rfl⟩, rfl⟩
    induction row with
    | nil => exact .nil
    | cons piece row ih =>
      rw [List.forall_mem_cons] at hgroups
      exact .cons hgroups.1 (ih hgroups.2)

/-! ## Where the groups end -/

/-- No group stands in front. -/
def Stuck (bytes : List UInt8) : Prop := ∀ own unit, Group own unit → ¬ own <+: bytes

/-- The front of the bytes that is a row of groups, while no longer front is. -/
structure IsLongestRow (bytes front : List UInt8) : Prop where
  isPrefix : front <+: bytes
  isRow : ∃ row, IsRow front row
  longest : ∀ other row, other <+: bytes → IsRow other row → other.length ≤ front.length

theorem Groups.append {front bytes : List UInt8} {units others : List UInt16}
    (h : Groups front units) (hothers : Groups bytes others) :
    Groups (front ++ bytes) (units ++ others) := by
  induction h with
  | nil => exact hothers
  | cons h _ ih =>
    rw [List.append_assoc]
    exact .cons h ih

/-- Taking off groups ends with none or with bytes that no group stands in front of. -/
theorem exists_groups_stuck (bytes : List UInt8) :
    ∃ front rest units, bytes = front ++ rest ∧ Groups front units ∧ Stuck rest := by
  induction hlength : bytes.length using Nat.strongRecOn generalizing bytes with
  | _ length ih =>
    by_cases hstuck : Stuck bytes
    · exact ⟨[], bytes, [], rfl, .nil, hstuck⟩
    · simp only [Stuck, Classical.not_forall, Classical.not_not] at hstuck
      obtain ⟨own, unit, hgroup, behind, rfl⟩ := hstuck
      have hpos : 0 < own.length := List.length_pos_iff.mpr hgroup.ne_nil
      rw [List.length_append] at hlength
      obtain ⟨front, rest, units, rfl, hgroups, hrest⟩ := ih behind.length (by omega) behind rfl
      exact ⟨own ++ front, rest, unit :: units, by simp, .cons hgroup hgroups, hrest⟩

/-- Any other row in front is no longer than one behind which no group stands. -/
theorem Groups.length_le_of_stuck {front rest other : List UInt8} {units others : List UInt16}
    (h : Groups front units) (hstuck : Stuck rest) (hother : Groups other others)
    (hfront : other <+: front ++ rest) : other.length ≤ front.length := by
  induction h generalizing other others with
  | nil =>
    cases hother with
    | nil => simp
    | cons hgroup _ => exact absurd ((List.prefix_append _ _).trans hfront) (hstuck _ _ hgroup)
  | @cons own behind unit units hgroup _ ih =>
    cases hother with
    | nil => simp
    | @cons otherOwn otherRest otherUnit otherUnits hotherGroup hotherGroups =>
      -- Both start with the same group, and the rest is compared behind it.
      obtain ⟨left, hleft⟩ := hfront
      rw [List.append_assoc, List.append_assoc] at hleft
      obtain ⟨rfl, -, hbehind⟩ := hotherGroup.unique_front hgroup hleft
      have hle := ih hotherGroups ⟨left, hbehind⟩
      simp only [List.length_append]
      omega

/-- Bytes that no group stands in front of are refused at the first of them. -/
theorem unitsFrom_of_stuck {first : UInt8} {rest : List UInt8} (h : Stuck (first :: rest))
    (offset : Nat) :
    unitsFrom offset (first :: rest) = .error (.malformed (.textEncoding first offset)) := by
  unfold unitsFrom
  split
  · rename_i hlead
    exact absurd (List.prefix_append [first] _) (h _ _ (.one ((lead_eq_one_iff first).mp hlead)))
  · rename_i second rest hlead
    rw [if_neg]
    intro hsecond
    refine h _ _ (.two ((lead_eq_two_iff first).mp hlead)
      ((isContinuation_iff second).mp hsecond)) ?_
    exact List.prefix_append [first, second] rest
  · rename_i second third rest hlead
    rw [if_neg]
    intro htails
    obtain ⟨hsecond, hthird⟩ := Bool.and_eq_true_iff.mp htails
    refine h _ _ (.three ((lead_eq_three_iff first).mp hlead)
      ((isContinuation_iff second).mp hsecond) ((isContinuation_iff third).mp hthird)) ?_
    exact List.prefix_append [first, second, third] rest
  · rfl

theorem Groups.unitsFrom_append {front : List UInt8} {units : List UInt16} (h : Groups front units)
    (offset : Nat) (rest : List UInt8) :
    unitsFrom offset (front ++ rest)
      = (unitsFrom (offset + front.length) rest).map (units ++ ·) := by
  induction h generalizing offset with
  | nil =>
    show unitsFrom offset rest = (unitsFrom (offset + 0) rest).map id
    cases unitsFrom offset rest <;> rfl
  | cons h _ ih =>
    rw [List.append_assoc, h.unitsFrom_append, ih, List.length_append, Nat.add_assoc]
    cases unitsFrom _ rest <;> rfl

theorem decode_of_stuck {front rest : List UInt8} {units : List UInt16} {byte : UInt8}
    (h : Groups front units) (hstuck : Stuck (byte :: rest)) :
    decode (front ++ byte :: rest) = .error (.malformed (.textEncoding byte front.length)) := by
  rw [decode, ModifiedUtf8.units, h.unitsFrom_append, unitsFrom_of_stuck hstuck, Nat.zero_add]
  rfl

/-- One more group behind the longest row would make it longer. -/
theorem IsLongestRow.stuck {front rest : List UInt8} (h : IsLongestRow (front ++ rest) front) :
    Stuck rest := by
  intro own unit hgroup hown
  obtain ⟨row, hrow⟩ := h.isRow
  have hgroups : Groups front (row.map Prod.snd) := groups_iff_exists_isRow.mpr ⟨row, hrow, rfl⟩
  have hmore : Groups (front ++ own) (row.map Prod.snd ++ [unit]) := by
    apply hgroups.append
    simpa using Groups.cons hgroup .nil
  obtain ⟨longer, hlonger, -⟩ := groups_iff_exists_isRow.mp hmore
  have hle := h.longest _ _ (List.prefix_append_right_inj front |>.mpr hown) hlonger
  have hpos : 0 < own.length := List.length_pos_iff.mpr hgroup.ne_nil
  rw [List.length_append] at hle
  omega

theorem Groups.isLongestRow {front rest : List UInt8} {units : List UInt16} (h : Groups front units)
    (hstuck : Stuck rest) : IsLongestRow (front ++ rest) front := by
  obtain ⟨row, hrow, -⟩ := groups_iff_exists_isRow.mp h
  refine ⟨List.prefix_append front rest, ⟨row, hrow⟩, fun other otherRow hother hotherRow => ?_⟩
  exact h.length_le_of_stuck hstuck (groups_iff_exists_isRow.mpr ⟨otherRow, hotherRow, rfl⟩) hother

/-- A refusal names the first byte behind the longest row, and where it stands. -/
theorem decode_eq_error_iff {bytes : List UInt8} {cause : Error} :
    decode bytes = .error cause ↔ ∃ front byte rest, bytes = front ++ byte :: rest
      ∧ IsLongestRow bytes front ∧ cause = .malformed (.textEncoding byte front.length) := by
  constructor
  · intro h
    obtain ⟨front, rest, units, rfl, hgroups, hstuck⟩ := exists_groups_stuck bytes
    cases rest with
    | nil =>
      rw [List.append_nil] at h
      rw [decode_eq_ok_iff.mpr ⟨units, hgroups, rfl⟩] at h
      cases h
    | cons byte rest =>
      rw [decode_of_stuck hgroups hstuck] at h
      cases h
      exact ⟨front, byte, rest, rfl, hgroups.isLongestRow hstuck, rfl⟩
  · rintro ⟨front, byte, rest, rfl, hlongest, rfl⟩
    obtain ⟨row, hrow⟩ := hlongest.isRow
    exact decode_of_stuck (groups_iff_exists_isRow.mpr ⟨row, hrow, rfl⟩) hlongest.stuck

/-! ## What the decoder accepts, gives and refuses -/

/-- Bytes store a text exactly if they are a row of groups.  They are one in one way only, the units
are the numbers in the groups, and the text shows the units, so that no surrogate is in it.  Bytes
that are no row are refused with the offset behind their longest row and the byte at it. -/
theorem decode_accepts_rows (bytes : List UInt8) :
    ((∃ text, decode bytes = .ok text) ↔ ∃ row, IsRow bytes row)
    ∧ (∀ row, IsRow bytes row →
        (∀ other, IsRow bytes other → other = row)
        ∧ (∀ piece ∈ row, piece.2.toNat = groupNumber piece.1)
        ∧ ∀ text, decode bytes = .ok text ↔ Utf16.Shown (row.map Prod.snd) text.toList)
    ∧ (∀ text, decode bytes = .ok text →
        ∀ c ∈ text.toList, ¬ (0xD800 ≤ c.toNat ∧ c.toNat ≤ 0xDFFF))
    ∧ ∀ cause, decode bytes = .error cause ↔ ∃ front byte rest, bytes = front ++ byte :: rest
        ∧ IsLongestRow bytes front ∧ cause = .malformed (.textEncoding byte front.length)
        ∧ Defect.message (.textEncoding byte front.length)
          = s!"invalid modified UTF-8 byte {hexNumeral 2 byte.toNat} at {front.length}" := by
  refine ⟨⟨?_, ?_⟩, fun row hrow => ⟨fun other hother => hother.unique hrow, ?_, ?_⟩, ?_, ?_⟩
  · rintro ⟨text, h⟩
    obtain ⟨units, hgroups, -⟩ := decode_eq_ok_iff.mp h
    obtain ⟨row, hrow, -⟩ := groups_iff_exists_isRow.mp hgroups
    exact ⟨row, hrow⟩
  · rintro ⟨row, hrow⟩
    exact ⟨_, decode_eq_ok_iff.mpr ⟨_, groups_iff_exists_isRow.mpr ⟨row, hrow, rfl⟩, rfl⟩⟩
  · intro piece hpiece
    exact (hrow.groups piece hpiece).toNat_eq
  · intro text
    have hdecode : decode bytes = .ok (String.ofList (Utf16.decode (row.map Prod.snd))) :=
      decode_eq_ok_iff.mpr ⟨_, groups_iff_exists_isRow.mpr ⟨row, hrow, rfl⟩, rfl⟩
    rw [hdecode, Utf16.shown_iff, Except.ok.injEq]
    constructor
    · rintro rfl
      exact String.toList_ofList
    · intro h
      rw [← h, String.ofList_toList]
  · intro text _ c _
    have hvalid := Utf16.toNat_valid c
    omega
  · intro cause
    rw [decode_eq_error_iff]
    constructor
    · rintro ⟨front, byte, rest, hbytes, hlongest, rfl⟩
      exact ⟨front, byte, rest, hbytes, hlongest, rfl, rfl⟩
    · rintro ⟨front, byte, rest, hbytes, hlongest, hcause, -⟩
      exact ⟨front, byte, rest, hbytes, hlongest, hcause⟩

/-- A surrogate without its partner is replaced, and a group that is cut off is refused where it
starts. -/
theorem decode_accepts_rows_lone_surrogate :
    IsRow [0x61, 0xED, 0xA0, 0x80, 0x62]
        [([0x61], 0x61), ([0xED, 0xA0, 0x80], 0xD800), ([0x62], 0x62)]
      ∧ decode [0x61, 0xED, 0xA0, 0x80, 0x62] = .ok "a\uFFFDb"
      ∧ ∃ front byte rest, [0x61, 0xED, 0xA0] = front ++ byte :: rest
        ∧ IsLongestRow [0x61, 0xED, 0xA0] front ∧ front.length = 1 := by
  have hrow : IsRow [0x61, 0xED, 0xA0, 0x80, 0x62]
      [([0x61], 0x61), ([0xED, 0xA0, 0x80], 0xD800), ([0x62], 0x62)] :=
    .cons (.one (by decide)) (.cons (.three (by decide) (by decide) (by decide))
      (.cons (.one (by decide)) .nil))
  have hshown : Utf16.Shown [0x61, 0xD800, 0x62] "a\uFFFDb".toList :=
    .plain (by decide) rfl (.lone (by decide) (by simp [Utf16.StartsPair])
      (.plain (by decide) rfl .nil))
  obtain ⟨-, -, htext⟩ := (decode_accepts_rows _).2.1 _ hrow
  obtain ⟨front, byte, rest, hbytes, hlongest, hcause, -⟩ :=
    ((decode_accepts_rows [0x61, 0xED, 0xA0]).2.2.2 (.malformed (.textEncoding 0xED 1))).mp rfl
  simp only [Error.malformed.injEq, Defect.textEncoding.injEq] at hcause
  exact ⟨hrow, (htext _).mpr hshown, front, byte, rest, hbytes, hlongest, hcause.2.symm⟩

end ModifiedUtf8

end ClassFormat.Text
