/-
# ClassFormat.Proofs.Text.Encoding: writing text as class files store it

The encoder is the other direction of `Text.ModifiedUtf8.decode`: characters become 16-bit units,
and every unit the shortest group that holds it, except that the null character takes two bytes so
that no null byte is ever written.  A text is made of characters, never of lone surrogates, and so
it is read back as it was.
-/
import ClassFormat.Text.ModifiedUtf8

namespace ClassFormat.Text

/-! ## Characters as units -/

theorem toNat_unit {n : Nat} (h : n < 0x10000) : (UInt16.ofNat n).toNat = n :=
  UInt16.toNat_ofNat_of_lt' h

namespace Utf16

/-- The units of a character: one, or a pair of surrogates for a supplementary character. -/
def encodeChar (c : Char) : List UInt16 :=
  if c.toNat < 0x10000 then [UInt16.ofNat c.toNat]
  else
    [UInt16.ofNat (0xD800 + (c.toNat - 0x10000) / 0x400),
     UInt16.ofNat (0xDC00 + (c.toNat - 0x10000) % 0x400)]

def encode (chars : List Char) : List UInt16 := chars.flatMap encodeChar

/-- No character is a surrogate. -/
theorem toNat_valid (c : Char) : c.toNat < 0xD800 ∨ 0xDFFF < c.toNat ∧ c.toNat < 0x110000 :=
  c.valid

theorem isHighSurrogate_iff (unit : UInt16) :
    isHighSurrogate unit = true ↔ 0xD800 ≤ unit.toNat ∧ unit.toNat ≤ 0xDBFF := by
  simp [isHighSurrogate, UInt16.le_iff_toNat_le]

theorem isLowSurrogate_iff (unit : UInt16) :
    isLowSurrogate unit = true ↔ 0xDC00 ≤ unit.toNat ∧ unit.toNat ≤ 0xDFFF := by
  simp [isLowSurrogate, UInt16.le_iff_toNat_le]

/-- A unit that does not start a pair is a character of its own, whatever follows it. -/
theorem decode_cons_of_not_high {unit : UInt16} (h : isHighSurrogate unit = false)
    (rest : List UInt16) : decode (unit :: rest) = single unit :: decode rest := by
  cases rest with
  | nil => rfl
  | cons second rest => simp [decode, h]

theorem decode_encodeChar (c : Char) (rest : List UInt16) :
    decode (encodeChar c ++ rest) = c :: decode rest := by
  have hvalid := toNat_valid c
  by_cases hbmp : c.toNat < 0x10000
  · -- A single unit is a character of its own unless it is a surrogate, which no character is.
    have hunit : (UInt16.ofNat c.toNat).toNat = c.toNat := toNat_unit hbmp
    have hhigh : isHighSurrogate (UInt16.ofNat c.toNat) = false := by
      rw [Bool.eq_false_iff, ne_eq, isHighSurrogate_iff, hunit]
      omega
    have hlow : isLowSurrogate (UInt16.ofNat c.toNat) = false := by
      rw [Bool.eq_false_iff, ne_eq, isLowSurrogate_iff, hunit]
      omega
    have hsingle : single (UInt16.ofNat c.toNat) = c := by
      simp [single, isSurrogate, hhigh, hlow, Nat.mod_eq_of_lt hbmp]
    rw [encodeChar, if_pos hbmp, List.singleton_append, decode_cons_of_not_high hhigh, hsingle]
  · -- The pair is found by its two ranges, and its two halves make up the distance to U+10000.
    have hhigh : (UInt16.ofNat (0xD800 + (c.toNat - 0x10000) / 0x400)).toNat
        = 0xD800 + (c.toNat - 0x10000) / 0x400 := toNat_unit (by omega)
    have hlow : (UInt16.ofNat (0xDC00 + (c.toNat - 0x10000) % 0x400)).toNat
        = 0xDC00 + (c.toNat - 0x10000) % 0x400 := toNat_unit (by omega)
    have hpair : isHighSurrogate (UInt16.ofNat (0xD800 + (c.toNat - 0x10000) / 0x400))
        && isLowSurrogate (UInt16.ofNat (0xDC00 + (c.toNat - 0x10000) % 0x400)) := by
      rw [Bool.and_eq_true, isHighSurrogate_iff, isLowSurrogate_iff, hhigh, hlow]
      omega
    have hchar : 0x10000 + (0xD800 + (c.toNat - 0x10000) / 0x400 - 0xD800) * 0x400
        + (0xDC00 + (c.toNat - 0x10000) % 0x400 - 0xDC00) = c.toNat := by omega
    rw [encodeChar, if_neg hbmp, List.cons_append, List.singleton_append, decode, if_pos hpair,
      pair, hhigh, hlow, hchar, Char.ofNat_toNat]

theorem decode_encode (chars : List Char) : decode (encode chars) = chars := by
  induction chars with
  | nil => rfl
  | cons c chars ih =>
    rw [encode, List.flatMap_cons, decode_encodeChar]
    exact congrArg (c :: ·) ih

end Utf16

/-! ## Units as groups of bytes -/

namespace ModifiedUtf8

/-- The group of a unit: as short as it can be, but never a null byte. -/
def encodeUnit (unit : UInt16) : List UInt8 :=
  if 0 < unit.toNat ∧ unit.toNat < 0x80 then [UInt8.ofNat unit.toNat]
  else if unit.toNat < 0x800 then
    [UInt8.ofNat (0xC0 + unit.toNat / 0x40), UInt8.ofNat (0x80 + unit.toNat % 0x40)]
  else
    [UInt8.ofNat (0xE0 + unit.toNat / 0x1000), UInt8.ofNat (0x80 + unit.toNat / 0x40 % 0x40),
     UInt8.ofNat (0x80 + unit.toNat % 0x40)]

/-- The bytes that store a text. -/
def encode (text : String) : List UInt8 := (Utf16.encode text.toList).flatMap encodeUnit

theorem lead_one : ∀ n < 0x80, lead (UInt8.ofNat n) = .one := by decide

theorem lead_two : ∀ n < 0x20, lead (UInt8.ofNat (0xC0 + n)) = .two := by decide

theorem lead_three : ∀ n < 0x10, lead (UInt8.ofNat (0xE0 + n)) = .three := by decide

theorem isContinuation_ofNat : ∀ n < 0x40, isContinuation (UInt8.ofNat (0x80 + n)) = true := by
  decide

/-- Six bits behind the others. -/
theorem shiftLeft_six_or {high low : Nat} (hhigh : high < 0x400) (hlow : low < 0x40) :
    UInt16.ofNat high <<< 6 ||| UInt16.ofNat low = UInt16.ofNat (high * 0x40 + low) := by
  apply UInt16.toNat_inj.1
  have h1 : (UInt16.ofNat high).toNat = high := toNat_unit (by omega)
  have h2 : (UInt16.ofNat low).toNat = low := toNat_unit (by omega)
  have h3 : (UInt16.ofNat (high * 0x40 + low)).toNat = high * 0x40 + low :=
    toNat_unit (by omega)
  have hsmall : high <<< 6 < 2 ^ 16 := by rw [Nat.shiftLeft_eq]; omega
  rw [UInt16.toNat_or, UInt16.toNat_shiftLeft, h1, h2, h3]
  show high <<< 6 % 2 ^ 16 ||| low = high * 0x40 + low
  rw [Nat.mod_eq_of_lt hsmall, ← Nat.shiftLeft_add_eq_or_of_lt hlow, Nat.shiftLeft_eq]

theorem unit2_ofNat {high low : Nat} (hhigh : high < 0x20) (hlow : low < 0x40) :
    unit2 (UInt8.ofNat (0xC0 + high)) (UInt8.ofNat (0x80 + low))
      = UInt16.ofNat (high * 0x40 + low) := by
  have h1 : ∀ n < 0x20, (UInt8.ofNat (0xC0 + n)).toUInt16 &&& 0x1F = UInt16.ofNat n := by decide
  have h2 : ∀ n < 0x40, (UInt8.ofNat (0x80 + n)).toUInt16 &&& 0x3F = UInt16.ofNat n := by decide
  rw [unit2, h1 high hhigh, h2 low hlow, shiftLeft_six_or (by omega) hlow]

theorem unit3_ofNat {high middle low : Nat} (hhigh : high < 0x10) (hmiddle : middle < 0x40)
    (hlow : low < 0x40) :
    unit3 (UInt8.ofNat (0xE0 + high)) (UInt8.ofNat (0x80 + middle)) (UInt8.ofNat (0x80 + low))
      = UInt16.ofNat ((high * 0x40 + middle) * 0x40 + low) := by
  have h1 : ∀ n < 0x10, (UInt8.ofNat (0xE0 + n)).toUInt16 &&& 0x0F = UInt16.ofNat n := by decide
  have h2 : ∀ n < 0x40, (UInt8.ofNat (0x80 + n)).toUInt16 &&& 0x3F = UInt16.ofNat n := by decide
  have hshift : ∀ n < 0x10, UInt16.ofNat n <<< 12 = UInt16.ofNat n <<< 6 <<< 6 := by decide
  rw [unit3, h1 high hhigh, h2 middle hmiddle, h2 low hlow, hshift high hhigh,
    ← UInt16.shiftLeft_or, shiftLeft_six_or (by omega) hmiddle, shiftLeft_six_or (by omega) hlow]

/-! ## Reading the groups -/

theorem unitsFrom_one {first : UInt8} (h : lead first = .one) (offset : Nat) (rest : List UInt8) :
    unitsFrom offset (first :: rest)
      = (unitsFrom (offset + 1) rest).map (first.toUInt16 :: ·) := by
  simp [unitsFrom, h]

theorem unitsFrom_two {first second : UInt8} (h : lead first = .two)
    (hsecond : isContinuation second = true) (offset : Nat) (rest : List UInt8) :
    unitsFrom offset (first :: second :: rest)
      = (unitsFrom (offset + 2) rest).map (unit2 first second :: ·) := by
  simp [unitsFrom, h, hsecond]

theorem unitsFrom_three {first second third : UInt8} (h : lead first = .three)
    (hsecond : isContinuation second = true) (hthird : isContinuation third = true)
    (offset : Nat) (rest : List UInt8) :
    unitsFrom offset (first :: second :: third :: rest)
      = (unitsFrom (offset + 3) rest).map (unit3 first second third :: ·) := by
  simp [unitsFrom, h, hsecond, hthird]

/-- The group of a unit is read as that unit, and reading goes on behind the group. -/
theorem unitsFrom_encodeUnit (unit : UInt16) (offset : Nat) (rest : List UInt8) :
    unitsFrom offset (encodeUnit unit ++ rest)
      = (unitsFrom (offset + (encodeUnit unit).length) rest).map (unit :: ·) := by
  have hunit : unit.toNat < 0x10000 := unit.toNat_lt
  by_cases hone : 0 < unit.toNat ∧ unit.toNat < 0x80
  · have hbyte : (UInt8.ofNat unit.toNat).toUInt16 = unit := by
      apply UInt16.toNat_inj.1
      simp
      omega
    rw [encodeUnit, if_pos hone, List.singleton_append, unitsFrom_one (lead_one _ hone.2), hbyte]
    rfl
  · by_cases htwo : unit.toNat < 0x800
    · -- Five bits in the first byte and six in the second; the null has this form too.
      have hparts : unit.toNat / 0x40 * 0x40 + unit.toNat % 0x40 = unit.toNat := by omega
      rw [encodeUnit, if_neg hone, if_pos htwo, List.cons_append, List.singleton_append,
        unitsFrom_two (lead_two _ (by omega)) (isContinuation_ofNat _ (by omega)),
        unit2_ofNat (by omega) (by omega), hparts, UInt16.ofNat_toNat]
      rfl
    · have hparts : (unit.toNat / 0x1000 * 0x40 + unit.toNat / 0x40 % 0x40) * 0x40
          + unit.toNat % 0x40 = unit.toNat := by omega
      rw [encodeUnit, if_neg hone, if_neg htwo, List.cons_append, List.cons_append,
        List.singleton_append,
        unitsFrom_three (lead_three _ (by omega)) (isContinuation_ofNat _ (by omega))
          (isContinuation_ofNat _ (by omega)),
        unit3_ofNat (by omega) (by omega) (by omega), hparts, UInt16.ofNat_toNat]
      rfl

theorem unitsFrom_flatMap_encodeUnit (units : List UInt16) (offset : Nat) :
    unitsFrom offset (units.flatMap encodeUnit) = .ok units := by
  induction units generalizing offset with
  | nil => rfl
  | cons unit units ih =>
    rw [List.flatMap_cons, unitsFrom_encodeUnit, ih]
    rfl

/-- Every text is read back from the bytes that store it. -/
theorem decode_encode (text : String) : decode (encode text) = .ok text := by
  rw [decode, units, encode, unitsFrom_flatMap_encodeUnit]
  show Except.ok (String.ofList (Utf16.decode (Utf16.encode text.toList))) = Except.ok text
  rw [Utf16.decode_encode, String.ofList_toList]

/-! ## Characters as bytes -/

/-- The three bytes of a number below `0x10000`: four bits in the first and six in each other. -/
def threeBytes (n : Nat) : List UInt8 :=
  [UInt8.ofNat (0xE0 + n / 0x1000), UInt8.ofNat (0x80 + n / 0x40 % 0x40),
   UInt8.ofNat (0x80 + n % 0x40)]

/-- The bytes that store one character, by the range it is in. -/
def charBytes (c : Char) : List UInt8 :=
  if c.toNat = 0 then [0xC0, 0x80]
  else if c.toNat < 0x80 then [UInt8.ofNat c.toNat]
  else if c.toNat < 0x800 then
    [UInt8.ofNat (0xC0 + c.toNat / 0x40), UInt8.ofNat (0x80 + c.toNat % 0x40)]
  else if c.toNat < 0x10000 then threeBytes c.toNat
  else
    threeBytes (0xD800 + (c.toNat - 0x10000) / 0x400)
      ++ threeBytes (0xDC00 + (c.toNat - 0x10000) % 0x400)

/-- A unit from `0x800` on, surrogates included, takes three bytes. -/
theorem encodeUnit_ofNat {n : Nat} (hlow : 0x800 ≤ n) (hhigh : n < 0x10000) :
    encodeUnit (UInt16.ofNat n) = threeBytes n := by
  have hone : ¬(0 < n ∧ n < 0x80) := by omega
  have htwo : ¬n < 0x800 := by omega
  simp only [encodeUnit, toNat_unit hhigh, if_neg hone, if_neg htwo, threeBytes]

/-- By its units or by its range, a character is stored in the same bytes. -/
theorem flatMap_encodeUnit_encodeChar (c : Char) :
    (Utf16.encodeChar c).flatMap encodeUnit = charBytes c := by
  have hvalid := Utf16.toNat_valid c
  by_cases hbmp : c.toNat < 0x10000
  · rw [Utf16.encodeChar, if_pos hbmp, List.flatMap_singleton]
    by_cases hthree : 0x800 ≤ c.toNat
    · rw [encodeUnit_ofNat hthree hbmp, charBytes, if_neg (by omega), if_neg (by omega),
        if_neg (by omega), if_pos hbmp]
    · have htwo : c.toNat < 0x800 := by omega
      simp only [encodeUnit, charBytes, toNat_unit hbmp, if_pos htwo]
      by_cases hzero : c.toNat = 0
      · rw [if_pos hzero, hzero]
        rfl
      · simp only [hzero, if_false, Nat.pos_of_ne_zero hzero, true_and]
  · -- Both surrogates lie above `0x800`, so that each takes three bytes.
    rw [Utf16.encodeChar, if_neg hbmp, charBytes, if_neg (by omega), if_neg (by omega),
      if_neg (by omega), if_neg hbmp, List.flatMap_cons, List.flatMap_singleton,
      encodeUnit_ofNat (by omega) (by omega), encodeUnit_ofNat (by omega) (by omega)]

theorem encode_ofList (chars : List Char) :
    encode (String.ofList chars) = chars.flatMap charBytes := by
  rw [encode, String.toList_ofList, Utf16.encode, List.flatMap_assoc]
  exact congrArg chars.flatMap (funext flatMap_encodeUnit_encodeChar)

/-- Characters stored one after the other are read back as they were: no two groups of neighbours
are taken for one pair. -/
theorem decode_flatMap_charBytes (chars : List Char) :
    decode (chars.flatMap charBytes) = .ok (String.ofList chars) := by
  rw [← encode_ofList]
  exact decode_encode (String.ofList chars)

end ModifiedUtf8

end ClassFormat.Text
