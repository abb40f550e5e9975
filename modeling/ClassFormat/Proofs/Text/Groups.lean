/-
# ClassFormat.Proofs.Text.Groups: which bytes store a text

A text is a row of groups of one, two or three bytes, told apart by the range of the first byte.
The decoder accepts these rows and nothing else, and whatever it refuses is malformed.
-/
import ClassFormat.Proofs.Layout.Reads
import ClassFormat.Proofs.Outcome
import ClassFormat.Proofs.Text.Encoding

namespace ClassFormat.Text.ModifiedUtf8

/-! ## The grammar -/

/-- A byte that only continues a group. -/
def Tail (byte : UInt8) : Prop := 0x80 ≤ byte ∧ byte ≤ 0xBF

/-- The bytes that store one unit.  They need not be the fewest that could. -/
inductive Group : List UInt8 → UInt16 → Prop
  | one {first : UInt8} (h : first ≤ 0x7F) : Group [first] first.toUInt16
  | two {first second : UInt8} (h : 0xC0 ≤ first ∧ first ≤ 0xDF) (hsecond : Tail second) :
      Group [first, second] (unit2 first second)
  | three {first second third : UInt8} (h : 0xE0 ≤ first ∧ first ≤ 0xEF) (hsecond : Tail second)
      (hthird : Tail third) : Group [first, second, third] (unit3 first second third)

/-- The bytes that store some units one after the other. -/
inductive Groups : List UInt8 → List UInt16 → Prop
  | nil : Groups [] []
  | cons {bytes rest : List UInt8} {unit : UInt16} {units : List UInt16} (h : Group bytes unit)
      (hrest : Groups rest units) : Groups (bytes ++ rest) (unit :: units)

/-! ## Ranges of bytes -/

instance (byte : UInt8) : Decidable (Tail byte) :=
  inferInstanceAs (Decidable (0x80 ≤ byte ∧ byte ≤ 0xBF))

theorem isContinuation_iff : ∀ byte, isContinuation byte = true ↔ Tail byte :=
  forall_byte (by decide +kernel)

theorem lead_eq_one_iff : ∀ first, lead first = .one ↔ first ≤ 0x7F :=
  forall_byte (by decide +kernel)

theorem lead_eq_two_iff : ∀ first, lead first = .two ↔ 0xC0 ≤ first ∧ first ≤ 0xDF :=
  forall_byte (by decide +kernel)

theorem lead_eq_three_iff : ∀ first, lead first = .three ↔ 0xE0 ≤ first ∧ first ≤ 0xEF :=
  forall_byte (by decide +kernel)

/-! ## The decoder -/

/-- A group in front is read as its unit, and reading goes on behind it. -/
theorem Group.unitsFrom_append {bytes : List UInt8} {unit : UInt16} (h : Group bytes unit)
    (offset : Nat) (rest : List UInt8) :
    unitsFrom offset (bytes ++ rest)
      = (unitsFrom (offset + bytes.length) rest).map (unit :: ·) := by
  cases h with
  | one h => exact unitsFrom_one ((lead_eq_one_iff _).mpr h) offset rest
  | two h hsecond =>
    exact unitsFrom_two ((lead_eq_two_iff _).mpr h) ((isContinuation_iff _).mpr hsecond) offset rest
  | three h hsecond hthird =>
    exact unitsFrom_three ((lead_eq_three_iff _).mpr h) ((isContinuation_iff _).mpr hsecond)
      ((isContinuation_iff _).mpr hthird) offset rest

theorem Groups.unitsFrom_eq {bytes : List UInt8} {units : List UInt16} (h : Groups bytes units)
    (offset : Nat) : unitsFrom offset bytes = .ok units := by
  induction h generalizing offset with
  | nil => rfl
  | cons h _ ih =>
    rw [h.unitsFrom_append, ih]
    rfl

/-- What the decoder accepts is a row of groups, read one by one. -/
theorem groups_of_unitsFrom {offset : Nat} {bytes : List UInt8} {units : List UInt16}
    (h : unitsFrom offset bytes = .ok units) : Groups bytes units := by
  fun_induction unitsFrom offset bytes generalizing units with
  | case1 =>
    cases h
    exact .nil
  | case2 offset first rest hlead ih =>
    obtain ⟨others, hothers, rfl⟩ := map_eq_ok_iff.mp h
    exact .cons (.one ((lead_eq_one_iff first).mp hlead)) (ih hothers)
  | case3 offset first second rest hlead hsecond ih =>
    obtain ⟨others, hothers, rfl⟩ := map_eq_ok_iff.mp h
    exact .cons (.two ((lead_eq_two_iff first).mp hlead) ((isContinuation_iff second).mp hsecond))
      (ih hothers)
  | case5 offset first second third rest hlead htails ih =>
    obtain ⟨others, hothers, rfl⟩ := map_eq_ok_iff.mp h
    obtain ⟨hsecond, hthird⟩ := Bool.and_eq_true_iff.mp htails
    exact .cons (.three ((lead_eq_three_iff first).mp hlead)
      ((isContinuation_iff second).mp hsecond) ((isContinuation_iff third).mp hthird))
      (ih hothers)
  | case4 | case6 | case7 => cases h

/-- The decoder gives a text exactly for rows of groups. -/
theorem decode_eq_ok_iff {bytes : List UInt8} {text : String} :
    decode bytes = .ok text
      ↔ ∃ units, Groups bytes units ∧ text = String.ofList (Utf16.decode units) := by
  rw [decode, map_eq_ok_iff]
  constructor
  · rintro ⟨found, hfound, rfl⟩
    exact ⟨found, groups_of_unitsFrom hfound, rfl⟩
  · rintro ⟨found, hgroups, rfl⟩
    exact ⟨found, hgroups.unitsFrom_eq 0, rfl⟩

theorem unitsFrom_error {offset : Nat} {bytes : List UInt8} {cause : Error}
    (h : unitsFrom offset bytes = .error cause) : ∃ defect, cause = .malformed defect := by
  fun_induction unitsFrom offset bytes with
  | case1 => cases h
  | case2 _ _ _ _ ih | case3 _ _ _ _ _ _ ih | case5 _ _ _ _ _ _ _ ih =>
    exact ih (map_eq_error_iff.mp h)
  | case4 | case6 | case7 =>
    cases h
    exact ⟨_, rfl⟩

end ClassFormat.Text.ModifiedUtf8
