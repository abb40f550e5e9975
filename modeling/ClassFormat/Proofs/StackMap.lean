/-
# ClassFormat.Proofs.StackMap: frames and the tags that announce them

The first byte of a frame falls in one of eight ranges.  Seven of them announce a layout each, and
the eighth is reserved.  Within its range the byte may count locals or hold an offset, by its
distance from an end of the range, so what a frame answers about them is right only as long as its
tag is in the range of its layout.  Every frame that is read has such a tag, and every frame with
such a tag is read back from its bytes.
-/
import ClassFormat.Proofs.Layout.Consumes
import ClassFormat.Proofs.Layout.Frames

namespace ClassFormat

open Reader (Consumes)

/-! ## Ranges of tags -/

namespace FrameKind

/-- The least and the greatest tag that announce a layout. -/
def tags : FrameKind → Nat × Nat
  | same => (0, 63)
  | sameLocals1StackItem => (64, 127)
  | sameLocals1StackItemExtended => (247, 247)
  | chop => (248, 250)
  | sameExtended => (251, 251)
  | append => (252, 254)
  | full => (255, 255)

theorem ofTag_eq_ok_iff {tag : UInt8} {kind : FrameKind} :
    ofTag tag = .ok kind ↔ kind.tags.1 ≤ tag.toNat ∧ tag.toNat ≤ kind.tags.2 := by
  have hlt : tag.toNat < 256 := tag.toNat_lt
  simp only [ofTag, UInt8.le_iff_toNat_le, ← UInt8.toNat_inj, UInt8.reduceToNat]
  split_ifs <;> cases kind <;>
    simp only [tags, Except.ok.injEq, reduceCtorEq, true_iff, false_iff] <;> omega

theorem ofTag_of_reserved {tag : UInt8} (hlow : 128 ≤ tag) (hhigh : tag ≤ 246) :
    ofTag tag = .error (.reservedFrame tag) := by
  simp only [UInt8.le_iff_toNat_le, UInt8.reduceToNat] at hlow hhigh
  simp only [ofTag, UInt8.le_iff_toNat_le, UInt8.reduceToNat]
  rw [if_neg (by omega), if_neg (by omega), if_pos hhigh]

end FrameKind

/-! ## The bytes of a frame -/

theorem VerificationType.consumes :
    Consumes reader (Written encode fun _ => True) := by
  refine Consumes.u8.bind fun tag own htag => ?_
  subst htag
  have hbyte : tag = UInt8.ofNat tag.toNat := UInt8.ofNat_toNat.symm
  split
  case h_8 hseven | h_9 hseven =>
    refine Consumes.u16.map fun index bytes hindex => ⟨?_, trivial⟩
    rw [hbyte, hseven, hindex]
    rfl
  case h_10 => exact .fail
  all_goals
    rename_i htag
    refine Consumes.pure ⟨?_, trivial⟩
    rw [hbyte, htag]
    rfl

namespace Frame

/-- What is read behind a tag is what is written behind it, and the frame has that tag. -/
theorem consumes_body {tag : UInt8} {kind : FrameKind} (h : FrameKind.ofTag tag = .ok kind) :
    Consumes (bodyReader tag kind) fun own frame =>
      own = frame.encodeBody ∧ frame.tag = tag ∧ frame.kind = kind ∧ frame.ListsFit := by
  have htag := FrameKind.ofTag_eq_ok_iff.mp h
  cases kind with
  | same => exact .pure ⟨rfl, rfl, rfl, trivial⟩
  | sameLocals1StackItem =>
    refine VerificationType.consumes.map ?_
    rintro item own ⟨rfl, -⟩
    exact ⟨rfl, rfl, rfl, trivial⟩
  | sameLocals1StackItemExtended =>
    have honly : (247 : UInt8) = tag := UInt8.toNat_inj.mp (Nat.le_antisymm htag.1 htag.2)
    refine Consumes.u16.bind fun offset own hoffset => VerificationType.consumes.map ?_
    rintro item bytes ⟨rfl, -⟩
    subst hoffset
    exact ⟨rfl, honly, rfl, trivial⟩
  | chop =>
    refine Consumes.u16.map fun offset own hoffset => ?_
    exact ⟨hoffset, rfl, rfl, trivial⟩
  | sameExtended =>
    have honly : (251 : UInt8) = tag := UInt8.toNat_inj.mp (Nat.le_antisymm htag.1 htag.2)
    refine Consumes.u16.map fun offset own hoffset => ?_
    exact ⟨hoffset, honly, rfl, trivial⟩
  | append =>
    refine Consumes.u16.bind fun offset own hoffset =>
      (VerificationType.consumes.times_written _).map ?_
    rintro locals bytes ⟨rfl, hcount, -⟩
    subst hoffset
    exact ⟨rfl, rfl, rfl, hcount⟩
  | full =>
    have honly : (255 : UInt8) = tag := UInt8.toNat_inj.mp (Nat.le_antisymm htag.1 htag.2)
    refine Consumes.u16.bind fun offset own hoffset =>
      VerificationType.consumes.table_written.bind fun locals bytes hlocals =>
        VerificationType.consumes.table_written.map ?_
    rintro stack others ⟨rfl, hstack, -⟩
    obtain ⟨rfl, hlocals, -⟩ := hlocals
    subst hoffset
    exact ⟨rfl, honly, rfl, hlocals, hstack⟩

theorem consumes : Consumes reader (Written encode Fits) := by
  refine Consumes.u8.bind fun tag own htag => ?_
  subst htag
  refine Consumes.lift_bind fun kind hkind => (consumes_body hkind).mono ?_
  rintro bytes frame ⟨rfl, rfl, rfl, hlists⟩
  exact ⟨rfl, hkind, hlists⟩

/-! ## What a frame answers -/

/-- The tag announces the layout of the frame, and what the frame answers is what the tag and the
layout say.  A difference is stated as a sum, which says also that it does not fall below zero. -/
structure AgreesWithTag (frame : Frame) : Prop where
  layout : FrameKind.ofTag frame.tag = .ok frame.kind
  appended : frame.kind = .append → frame.locals.length + 251 = frame.tag.toNat
    ∧ 1 ≤ frame.locals.length ∧ frame.locals.length ≤ 3
  chopped : frame.kind = .chop → frame.choppedLocals + frame.tag.toNat = 251
    ∧ 1 ≤ frame.choppedLocals ∧ frame.choppedLocals ≤ 3
  unchopped : frame.kind ≠ .chop → frame.choppedLocals = 0
  offsetFits : frame.offsetDelta < UInt16.size
  offsetInTag : frame.kind = .same → frame.offsetDelta = frame.tag.toNat
  offsetAboveTag : frame.kind = .sameLocals1StackItem → frame.offsetDelta + 64 = frame.tag.toNat
  offsetStored : frame.kind ≠ .same → frame.kind ≠ .sameLocals1StackItem →
    ∃ behind, frame.encode
      = Writer.u8 frame.tag ++ (Writer.u16 (UInt16.ofNat frame.offsetDelta) ++ behind)
  localsListed : frame.locals ≠ [] → frame.kind = .append ∨ frame.kind = .full
  stackListed : frame.stack ≠ [] → frame.kind = .sameLocals1StackItem
    ∨ frame.kind = .sameLocals1StackItemExtended ∨ frame.kind = .full

variable {frame : Frame}

/-- Every layout but the first two stores the offset in the two bytes behind the tag. -/
theorem encodeBody_of_stored (hsame : frame.kind ≠ .same)
    (hitem : frame.kind ≠ .sameLocals1StackItem) :
    ∃ behind, frame.encodeBody = Writer.u16 (UInt16.ofNat frame.offsetDelta) ++ behind := by
  cases frame with
  | same tag => exact absurd rfl hsame
  | sameLocals1StackItem tag item => exact absurd rfl hitem
  | sameLocals1StackItemExtended offset item =>
    refine ⟨item.encode, ?_⟩
    rw [encodeBody, offsetDelta, UInt16.ofNat_toNat]
  | chop tag offset =>
    refine ⟨[], ?_⟩
    rw [encodeBody, offsetDelta, UInt16.ofNat_toNat, List.append_nil]
  | sameExtended offset =>
    refine ⟨[], ?_⟩
    rw [encodeBody, offsetDelta, UInt16.ofNat_toNat, List.append_nil]
  | append tag offset locals =>
    refine ⟨locals.flatMap VerificationType.encode, ?_⟩
    rw [encodeBody, offsetDelta, UInt16.ofNat_toNat]
  | full offset locals stack =>
    refine ⟨Writer.table VerificationType.encode locals
      ++ Writer.table VerificationType.encode stack, ?_⟩
    rw [encodeBody, offsetDelta, UInt16.ofNat_toNat]

theorem offsetDelta_lt (frame : Frame) : frame.offsetDelta < UInt16.size := by
  have hbyte : ∀ tag : UInt8, tag.toNat < UInt16.size := fun tag =>
    Nat.lt_trans tag.toNat_lt (by decide)
  cases frame with
  | same tag => exact hbyte tag
  | sameLocals1StackItem tag item => exact Nat.lt_of_le_of_lt (Nat.sub_le _ _) (hbyte tag)
  | _ => exact UInt16.toNat_lt _

theorem Fits.agreesWithTag (h : frame.Fits) : frame.AgreesWithTag := by
  have htag := FrameKind.ofTag_eq_ok_iff.mp h.layout
  refine ⟨h.layout, ?appended, ?chopped, ?unchopped, frame.offsetDelta_lt, ?offsetInTag,
    ?offsetAboveTag, ?offsetStored, ?localsListed, ?stackListed⟩
  case appended =>
    intro hkind
    cases frame with
    | append tag offset locals =>
      have hcount : locals.length = tag.toNat - 251 := h.lists
      simp only [kind, FrameKind.tags, Frame.tag, Frame.locals] at htag ⊢
      omega
    | _ => cases hkind
  case chopped =>
    intro hkind
    cases frame with
    | chop tag offset =>
      simp only [kind, FrameKind.tags, Frame.tag, choppedLocals] at htag ⊢
      omega
    | _ => cases hkind
  case offsetAboveTag =>
    intro hkind
    cases frame with
    | sameLocals1StackItem tag item =>
      simp only [kind, FrameKind.tags, Frame.tag, offsetDelta] at htag ⊢
      omega
    | _ => cases hkind
  case offsetStored =>
    intro hsame hitem
    obtain ⟨behind, hbehind⟩ := encodeBody_of_stored hsame hitem
    exact ⟨behind, congrArg _ hbehind⟩
  -- the others hold of each layout whatever its tag
  all_goals
    cases frame <;> simp [kind, tag, choppedLocals, offsetDelta, locals, stack]

theorem AgreesWithTag.fits (h : frame.AgreesWithTag) (hlocals : frame.locals.length ≤ 65535)
    (hstack : frame.stack.length ≤ 65535) : frame.Fits := by
  refine ⟨h.layout, ?_⟩
  cases frame with
  | append tag offset locals =>
    have hcount : locals.length + 251 = tag.toNat := (h.appended rfl).1
    show locals.length = tag.toNat - 251
    omega
  | full offset locals stack => exact ⟨Nat.lt_succ_of_le hlocals, Nat.lt_succ_of_le hstack⟩
  | _ => trivial

theorem Fits.lists_le (h : frame.Fits) :
    frame.locals.length ≤ 65535 ∧ frame.stack.length ≤ 65535 := by
  have hlists := h.lists
  cases frame with
  | append tag offset locals =>
    have hcount : locals.length = tag.toNat - 251 := hlists
    have hbyte : tag.toNat < 256 := tag.toNat_lt
    simp only [Frame.locals, stack, List.length_nil]
    omega
  | full offset locals stack => exact ⟨Nat.le_of_lt_succ hlists.1, Nat.le_of_lt_succ hlists.2⟩
  | _ => simp [locals, stack]

/-- A frame that is read was written as the bytes in front and agrees with its tag.  Such a frame
is read back, whatever follows it.  A reserved tag is refused, whatever follows it. -/
theorem reader_agrees_with_tag :
    (∀ input frame left, reader input = .ok (frame, left) →
      input = ⟨frame.encode ++ left.bytes, left.ending⟩ ∧ input.bytes.head? = some frame.tag
        ∧ frame.AgreesWithTag
        ∧ frame.locals.length ≤ 65535 ∧ frame.stack.length ≤ 65535) ∧
    (∀ frame : Frame, frame.AgreesWithTag → frame.locals.length ≤ 65535 →
      frame.stack.length ≤ 65535 → ∀ rest ending,
        reader ⟨frame.encode ++ rest, ending⟩ = .ok (frame, ⟨rest, ending⟩)) ∧
    (∀ (tag : UInt8) rest ending, 128 ≤ tag → tag ≤ 246 →
      reader ⟨tag :: rest, ending⟩ = .error (.reservedFrame tag)) := by
  refine ⟨?_, ?_, ?_⟩
  · intro input frame left h
    obtain ⟨own, hinput, rfl, hfits⟩ := consumes input frame left h
    refine ⟨hinput, ?_, hfits.agreesWithTag, hfits.lists_le⟩
    rw [hinput, encode, Writer.u8_eq_singleton]
    rfl
  · intro frame h hlocals hstack rest ending
    exact reads (h.fits hlocals hstack) rest ending
  · intro tag rest ending hlow hhigh
    have htag := Reads.u8 tag rest ending
    rw [Writer.u8_eq_singleton] at htag
    refine (Reader.bind_of_ok htag).trans (Reader.bind_of_error ?_)
    rw [FrameKind.ofTag_of_reserved hlow hhigh]
    rfl

/-- A frame that appends two locals, before two more bytes, and a reserved tag. -/
theorem reader_agrees_with_tag_append :
    reader ⟨[253, 0, 7, 1, 7, 0, 9, 5, 5], .finished⟩
        = .ok (append 253 7 [.integer, .object 9], ⟨[5, 5], .finished⟩)
      ∧ [253, 0, 7, 1, 7, 0, 9, 5, 5] = (append 253 7 [.integer, .object 9]).encode ++ [5, 5]
      ∧ reader ⟨[200, 1], .finished⟩ = .error (.reservedFrame 200) := by
  have hagrees : (append 253 7 [.integer, .object 9]).AgreesWithTag :=
    Fits.agreesWithTag ⟨rfl, rfl⟩
  have hread := reader_agrees_with_tag.2.1 _ hagrees (by decide) (by decide) [5, 5] .finished
  obtain ⟨hinput, -⟩ := reader_agrees_with_tag.1 _ _ _ hread
  exact ⟨hread, congrArg Input.bytes hinput,
    reader_agrees_with_tag.2.2 200 [1] .finished (by decide) (by decide)⟩

end Frame

end ClassFormat
