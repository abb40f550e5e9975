/-
# ClassFormat.Proofs.Layout.Sequential: readers that go from front to back

A sequential reader asks for one byte after the other and never looks behind what it takes.  So
there are three things it can make of the bytes at the front of an input.  It reads a value off
them, and what follows does not matter.  It refuses them, and what follows does not matter either.
Or it uses them up and needs more; then it reports how the input ends.

These three answers compose along a layout.  That no shorter input is accepted, and that a longer
one is accepted with the same value, follows from them and needs no separate argument per layout.

Readers of nested values bound the depth by the bytes that are left.  `Reader.Nested` says what one
level of such a reader has to keep so that the bound never shows.
-/
import ClassFormat.Proofs.Layout.Consumes
import Mathlib.Logic.Function.Iterate

namespace ClassFormat

/-- The error tells that the input was over: a defect where it ends, the reason where it breaks
off. -/
inductive Ending.Explains : Ending → Error → Prop
  | finished (defect : Defect) : Explains .finished (.malformed defect)
  | broken (reason : String) : Explains (.broken reason) (.unreadable reason)

theorem Ending.explains_shortfall (ending : Ending) : ending.Explains ending.shortfall := by
  cases ending with
  | finished => exact .finished _
  | broken reason => exact .broken reason

theorem Ending.explains_missing (ending : Ending) (expected found : Nat) :
    ending.Explains (ending.missing expected found) := by
  cases ending with
  | finished => exact .finished _
  | broken reason => exact .broken reason

namespace Reader

variable {α β : Type} {reader : Reader α} {next : α → Reader β}

/-! ## The three answers -/

/-- What a reader makes of the bytes at the front of an input. -/
inductive Answers (reader : Reader α) (bytes : List UInt8) : Prop
  /-- A value stands in front, whatever follows it. -/
  | reads {own rest : List UInt8} (value : α) (hbytes : bytes = own ++ rest)
      (h : Reads reader own value)
  /-- The bytes are refused, whatever follows them. -/
  | refuses (cause : Error)
      (h : ∀ rest ending, reader ⟨bytes ++ rest, ending⟩ = .error cause)
  /-- The bytes are not enough, and the error tells how the input ends. -/
  | starves (h : ∀ ending, ∃ cause,
      reader ⟨bytes, ending⟩ = .error cause ∧ ending.Explains cause)

/-- The reader gives one of the three answers to all bytes. -/
def Sequential (reader : Reader α) : Prop := ∀ bytes, Answers reader bytes

namespace Sequential

theorem pure (value : α) : Sequential (Pure.pure value : Reader α) := fun _ =>
  .reads value (List.nil_append _).symm (Reads.pure value)

theorem fail (cause : Error) : Sequential (Reader.fail cause : Reader α) := fun _ =>
  .refuses cause fun _ _ => rfl

theorem exhausted : Sequential (Reader.exhausted : Reader α) := fun _ =>
  .starves fun ending => ⟨_, rfl, ending.explains_shortfall⟩

theorem lift (result : Except Error α) : Sequential (Reader.lift result) := by
  intro bytes
  cases result with
  | ok value => exact .reads value (List.nil_append bytes).symm (Reads.lift rfl)
  | error cause => exact .refuses cause fun _ _ => rfl

theorem front {reader : Reader (List UInt8)} {size : Nat} {short : Input → Error}
    (h : TakesFront reader size short)
    (hshort : ∀ input : Input, input.ending.Explains (short input)) : Sequential reader := by
  intro bytes
  cases hsplit : splitExact size bytes with
  | some parts =>
    obtain ⟨own, rest⟩ := parts
    obtain ⟨hbytes, hlength⟩ := splitExact_eq_some_iff.mp hsplit
    refine .reads own hbytes fun more ending => ?_
    have hmore : splitExact size (own ++ more) = some (own, more) :=
      splitExact_eq_some_iff.mpr ⟨rfl, hlength⟩
    simp only [h ⟨own ++ more, ending⟩, hmore]
  | none =>
    refine .starves fun ending => ⟨short ⟨bytes, ending⟩, ?_, hshort ⟨bytes, ending⟩⟩
    simp only [h ⟨bytes, ending⟩, hsplit]

theorem item (size : Nat) : Sequential (Reader.item size) :=
  front (takesFront_item size) fun input => input.ending.explains_shortfall

theorem run (count : Nat) : Sequential (Reader.run count) :=
  front (takesFront_run count) fun input => input.ending.explains_missing _ _

/-- The second reader answers for the bytes that the first has left. -/
theorem bind (h : Sequential reader) (hnext : ∀ value, Sequential (next value)) :
    Sequential (reader >>= next) := by
  intro bytes
  cases h bytes with
  | @reads own rest value hbytes hreads =>
    subst hbytes
    cases hnext value rest with
    | @reads others behind result hrest hothers =>
      subst hrest
      exact .reads result (List.append_assoc own others behind).symm (hreads.bind hothers)
    | refuses cause hrefuses =>
      refine .refuses cause fun more ending => ?_
      rw [List.append_assoc, bind_of_ok (hreads (rest ++ more) ending)]
      exact hrefuses more ending
    | starves hstarves =>
      refine .starves fun ending => ?_
      rw [bind_of_ok (hreads rest ending)]
      exact hstarves ending
  | refuses cause hrefuses =>
    exact .refuses cause fun more ending => bind_of_error (hrefuses more ending)
  | starves hstarves =>
    refine .starves fun ending => ?_
    obtain ⟨cause, hcause, hexplains⟩ := hstarves ending
    exact ⟨cause, bind_of_error hcause, hexplains⟩

theorem map {f : α → β} (h : Sequential reader) : Sequential (do return f (← reader)) :=
  h.bind fun value => pure (f value)

theorem u8 : Sequential Reader.u8 := (item 1).map

theorem u16 : Sequential Reader.u16 := (item 2).map

theorem u32 : Sequential Reader.u32 := (item 4).map

theorem u64 : Sequential Reader.u64 := (item 8).map

theorem i32 : Sequential Reader.i32 := u32.map

theorem i64 : Sequential Reader.i64 := u64.map

theorem optionalIndex : Sequential Reader.optionalIndex := u16.map

theorem times (h : Sequential reader) (count : Nat) : Sequential (Reader.times count reader) := by
  induction count with
  | zero => exact pure []
  | succ count ih => exact h.bind fun _ => ih.map

theorem table (h : Sequential reader) : Sequential (Reader.table reader) :=
  u16.bind fun count => h.times count.toNat

theorem shortTable (h : Sequential reader) : Sequential (Reader.shortTable reader) :=
  u8.bind fun count => h.times count.toNat

/-! ## What follows from the answers -/

/-- A value that is given stands in front of what is left, and is read whatever follows it. -/
theorem consumes (h : Sequential reader) : Consumes reader (Reads reader) := by
  intro input value left hok
  obtain ⟨bytes, ending⟩ := input
  cases h bytes with
  | @reads own rest found hbytes hreads =>
    subst hbytes
    rw [hreads rest ending] at hok
    cases hok
    exact ⟨own, rfl, hreads⟩
  | refuses cause hrefuses =>
    have hrefused := hrefuses [] ending
    rw [List.append_nil, hok] at hrefused
    cases hrefused
  | starves hstarves =>
    obtain ⟨cause, hcause, -⟩ := hstarves ending
    rw [hok] at hcause
    cases hcause

/-- Bytes with which a reader fails alike, whether the input ends or breaks off, are refused
whatever follows them: bytes that are not enough would tell the two apart. -/
theorem refuses_of_error (h : Sequential reader) {bytes : List UInt8} {cause : Error}
    (herror : ∀ ending, reader ⟨bytes, ending⟩ = .error cause) (rest : List UInt8)
    (ending : Ending) : reader ⟨bytes ++ rest, ending⟩ = .error cause := by
  cases h bytes with
  | @reads own behind value hbytes hreads =>
    subst hbytes
    have hok := hreads behind .finished
    rw [herror .finished] at hok
    cases hok
  | refuses cause hrefuses =>
    have hsame := hrefuses [] .finished
    rw [List.append_nil, herror .finished] at hsame
    cases hsame
    exact hrefuses rest ending
  | starves hstarves =>
    obtain ⟨first, hfirst, hends⟩ := hstarves .finished
    obtain ⟨second, hsecond, hbreaks⟩ := hstarves (.broken "")
    rw [herror] at hfirst hsecond
    cases hfirst
    cases hsecond
    cases hends
    cases hbreaks

/-- A front of the bytes of a value, short of all of them, is not enough. -/
theorem starves_of_lt (h : Sequential reader) {own : List UInt8} {value : α}
    (hreads : Reads reader own value) {n : Nat} (hn : n < own.length) (ending : Ending) :
    ∃ cause, reader ⟨own.take n, ending⟩ = .error cause ∧ ending.Explains cause := by
  have hown : own = own.take n ++ own.drop n := (List.take_append_drop n own).symm
  have hwhole := hreads [] ending
  cases h (own.take n) with
  | @reads front rest found hfront hfound =>
    -- A value that stands in the front alone would leave bytes of the whole over.
    have hshorter : own = front ++ (rest ++ own.drop n) := by
      rw [← List.append_assoc, ← hfront]
      exact hown
    have hdrop : 0 < (own.drop n).length := by
      rw [List.length_drop]
      omega
    rw [List.append_nil, hshorter, hfound (rest ++ own.drop n) ending] at hwhole
    injection hwhole with hpair
    have hleft : rest ++ own.drop n = [] := congrArg (fun pair => pair.2.bytes) hpair
    have hempty : own.drop n = [] := (List.append_eq_nil_iff.mp hleft).2
    rw [hempty] at hdrop
    exact absurd hdrop (Nat.lt_irrefl 0)
  | refuses cause hrefuses =>
    have hrefused := hrefuses (own.drop n) ending
    rw [← hown] at hrefused
    rw [List.append_nil, hrefused] at hwhole
    cases hwhole
  | starves hstarves => exact hstarves ending

end Sequential

/-! ## Readers that agree on short inputs -/

/-- Two readers do the same with inputs of at most `size` bytes, and leave no more than that. -/
def AgreeUpTo (size : Nat) (reader other : Reader α) : Prop :=
  ∀ input, input.bytes.length ≤ size → reader input = other input ∧
    ∀ value left, reader input = .ok (value, left) → left.bytes.length ≤ size

/-- Readers that go on alike with what the first one leaves do the same with the whole input. -/
theorem bind_congr_of_ok {other : α → Reader β} {input : Input}
    (h : ∀ value left, reader input = .ok (value, left) → next value left = other value left) :
    (reader >>= next) input = (reader >>= other) input := by
  cases hresult : reader input with
  | error cause => rw [bind_of_error hresult, bind_of_error hresult]
  | ok found =>
    obtain ⟨value, left⟩ := found
    rw [bind_of_ok hresult, bind_of_ok hresult]
    exact h value left hresult

theorem Sequential.agreeUpTo (h : Sequential reader) (size : Nat) :
    AgreeUpTo size reader reader := by
  intro input hsize
  refine ⟨rfl, fun value left hok => ?_⟩
  obtain ⟨own, hinput, -⟩ := h.consumes input value left hok
  rw [hinput, List.length_append] at hsize
  omega

namespace AgreeUpTo

variable {size : Nat} {other : Reader α} {otherNext : α → Reader β}

theorem bind (h : AgreeUpTo size reader other)
    (hnext : ∀ value, AgreeUpTo size (next value) (otherNext value)) :
    AgreeUpTo size (reader >>= next) (other >>= otherNext) := by
  intro input hsize
  obtain ⟨hsame, hleft⟩ := h input hsize
  constructor
  · rw [bind_apply, bind_apply, ← hsame]
    exact bind_congr_of_ok fun value left hok => (hnext value left (hleft value left hok)).1
  · intro result rest hresult
    obtain ⟨⟨value, left⟩, hok, hrest⟩ := bind_eq_ok_iff.mp hresult
    exact (hnext value left (hleft value left hok)).2 result rest hrest

theorem map {f : α → β} (h : AgreeUpTo size reader other) :
    AgreeUpTo size (do return f (← reader)) (do return f (← other)) :=
  h.bind fun value => (Sequential.pure (f value)).agreeUpTo size

theorem times (h : AgreeUpTo size reader other) (count : Nat) :
    AgreeUpTo size (Reader.times count reader) (Reader.times count other) := by
  induction count with
  | zero => exact (Sequential.pure []).agreeUpTo size
  | succ count ih => exact h.bind fun first => ih.map

theorem table (h : AgreeUpTo size reader other) :
    AgreeUpTo size (Reader.table reader) (Reader.table other) :=
  (Sequential.u16.agreeUpTo size).bind fun count => h.times count.toNat

end AgreeUpTo

/-! ## Nested values -/

/-- Readers of a nested value with a bound on its depth.  `step` reads one level, given a reader for
the values inside it, which stand behind at least one byte of their own. -/
structure Nested (within : Nat → Reader α) (step : Reader α → Reader α) : Prop where
  zero : within 0 = exhausted
  succ : ∀ bound, within (bound + 1) = step (within bound)
  empty : ∀ inner ending, step inner ⟨[], ending⟩ = .error ending.shortfall
  agree : ∀ {size inner other}, AgreeUpTo size inner other →
    AgreeUpTo (size + 1) (step inner) (step other)

/-- The bound is the number of bytes that are left. -/
def tied (within : Nat → Reader α) : Reader α := fun input => within input.bytes.length input

namespace Nested

variable {within : Nat → Reader α} {step : Reader α → Reader α}

theorem within_empty (h : Nested within step) (bound : Nat) (ending : Ending) :
    within bound ⟨[], ending⟩ = .error ending.shortfall := by
  cases bound with
  | zero =>
    rw [h.zero]
    rfl
  | succ bound => rw [h.succ, h.empty]

/-- Bounds that an input does not reach make no difference. -/
theorem agreeUpTo (h : Nested within step) (size : Nat) :
    ∀ {bound other : Nat}, size ≤ bound → size ≤ other →
      AgreeUpTo size (within bound) (within other) := by
  induction size with
  | zero =>
    intro bound other _ _ input hsize
    obtain ⟨bytes, ending⟩ := input
    obtain rfl : bytes = [] := List.length_eq_zero_iff.mp (Nat.le_zero.mp hsize)
    rw [h.within_empty bound ending, h.within_empty other ending]
    exact ⟨rfl, fun value left hok => nomatch hok⟩
  | succ size ih =>
    intro bound other hbound hother
    obtain ⟨bound, rfl⟩ : ∃ smaller, bound = smaller + 1 := ⟨bound - 1, by omega⟩
    obtain ⟨other, rfl⟩ : ∃ smaller, other = smaller + 1 := ⟨other - 1, by omega⟩
    rw [h.succ, h.succ]
    exact h.agree (ih (by omega) (by omega))

theorem within_eq_tied (h : Nested within step) {bound : Nat} {input : Input}
    (hbound : input.bytes.length ≤ bound) : within bound input = tied within input :=
  (h.agreeUpTo input.bytes.length hbound (Nat.le_refl _) input (Nat.le_refl _)).1

theorem agreeUpTo_tied (h : Nested within step) (size : Nat) :
    AgreeUpTo size (within size) (tied within) := fun input hsize =>
  ⟨h.within_eq_tied hsize,
    (h.agreeUpTo size (Nat.le_refl size) (Nat.le_refl size) input hsize).2⟩

/-- The bound never shows: the values inside are read as the value itself is. -/
theorem tied_eq (h : Nested within step) : tied within = step (tied within) := by
  funext input
  obtain ⟨bytes, ending⟩ := input
  cases bytes with
  | nil => rw [tied, h.within_empty, h.empty]
  | cons byte bytes =>
    show within (bytes.length + 1) ⟨byte :: bytes, ending⟩ = _
    rw [h.succ]
    exact (h.agree (h.agreeUpTo_tied bytes.length) ⟨byte :: bytes, ending⟩ (Nat.le_refl _)).1

theorem sequential_within (h : Nested within step)
    (hstep : ∀ {inner}, Sequential inner → Sequential (step inner)) (bound : Nat) :
    Sequential (within bound) := by
  induction bound with
  | zero =>
    rw [h.zero]
    exact Sequential.exhausted
  | succ bound ih =>
    rw [h.succ]
    exact hstep ih

/-- What is done with an input is what any larger bound does with it, so the longer inputs that an
answer speaks of are looked at under a bound for both. -/
theorem sequential (h : Nested within step)
    (hstep : ∀ {inner}, Sequential inner → Sequential (step inner)) : Sequential (tied within) := by
  have hwithin : ∀ bound, Sequential (within bound) := h.sequential_within hstep
  intro bytes
  cases hwithin bytes.length bytes with
  | @reads own rest value hbytes hreads =>
    subst hbytes
    refine .reads value rfl fun more ending => ?_
    have hok : within (own.length + rest.length + more.length) ⟨own ++ rest, ending⟩
        = .ok (value, ⟨rest, ending⟩) := by
      rw [h.within_eq_tied (by simp), ← hreads rest ending]
      rfl
    obtain ⟨front, hfront, hmore⟩ := (hwithin _).consumes _ _ _ hok
    have hown : own = front := by simpa using hfront
    subst hown
    rw [← hmore more ending]
    exact (h.within_eq_tied (by simp)).symm
  | refuses cause hrefuses =>
    refine .refuses cause fun more ending => ?_
    have herror : ∀ ending, within (bytes.length + more.length) ⟨bytes, ending⟩ = .error cause := by
      intro ending
      have hrefused := hrefuses [] ending
      rw [List.append_nil] at hrefused
      rw [h.within_eq_tied (by simp), ← hrefused]
      rfl
    rw [← (hwithin _).refuses_of_error herror more ending]
    exact (h.within_eq_tied (by simp)).symm
  | starves hstarves => exact .starves hstarves

/-! ### How many levels are needed -/

theorem agreeUpTo_iterate (h : Nested within step) (inner : Reader α) (size : Nat) :
    AgreeUpTo size (step^[size + 1] inner) (within size) := by
  induction size with
  | zero =>
    intro input hsize
    obtain ⟨bytes, ending⟩ := input
    obtain rfl : bytes = [] := List.length_eq_zero_iff.mp (Nat.le_zero.mp hsize)
    have hempty : step^[1] inner ⟨[], ending⟩ = .error ending.shortfall := h.empty inner ending
    rw [hempty, h.within_empty]
    exact ⟨rfl, fun value left hok => nomatch hok⟩
  | succ size ih =>
    rw [Function.iterate_succ_apply', h.succ]
    exact h.agree ih

/-- A level for each byte and one more are enough, whatever is put in place of the levels below:
the last of them has no byte left to look at. -/
theorem iterate_eq_tied (h : Nested within step) (inner : Reader α) (input : Input) :
    step^[input.bytes.length + 1] inner input = tied within input :=
  (h.agreeUpTo_iterate inner input.bytes.length input (Nat.le_refl _)).1

theorem sequential_iterate (hstep : ∀ {inner}, Sequential inner → Sequential (step inner))
    {inner : Reader α} (hinner : Sequential inner) (levels : Nat) :
    Sequential (step^[levels] inner) := by
  induction levels with
  | zero => exact hinner
  | succ levels ih =>
    rw [Function.iterate_succ_apply']
    exact hstep ih

/-- The bytes of a value bound the levels that it takes to read it, whatever follows them. -/
theorem reads_iterate (h : Nested within step)
    (hstep : ∀ {inner}, Sequential inner → Sequential (step inner)) {inner : Reader α}
    (hinner : Sequential inner) {own : List UInt8} {value : α}
    (hreads : Reads (tied within) own value) : Reads (step^[own.length + 1] inner) own value := by
  have hok : step^[own.length + 1] inner ⟨own, .finished⟩ = .ok (value, ⟨[], .finished⟩) := by
    rw [← hreads [] .finished, List.append_nil]
    exact h.iterate_eq_tied inner ⟨own, .finished⟩
  obtain ⟨front, hfront, hvalue⟩ := (sequential_iterate hstep hinner _).consumes _ _ _ hok
  have hown : own = front := by simpa using hfront
  rwa [← hown] at hvalue

/-- So do bytes that are refused. -/
theorem refuses_iterate (h : Nested within step)
    (hstep : ∀ {inner}, Sequential inner → Sequential (step inner)) {inner : Reader α}
    (hinner : Sequential inner) {own : List UInt8} {cause : Error}
    (hrefuses : ∀ rest ending, tied within ⟨own ++ rest, ending⟩ = .error cause)
    (rest : List UInt8) (ending : Ending) :
    step^[own.length + 1] inner ⟨own ++ rest, ending⟩ = .error cause := by
  apply (sequential_iterate hstep hinner _).refuses_of_error
  intro ending'
  rw [← hrefuses [] ending', List.append_nil]
  exact h.iterate_eq_tied inner ⟨own, ending'⟩

end Nested

end Reader

end ClassFormat
