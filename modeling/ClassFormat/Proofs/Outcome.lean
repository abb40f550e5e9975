/-
# ClassFormat.Proofs.Outcome: what a result that is there says

Look-ups, checks and readers can fail.  Most of what is known about a value is known because they
did not: a composite computation that gives a value has gone through all of its parts.
`Reader.Ensures` says that about readers, part by part.
-/
import ClassFormat.Reader

namespace ClassFormat

/-! ## Results -/

/-- A value comes out of two computations in a row only if it comes out of both. -/
theorem bind_eq_ok_iff {ε α β : Type} {first : Except ε α} {next : α → Except ε β} {b : β} :
    (first >>= next) = .ok b ↔ ∃ a, first = .ok a ∧ next a = .ok b := by
  constructor
  · intro h
    cases first with
    | error cause => cases h
    | ok a => exact ⟨a, rfl, h⟩
  · rintro ⟨a, rfl, h⟩
    exact h

theorem map_eq_ok_iff {ε α β : Type} {result : Except ε α} {f : α → β} {b : β} :
    result.map f = .ok b ↔ ∃ a, result = .ok a ∧ f a = b := by
  constructor
  · intro h
    cases result with
    | error cause => cases h
    | ok a => exact ⟨a, rfl, Except.ok.inj h⟩
  · rintro ⟨a, rfl, rfl⟩
    rfl

theorem map_eq_error_iff {α β : Type} {result : Except Error α} {f : α → β} {cause : Error} :
    result.map f = .error cause ↔ result = .error cause := by
  cases result <;> simp [Except.map]

/-! ## Readers -/

section Bind

variable {α β : Type} {reader : Reader α} {next : α → Reader β}

theorem Reader.bind_apply (input : Input) :
    (reader >>= next) input = reader input >>= fun (value, left) => next value left := rfl

theorem Reader.bind_of_ok {input left : Input} {value : α} (h : reader input = .ok (value, left)) :
    (reader >>= next) input = next value left := by
  rw [Reader.bind_apply, h]
  rfl

theorem Reader.bind_of_error {input : Input} {cause : Error} (h : reader input = .error cause) :
    (reader >>= next) input = .error cause := by
  rw [Reader.bind_apply, h]
  rfl

end Bind

/-- The reader splits `size` bytes off the front, and fails with `short` if there are fewer. -/
def Reader.TakesFront (reader : Reader (List UInt8)) (size : Nat) (short : Input → Error) : Prop :=
  ∀ input, reader input = match splitExact size input.bytes with
    | some (front, rest) => .ok (front, { input with bytes := rest })
    | none => .error (short input)

theorem Reader.takesFront_item (size : Nat) :
    TakesFront (item size) size fun input => input.ending.shortfall := fun _ => rfl

theorem Reader.takesFront_run (count : Nat) :
    TakesFront (run count) count fun input => input.ending.missing count input.bytes.length :=
  fun _ => rfl

/-- Every value that the reader gives, from whatever input, has the property. -/
def Reader.Ensures {α : Type} (reader : Reader α) (property : α → Prop) : Prop :=
  ∀ input value left, reader input = .ok (value, left) → property value

namespace Reader.Ensures

variable {α β : Type} {reader : Reader α} {property : α → Prop} {after : β → Prop}

theorem trivial : Ensures reader fun _ => True := fun _ _ _ _ => True.intro

theorem pure {value : α} (h : property value) : Ensures (Pure.pure value) property := by
  intro input found left hfound
  cases hfound
  exact h

theorem exhausted : Ensures Reader.exhausted property := by
  intro input value left h
  cases h

theorem bind {next : α → Reader β} (h : Ensures reader property)
    (hnext : ∀ value, property value → Ensures (next value) after) :
    Ensures (reader >>= next) after := by
  intro input result left hresult
  obtain ⟨⟨value, between⟩, hvalue, hafter⟩ := bind_eq_ok_iff.mp hresult
  exact hnext value (h input value between hvalue) between result left hafter

/-- A first part of which nothing has to be known. -/
theorem skip {next : α → Reader β} (h : ∀ value, Ensures (next value) after) :
    Ensures (reader >>= next) after :=
  trivial.bind fun value _ => h value

theorem lift {result : Except Error α} (h : ∀ value, result = .ok value → property value) :
    Ensures (Reader.lift result) property := by
  intro input value left hvalue
  obtain ⟨found, hfound, heq⟩ := map_eq_ok_iff.mp hvalue
  cases heq
  exact h value hfound

theorem mono (h : Ensures reader property) {weaker : α → Prop}
    (hweaker : ∀ value, property value → weaker value) : Ensures reader weaker :=
  fun input value left hvalue => hweaker value (h input value left hvalue)

/-- Every entry of a repeated item has what one item has. -/
theorem times (h : Ensures reader property) (count : Nat) :
    Ensures (Reader.times count reader) fun values => ∀ value ∈ values, property value := by
  induction count with
  | zero => exact pure fun value hvalue => absurd hvalue List.not_mem_nil
  | succ count ih =>
    refine h.bind fun first hfirst => ih.bind fun others hothers => pure ?_
    exact List.forall_mem_cons.mpr ⟨hfirst, hothers⟩

theorem table (h : Ensures reader property) :
    Ensures (Reader.table reader) fun values => ∀ value ∈ values, property value :=
  skip fun count => h.times count.toNat

end Reader.Ensures

/-! ## Failures -/

/-- Every failure of the reader, on whatever input, is one of those allowed. -/
def Reader.FailsOnly {α : Type} (reader : Reader α) (allowed : Error → Prop) : Prop :=
  ∀ input cause, reader input = .error cause → allowed cause

namespace Reader.FailsOnly

variable {α β : Type} {reader : Reader α} {allowed : Error → Prop}

theorem pure (value : α) : FailsOnly (Pure.pure value) allowed := fun _ _ h => nomatch h

theorem bind {next : α → Reader β} (h : FailsOnly reader allowed)
    (hnext : ∀ value, FailsOnly (next value) allowed) : FailsOnly (reader >>= next) allowed := by
  intro input cause hcause
  cases hfirst : reader input with
  | error first =>
    rw [bind_of_error hfirst] at hcause
    cases hcause
    exact h input cause hfirst
  | ok found =>
    rw [bind_of_ok hfirst] at hcause
    exact hnext found.1 found.2 cause hcause

theorem map {f : α → β} (h : FailsOnly reader allowed) :
    FailsOnly (do return f (← reader)) allowed :=
  h.bind fun value => pure (f value)

theorem lift {result : Except Error α} (h : ∀ cause, result = .error cause → allowed cause) :
    FailsOnly (Reader.lift result) allowed := fun _ cause hcause =>
  h cause (map_eq_error_iff.mp hcause)

theorem front {reader : Reader (List UInt8)} {size : Nat} {short : Input → Error}
    (h : TakesFront reader size short) (hshort : ∀ input, allowed (short input)) :
    FailsOnly reader allowed := by
  intro input cause hread
  rw [h] at hread
  split at hread
  · cases hread
  · cases hread
    exact hshort input

end Reader.FailsOnly

end ClassFormat
