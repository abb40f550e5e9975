/-
# ClassFormat.Reader: reading a binary layout from front to back

A reader takes items off the front of an `Input` and never looks further than it consumes.  The
input knows what lies behind its last byte: either nothing, so that a read past the end means a
truncated file, or a source that fails.  All multi-byte numbers are big-endian.
-/
import ClassFormat.Error

namespace ClassFormat

/-! ## Inputs -/

/-- What a read finds behind the last byte. -/
inductive Ending where
  /-- The input ends there. -/
  | finished
  /-- The source fails there. -/
  | broken (reason : String)
  deriving DecidableEq

/-- The bytes still to be read and what lies behind them. -/
structure Input where
  bytes : List UInt8
  ending : Ending := .finished
  deriving DecidableEq

/-- A computation that consumes a front part of the input or fails. -/
abbrev Reader (α : Type) := StateT Input (Except Error) α

/-! ## Bytes -/

/-- The big-endian value of a byte string. -/
def bigEndian (bytes : List UInt8) : Nat :=
  bytes.foldl (fun value byte => value * 256 + byte.toNat) 0

/-- The two's complement value of a big-endian byte string. -/
def bigEndianSigned (bytes : List UInt8) : Int :=
  Int.bmod (bigEndian bytes) (Nat.pow 256 bytes.length)

/-- The first `n` elements and the rest, if there are that many. -/
def splitExact {α : Type} : Nat → List α → Option (List α × List α)
  | 0, xs => some ([], xs)
  | _ + 1, [] => none
  | n + 1, x :: xs => (splitExact n xs).map fun (front, rest) => (x :: front, rest)

theorem splitExact_eq_some_iff {α : Type} {n : Nat} {xs front rest : List α} :
    splitExact n xs = some (front, rest) ↔ xs = front ++ rest ∧ front.length = n := by
  induction n generalizing xs front with
  | zero => cases front <;> simp [splitExact, eq_comm]
  | succ n ih =>
    cases xs with
    | nil =>
      simp only [splitExact, reduceCtorEq, false_iff]
      rintro ⟨h, hn⟩
      obtain ⟨rfl, -⟩ := List.append_eq_nil_iff.1 h.symm
      simp at hn
    | cons x xs =>
      cases front with
      | nil => simp [splitExact]
      | cons y front =>
        simp only [splitExact, Option.map_eq_some_iff, Prod.exists, Prod.mk.injEq, List.cons.injEq,
          List.cons_append, List.length_cons]
        constructor
        · rintro ⟨f, r, h, ⟨rfl, rfl⟩, rfl⟩
          obtain ⟨rfl, rfl⟩ := ih.1 h
          simp
        · rintro ⟨⟨rfl, h⟩, hn⟩
          exact ⟨front, rest, ih.2 ⟨h, by omega⟩, ⟨rfl, rfl⟩, rfl⟩

/-! ## Readers -/

/-- The error of a fixed-size read that needs a byte behind the end. -/
def Ending.shortfall : Ending → Error
  | finished => .malformed .endOfInput
  | broken reason => .unreadable reason

/-- The error of a read of `expected` bytes where only `found` are left. -/
def Ending.missing (expected found : Nat) : Ending → Error
  | finished => .malformed (.missingBytes expected found)
  | broken reason => .unreadable reason

namespace Reader

variable {α : Type}

/-- Fails with the given cause. -/
def fail (cause : Error) : Reader α := fun _ => .error cause

/-- The result of a check or look-up that needs no input. -/
def lift (result : Except Error α) : Reader α := fun input =>
  result.map fun value => (value, input)

/-- Fails as a read at the end of the input does. -/
def exhausted : Reader α := fun input => .error input.ending.shortfall

/-- Exactly `size` bytes of a fixed-size item. -/
def item (size : Nat) : Reader (List UInt8) := fun input =>
  match splitExact size input.bytes with
  | some (front, rest) => .ok (front, { input with bytes := rest })
  | none => .error input.ending.shortfall

/-- Exactly `count` bytes of a run whose length the input declares. -/
def run (count : Nat) : Reader (List UInt8) := fun input =>
  match splitExact count input.bytes with
  | some (front, rest) => .ok (front, { input with bytes := rest })
  | none => .error (input.ending.missing count input.bytes.length)

/-- Everything up to the end of the input, which a failing source never reaches. -/
def toEnd : Reader (List UInt8) := fun input =>
  match input.ending with
  | .finished => .ok (input.bytes, { input with bytes := [] })
  | .broken reason => .error (.unreadable reason)

def u8 : Reader UInt8 := do return UInt8.ofNat (bigEndian (← item 1))

def u16 : Reader UInt16 := do return UInt16.ofNat (bigEndian (← item 2))

def u32 : Reader UInt32 := do return UInt32.ofNat (bigEndian (← item 4))

def u64 : Reader UInt64 := do return UInt64.ofNat (bigEndian (← item 8))

def i32 : Reader Int32 := do return (← u32).toInt32

def i64 : Reader Int64 := do return (← u64).toInt64

/-- The item `count` times over, in order. -/
def times (count : Nat) (item : Reader α) : Reader (List α) :=
  match count with
  | 0 => pure []
  | count + 1 => do
    let first ← item
    let others ← times count item
    return first :: others

/-- A table whose entries follow their two-byte number. -/
def table (item : Reader α) : Reader (List α) := do
  times (← u16).toNat item

/-- A table whose entries follow their one-byte number. -/
def shortTable (item : Reader α) : Reader (List α) := do
  times (← u8).toNat item

/-- A pool index that stands for nothing when it is zero. -/
def optionalIndex : Reader (Option PoolIndex) := do
  let index ← u16
  return if index = 0 then none else some index

end Reader

end ClassFormat
