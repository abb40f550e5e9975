/-
# ClassFormat.SlotTable: sequences numbered by slot

Elements of a slot table have a width, and an element is numbered by the widths that come before
it, not by how many elements do.  The constant pool is numbered so (eight-byte constants take two
indices), and so are local variables.  A number that falls inside a wide element finds nothing.

A table carries that its offsets are these sums, so they never decrease from one element to the next
and a look-up can bisect.
-/

namespace ClassFormat

/-- Elements that take some number of slots. -/
class HasWidth (α : Type) where
  width : α → Nat

namespace SlotTable

variable {α : Type} [HasWidth α]

/-- Elements with their offsets that take the slots from `start` to `stop` one after the other. -/
def TakeSlots (start : Nat) : List (Nat × α) → (stop : Nat) → Prop
  | [], stop => start = stop
  | (offset, element) :: others, stop =>
    offset = start ∧ TakeSlots (start + HasWidth.width element) others stop

/-- One more element takes the slots behind the others. -/
theorem TakeSlots.concat {start stop : Nat} {entries : List (Nat × α)}
    (h : TakeSlots start entries stop) (element : α) :
    TakeSlots start (entries ++ [(stop, element)]) (stop + HasWidth.width element) := by
  induction entries generalizing start with
  | nil =>
    obtain rfl : start = stop := h
    exact ⟨rfl, rfl⟩
  | cons entry entries ih => exact ⟨h.1, ih h.2⟩

end SlotTable

/-- Elements with the offset each one starts at, and the offset of the next one to be added. -/
structure SlotTable (α : Type) [HasWidth α] where
  entries : Array (Nat × α)
  next : Nat
  /-- An element starts where the one before it ends, and the next one will where the last does. -/
  filled : ∃ start, SlotTable.TakeSlots start entries.toList next

/-- What a look-up by offset finds. -/
inductive SlotLookup (α : Type) where
  /-- An element starts there; it is the one at this position. -/
  | found (position : Nat) (element : α)
  /-- No element starts there, and the one at this position is the first behind it. -/
  | between (position : Nat)
  /-- No element starts there or behind it. -/
  | beyond
  deriving DecidableEq

/-- The element found, if there is one. -/
def SlotLookup.element? {α : Type} : SlotLookup α → Option α
  | found _ element => some element
  | between _ | beyond => none

/-- The first number from `low` up to `high` at which `holds` fails, given that it never holds
again after failing; `fuel` bounds the number of halvings. -/
def bisect (holds : Nat → Bool) : (fuel low high : Nat) → Nat
  | 0, low, _ => low
  | fuel + 1, low, high =>
    if low < high then
      let middle := (low + high) / 2
      if holds middle then bisect holds fuel (middle + 1) high
      else bisect holds fuel low middle
    else low

namespace SlotTable

variable {α : Type} [HasWidth α]

/-- The empty table whose first element will start at `offset`. -/
def startingAt (offset : Nat) : SlotTable α := ⟨#[], offset, offset, rfl⟩

/-- Number of elements, whatever their widths. -/
def size (table : SlotTable α) : Nat := table.entries.size

def isEmpty (table : SlotTable α) : Bool := table.entries.isEmpty

/-- Adds an element at the offset where the previous one ends. -/
def push (table : SlotTable α) (element : α) : SlotTable α where
  entries := table.entries.push (table.next, element)
  next := table.next + HasWidth.width element
  filled := by
    obtain ⟨start, h⟩ := table.filled
    exact ⟨start, by simpa using h.concat element⟩

/-- Adds an element and tells the offset it starts at. -/
def add (element : α) : StateM (SlotTable α) Nat :=
  modifyGet fun table => (table.next, table.push element)

/-- The elements of a list one after the other, the first at `offset`. -/
def ofListFrom (offset : Nat) (elements : List α) : SlotTable α :=
  elements.foldl push (startingAt offset)

/-- How many elements start at or before an offset. -/
def startsUpTo (table : SlotTable α) (offset : Nat) : Nat :=
  bisect (fun position => (table.entries[position]?).any fun entry => entry.1 ≤ offset)
    (table.size + 1) 0 table.size

/-- Looks an element up by the offset it starts at. -/
def lookup (table : SlotTable α) (offset : Nat) : SlotLookup α :=
  let behind := table.startsUpTo offset
  match table.entries[behind - 1]? with
  | some (start, element) =>
    if 0 < behind ∧ start = offset then .found (behind - 1) element
    else if behind = table.size then .beyond
    else .between behind
  | none => .beyond

/-- The element at a position, with its offset. -/
def at? (table : SlotTable α) (position : Nat) : Option (Nat × α) := table.entries[position]?

/-- The offset, the position and the element at a position. -/
def row? (table : SlotTable α) (position : Nat) : Option (Nat × Nat × α) :=
  (table.at? position).map fun (offset, element) => (offset, position, element)

/-- Every element with its offset and position, in order. -/
def toList (table : SlotTable α) : List (Nat × Nat × α) :=
  table.entries.toList.zipIdx.map fun ((offset, element), position) => (offset, position, element)

/-- Tables are the same when they hold the same elements at the same offsets. -/
instance [BEq α] : BEq (SlotTable α) where
  beq table other := table.entries == other.entries

end SlotTable

/-- The elements of a table that are left between two positions, to be taken from either end. -/
structure SlotRange (α : Type) [HasWidth α] where
  table : SlotTable α
  /-- The position of the first element that is left. -/
  front : Nat
  /-- The position behind the last element that is left. -/
  back : Nat

namespace SlotRange

variable {α : Type} [HasWidth α]

/-- Takes the first element that is left. -/
def next? (range : SlotRange α) : Option ((Nat × Nat × α) × SlotRange α) :=
  if range.front < range.back then
    (range.table.row? range.front).map fun row => (row, { range with front := range.front + 1 })
  else none

/-- Takes the last element that is left. -/
def nextBack? (range : SlotRange α) : Option ((Nat × Nat × α) × SlotRange α) :=
  if range.front < range.back then
    (range.table.row? (range.back - 1)).map fun row => (row, { range with back := range.back - 1 })
  else none

/-- What `take?` takes, call after call, until it takes nothing; `fuel` bounds the number of
calls. -/
def collect (take? : SlotRange α → Option ((Nat × Nat × α) × SlotRange α)) :
    (fuel : Nat) → SlotRange α → List (Nat × Nat × α)
  | 0, _ => []
  | fuel + 1, range =>
    match take? range with
    | some (row, left) => row :: collect take? fuel left
    | none => []

end SlotRange

namespace SlotTable

variable {α : Type} [HasWidth α]

/-- All elements of a table. -/
def range (table : SlotTable α) : SlotRange α := ⟨table, 0, table.size⟩

/-- The rows of a table, taken from its front one after the other. -/
def forwards (table : SlotTable α) : List (Nat × Nat × α) :=
  table.range.collect SlotRange.next? (table.size + 1)

/-- The rows of a table, taken from its back one after the other. -/
def backwards (table : SlotTable α) : List (Nat × Nat × α) :=
  table.range.collect SlotRange.nextBack? (table.size + 1)

end SlotTable

end ClassFormat
