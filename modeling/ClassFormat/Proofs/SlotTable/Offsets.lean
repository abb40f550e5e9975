/-
# ClassFormat.Proofs.SlotTable.Offsets: how a table numbers its elements

Elements are added one after the other, and each starts where the one before it ends.  The offset of
an element is therefore the start of the table and the widths of the elements added before it, and
every other question to a table is answered by these sums: what stands at a position, what is met
when the table is gone through from its front or from its back, and what starts at an offset.

A look-up that finds nothing tells where the offset lies, and it goes by where elements start.
Behind the last element none starts, so an offset inside that one gets the same answer as an offset
behind all of them.
-/
import ClassFormat.Proofs.SlotTable

namespace ClassFormat

/-! ## Taking rows from either end -/

namespace SlotTable

variable {α : Type} [HasWidth α]

theorem getElem?_toList (table : SlotTable α) (p : Nat) : table.toList[p]? = table.row? p := by
  simp [toList, row?, at?, Option.map_map, Function.comp_def]

theorem length_toList (table : SlotTable α) : table.toList.length = table.size := by
  simp [toList, size]

end SlotTable

namespace SlotRange

variable {α : Type} [HasWidth α]

/-- The rows that are left. -/
def left (range : SlotRange α) : List (Nat × Nat × α) :=
  (range.table.toList.take range.back).drop range.front

/-- A call at the front takes the first row that is left. -/
theorem next?_eq (range : SlotRange α) :
    range.next?
      = range.left.head?.map fun row => (row, { range with front := range.front + 1 }) := by
  rw [next?, left, List.head?_drop, List.getElem?_take, SlotTable.getElem?_toList]
  split <;> rfl

theorem left_next (range : SlotRange α) :
    ({ range with front := range.front + 1 } : SlotRange α).left = range.left.tail := by
  simp [left]

/-- A call at the back takes the last row that is left. -/
theorem nextBack?_eq {range : SlotRange α} (h : range.back ≤ range.table.size) :
    range.nextBack?
      = range.left.getLast?.map fun row => (row, { range with back := range.back - 1 }) := by
  have hlength : (range.table.toList.take range.back).length = range.back := by
    rw [List.length_take, SlotTable.length_toList, Nat.min_eq_left h]
  rw [nextBack?, left, List.getLast?_drop, hlength, ← SlotTable.getElem?_toList,
    List.getLast?_eq_getElem?, hlength, List.getElem?_take]
  by_cases hsome : range.front < range.back
  · have hlast : range.back - 1 < range.back := by omega
    rw [if_pos hsome, if_neg (by omega), if_pos hlast]
  · rw [if_neg hsome, if_pos (by omega)]
    rfl

theorem left_nextBack {range : SlotRange α} (h : range.back ≤ range.table.size) :
    ({ range with back := range.back - 1 } : SlotRange α).left = range.left.dropLast := by
  have hlength : range.left.length = range.back - range.front := by
    rw [left, List.length_drop, List.length_take, SlotTable.length_toList, Nat.min_eq_left h]
  rw [List.dropLast_eq_take, hlength]
  simp only [left, List.drop_take, List.take_take]
  congr 1
  omega

/-- Calls at the front take what is left in order, and then nothing. -/
theorem collect_next? (fuel : Nat) (range : SlotRange α) (hfuel : range.left.length ≤ fuel) :
    range.collect next? fuel = range.left := by
  induction fuel generalizing range with
  | zero => exact (List.length_eq_zero_iff.mp (Nat.le_zero.mp hfuel)).symm
  | succ fuel ih =>
    rw [collect, next?_eq]
    cases hleft : range.left with
    | nil => rfl
    | cons row rows =>
      have hrest := left_next range
      rw [hleft, List.tail_cons] at hrest
      rw [hleft, List.length_cons] at hfuel
      have hothers := ih { range with front := range.front + 1 } (by rw [hrest]; omega)
      show row :: collect next? fuel { range with front := range.front + 1 } = row :: rows
      rw [hothers, hrest]

/-- Calls at the back take what is left in the opposite order, and then nothing. -/
theorem collect_nextBack? (fuel : Nat) (range : SlotRange α) (h : range.back ≤ range.table.size)
    (hfuel : range.left.length ≤ fuel) :
    range.collect nextBack? fuel = range.left.reverse := by
  induction fuel generalizing range with
  | zero =>
    rw [List.length_eq_zero_iff.mp (Nat.le_zero.mp hfuel)]
    rfl
  | succ fuel ih =>
    rw [collect, nextBack?_eq h]
    rcases List.eq_nil_or_concat range.left with hleft | ⟨rows, row, hleft⟩
    · rw [hleft]
      rfl
    · have hrest := left_nextBack h
      rw [List.concat_eq_append] at hleft
      rw [hleft, List.dropLast_concat] at hrest
      rw [hleft, List.length_append, List.length_singleton] at hfuel
      have hothers := ih { range with back := range.back - 1 }
        (Nat.le_trans (Nat.sub_le range.back 1) h) (by rw [hrest]; omega)
      rw [hleft, List.getLast?_concat, List.reverse_append]
      show row :: collect nextBack? fuel { range with back := range.back - 1 } = row :: rows.reverse
      rw [hothers, hrest]

end SlotRange

namespace SlotTable

section Passes

variable {α : Type} [HasWidth α] (table : SlotTable α)

theorem left_range : table.range.left = table.toList := by
  rw [SlotRange.left, range, ← length_toList, List.take_length]
  rfl

theorem forwards_eq : table.forwards = table.toList := by
  rw [forwards, SlotRange.collect_next?, left_range]
  rw [left_range, length_toList]
  exact Nat.le_succ table.size

theorem backwards_eq : table.backwards = table.toList.reverse := by
  rw [backwards, SlotRange.collect_nextBack? _ _ (Nat.le_refl table.size), left_range]
  rw [left_range, length_toList]
  exact Nat.le_succ table.size

end Passes

/-! ## Offsets are sums of widths -/

variable {α : Type} [HasWidth α]

/-- Where an element starts, by its position: behind all elements before it. -/
def offsetAt (start : Nat) (elements : List α) (position : Nat) : Nat :=
  start + totalWidth (elements.take position)

/-- Adding elements one after the other tells the offset of each. -/
theorem run_mapM_add (elements : List α) (table : SlotTable α) :
    (elements.mapM add).run table
      = ((List.range elements.length).map (offsetAt table.next elements),
          elements.foldl push table) := by
  induction elements generalizing table with
  | nil => rfl
  | cons element elements ih =>
    have hbehind : (fun p => offsetAt table.next (element :: elements) (p + 1))
        = offsetAt (table.push element).next elements := by
      funext p
      simp [offsetAt, push, totalWidth_cons, Nat.add_assoc]
    rw [List.mapM_cons, List.length_cons, List.range_succ_eq_map, List.map_cons, List.map_map]
    show (_ :: ((elements.mapM add).run (table.push element)).1,
      ((elements.mapM add).run (table.push element)).2) = _
    rw [ih, ← hbehind]
    rfl

section Numbering

variable {start : Nat} {elements : List α}

/-- An element ends where the next one starts. -/
theorem offsetAt_succ {p : Nat} {element : α} (h : elements[p]? = some element) :
    offsetAt start elements (p + 1) = offsetAt start elements p + HasWidth.width element := by
  rw [offsetAt, totalWidth_take_succ h, ← Nat.add_assoc]
  rfl

theorem offsetAt_length :
    offsetAt start elements elements.length = start + totalWidth elements := by
  rw [offsetAt, List.take_length]

theorem at?_ofListFrom (p : Nat) :
    (ofListFrom start elements).at? p
      = elements[p]?.map fun element => (offsetAt start elements p, element) :=
  getElem?_ofListFrom start elements p

theorem toList_eq_zipIdx :
    (ofListFrom start elements).toList
      = elements.zipIdx.map fun (element, p) => (offsetAt start elements p, p, element) := by
  apply List.ext_getElem?
  intro p
  rw [getElem?_toList, row?, at?_ofListFrom]
  simp [Function.comp_def]

theorem mem_toList_iff {offset p : Nat} {element : α} :
    (offset, p, element) ∈ (ofListFrom start elements).toList
      ↔ elements[p]? = some element ∧ offset = offsetAt start elements p := by
  rw [toList_eq_zipIdx, List.mem_map]
  constructor
  · rintro ⟨⟨found, q⟩, hmem, heq⟩
    cases heq
    exact ⟨List.mem_zipIdx_iff_getElem?.mp hmem, rfl⟩
  · rintro ⟨helement, rfl⟩
    exact ⟨(element, p), List.mem_zipIdx_iff_getElem?.mpr helement, rfl⟩

variable (hwidth : ∀ element ∈ elements, 1 ≤ HasWidth.width element)

include hwidth

/-- No element is empty, so each starts behind those before it. -/
theorem offsetAt_lt {p q : Nat} (hpq : p < q) (hq : q ≤ elements.length) :
    offsetAt start elements p < offsetAt start elements q := by
  have hp : p < elements.length := by omega
  have hpos := hwidth elements[p] (List.getElem_mem hp)
  calc offsetAt start elements p
      < offsetAt start elements p + HasWidth.width elements[p] := Nat.lt_add_of_pos_right hpos
    _ = offsetAt start elements (p + 1) := (offsetAt_succ (List.getElem?_eq_getElem hp)).symm
    _ ≤ offsetAt start elements q :=
      Nat.add_le_add_left (totalWidth_take_le elements hpq) start

theorem offsetAt_inj {p q : Nat} (hp : p < elements.length) (hq : q < elements.length)
    (h : offsetAt start elements p = offsetAt start elements q) : p = q := by
  rcases Nat.lt_trichotomy p q with hlt | heq | hgt
  · exact absurd h (Nat.ne_of_lt (offsetAt_lt hwidth hlt (Nat.le_of_lt hq)))
  · exact heq
  · exact absurd h.symm (Nat.ne_of_lt (offsetAt_lt hwidth hgt (Nat.le_of_lt hp)))

theorem pairwise_toList :
    (ofListFrom start elements).toList.Pairwise fun row later => row.1 < later.1 := by
  rw [List.pairwise_iff_getElem]
  intro p q hp hq hpq
  simp only [toList_eq_zipIdx, List.getElem_map, List.getElem_zipIdx, Nat.zero_add]
  rw [toList_eq_zipIdx, List.length_map, List.length_zipIdx] at hq
  exact offsetAt_lt hwidth hpq (Nat.le_of_lt hq)

/-- Going through the rows one by one finds what bisecting finds. -/
theorem lookup_eq_found_iff_find? {offset p : Nat} {element : α} :
    (ofListFrom start elements).lookup offset = .found p element
      ↔ (ofListFrom start elements).toList.find? (fun row => row.1 == offset)
        = some (offset, p, element) := by
  rw [lookup_eq_found_iff hwidth]
  show _ ∧ offset = offsetAt start elements p ↔ _
  rw [← mem_toList_iff]
  constructor
  · intro hmem
    cases hfind : (ofListFrom start elements).toList.find? (fun row => row.1 == offset) with
    | none => exact absurd (beq_self_eq_true offset) (List.find?_eq_none.mp hfind _ hmem)
    | some row =>
      obtain ⟨found, q, other⟩ := row
      obtain rfl : found = offset := by simpa using List.find?_some hfind
      obtain ⟨hp, rfl⟩ := mem_toList_iff.mp hmem
      obtain ⟨hq, heq⟩ := mem_toList_iff.mp (List.mem_of_find?_eq_some hfind)
      -- Only one element starts at the offset, so the first that is met is this one.
      obtain rfl : p = q := offsetAt_inj hwidth (List.getElem?_eq_some_iff.mp hp).1
        (List.getElem?_eq_some_iff.mp hq).1 heq
      rw [Option.some.inj (hp.symm.trans hq)]
  · exact List.mem_of_find?_eq_some

end Numbering

/-- What a table of these elements answers, when its first element starts at `start`. -/
structure Numbers (start : Nat) (elements : List α) (table : SlotTable α) : Prop where
  next_eq : table.next = start + totalWidth elements
  /-- No offset is greater than the one behind the table, so all fit where that one does. -/
  lt_next : ∀ row ∈ table.forwards, row.1 < table.next
  increasing : table.forwards.Pairwise fun row later => row.1 < later.1
  at?_eq : ∀ p, table.at? p = elements[p]?.map fun element => (offsetAt start elements p, element)
  forwards_eq : table.forwards
    = elements.zipIdx.map fun (element, p) => (offsetAt start elements p, p, element)
  backwards_eq : table.backwards = table.forwards.reverse
  /-- An element is found at an offset exactly if it starts there. -/
  found_iff : ∀ offset p element, table.lookup offset = .found p element
    ↔ elements[p]? = some element ∧ offsetAt start elements p = offset
  /-- No other element starts there. -/
  unique : ∀ p q, p < elements.length → q < elements.length →
    offsetAt start elements p = offsetAt start elements q → p = q
  /-- Bisecting finds what going through the rows one by one finds. -/
  found_iff_find? : ∀ offset p element, table.lookup offset = .found p element
    ↔ table.forwards.find? (fun row => row.1 == offset) = some (offset, p, element)

/-- Elements that each take a slot at least, added one after the other, are told the start of the
table plus the widths before them as their offsets, and the table numbers them by these offsets. -/
theorem add_numbers (start : Nat) (elements : List α)
    (hwidth : ∀ element ∈ elements, 1 ≤ HasWidth.width element) :
    (elements.mapM add).run (startingAt start)
        = ((List.range elements.length).map (offsetAt start elements), ofListFrom start elements)
      ∧ Numbers start elements (ofListFrom start elements) := by
  refine ⟨run_mapM_add elements (startingAt start), ?_⟩
  exact {
    next_eq := next_ofListFrom start elements
    lt_next := by
      rintro ⟨offset, p, element⟩ hrow
      rw [forwards_eq] at hrow
      obtain ⟨helement, rfl⟩ := mem_toList_iff.mp hrow
      rw [next_ofListFrom, ← offsetAt_length]
      exact offsetAt_lt hwidth (List.getElem?_eq_some_iff.mp helement).1 (Nat.le_refl _)
    increasing := by
      rw [forwards_eq]
      exact pairwise_toList hwidth
    at?_eq := at?_ofListFrom
    forwards_eq := by
      rw [forwards_eq, toList_eq_zipIdx]
    backwards_eq := by
      rw [backwards_eq, forwards_eq]
    found_iff := by
      intro offset p element
      rw [lookup_eq_found_iff hwidth, eq_comm (a := offset)]
      rfl
    unique := fun p q => offsetAt_inj hwidth
    found_iff_find? := by
      intro offset p element
      rw [forwards_eq]
      exact lookup_eq_found_iff_find? hwidth }

/-- Entries of a pool with an eight-byte constant among them. -/
def mixedConstants : List Constant := [.integer 1, .long 2, .integer 3]

theorem add_numbers_mixed :
    (∀ constant ∈ mixedConstants, 1 ≤ HasWidth.width constant)
      ∧ ((mixedConstants.mapM add).run (startingAt 1)).1 = [1, 2, 4]
      ∧ (ofListFrom 1 mixedConstants).backwards
        = [(4, 2, .integer 3), (2, 1, .long 2), (1, 0, .integer 1)]
      ∧ (ofListFrom 1 mixedConstants).lookup 4 = .found 2 (.integer 3) := by
  have hwidth : ∀ constant ∈ mixedConstants, 1 ≤ HasWidth.width constant := by decide
  obtain ⟨hadded, hnumbers⟩ := add_numbers 1 mixedConstants hwidth
  refine ⟨hwidth, ?_, ?_, ?_⟩
  · rw [hadded]
    rfl
  · rw [hnumbers.backwards_eq, hnumbers.forwards_eq]
    rfl
  · exact (hnumbers.found_iff 4 2 (.integer 3)).mpr ⟨rfl, rfl⟩

/-! ## Offsets at which no element starts -/

section Misses

variable {start offset : Nat} {elements : List α}

theorem startsUpTo_le : (ofListFrom start elements).startsUpTo offset ≤ elements.length := by
  apply Nat.le_of_not_lt
  intro hlt
  exact Nat.lt_irrefl _ ((lt_startsUpTo_iff offset elements.length).mp hlt).1

/-- Where no element starts, the answer depends only on how many start before. -/
theorem lookup_of_miss
    (hmiss : ∀ p, p < elements.length → offsetAt start elements p ≠ offset) :
    (ofListFrom start elements).lookup offset
      = if (ofListFrom start elements).startsUpTo offset = elements.length then .beyond
        else .between ((ofListFrom start elements).startsUpTo offset) := by
  have hle : (ofListFrom start elements).startsUpTo offset ≤ elements.length := startsUpTo_le
  rw [lookup, size_ofListFrom]
  generalize (ofListFrom start elements).startsUpTo offset = behind at hle ⊢
  rw [getElem?_ofListFrom]
  cases helement : elements[behind - 1]? with
  | none =>
    -- There is no element before the offset and none behind it, so there is none at all.
    have hall : behind = elements.length := by
      have hlength := List.getElem?_eq_none_iff.mp helement
      omega
    rw [if_pos hall]
    rfl
  | some element =>
    have hlt := (List.getElem?_eq_some_iff.mp helement).1
    have hother : ¬ (0 < behind ∧ offsetAt start elements (behind - 1) = offset) :=
      fun h => hmiss (behind - 1) hlt h.2
    exact if_neg hother

/-- As many elements start up to an offset inside an element as up to the element itself. -/
theorem startsUpTo_inside {p : Nat} {element : α} (helement : elements[p]? = some element)
    (hafter : offsetAt start elements p ≤ offset)
    (hbefore : offset < offsetAt start elements p + HasWidth.width element) :
    (ofListFrom start elements).startsUpTo offset = p + 1 := by
  have hp := (List.getElem?_eq_some_iff.mp helement).1
  have hself := (lt_startsUpTo_iff offset p).mpr ⟨hp, hafter⟩
  have hnext : ¬ p + 1 < (ofListFrom start elements).startsUpTo offset := by
    intro hlt
    have hstarts : offsetAt start elements (p + 1) ≤ offset :=
      ((lt_startsUpTo_iff offset (p + 1)).mp hlt).2
    rw [offsetAt_succ helement] at hstarts
    omega
  omega

theorem startsUpTo_before (h : offset < start) :
    (ofListFrom start elements).startsUpTo offset = 0 := by
  apply Nat.eq_zero_of_not_pos
  rw [lt_startsUpTo_iff]
  omega

/-- The last element ends where the table does. -/
theorem getElem?_last (hnonempty : elements ≠ []) (start : Nat) :
    ∃ last, elements[elements.length - 1]? = some last
      ∧ offsetAt start elements (elements.length - 1) + HasWidth.width last
        = start + totalWidth elements := by
  have hpos : 0 < elements.length := List.length_pos_iff.mpr hnonempty
  have hlast : elements[elements.length - 1]? = some elements[elements.length - 1] :=
    List.getElem?_eq_getElem (by omega)
  refine ⟨elements[elements.length - 1], hlast, ?_⟩
  rw [← offsetAt_succ hlast, Nat.sub_add_cancel hpos, offsetAt_length]

/-- Where no element starts, the offset is told to be behind all elements if none starts later. -/
theorem lookup_eq_beyond_iff (hnonempty : elements ≠ [])
    (hmiss : ∀ p, p < elements.length → offsetAt start elements p ≠ offset) :
    (ofListFrom start elements).lookup offset = .beyond
      ↔ offsetAt start elements (elements.length - 1) ≤ offset := by
  have hpos : 0 < elements.length := List.length_pos_iff.mpr hnonempty
  have hle : (ofListFrom start elements).startsUpTo offset ≤ elements.length := startsUpTo_le
  have hlast : elements.length - 1 < (ofListFrom start elements).startsUpTo offset
      ↔ offsetAt start elements (elements.length - 1) ≤ offset := by
    rw [lt_startsUpTo_iff]
    exact and_iff_right (by omega)
  rw [lookup_of_miss hmiss, ← hlast]
  split
  · exact iff_of_true rfl (by omega)
  · exact iff_of_false nofun (by omega)

end Misses

/-- The answer for an offset at which no element starts, by the slots that elements take: before the
first of them, inside an element, or behind the last. -/
structure TellsSlot (start : Nat) (elements : List α) (offset : Nat) (answer : SlotLookup α) :
    Prop where
  before : offset < start → answer = .between 0
  inside : ∀ p element, elements[p]? = some element → offsetAt start elements p < offset →
    offset < offsetAt start elements p + HasWidth.width element → answer = .between (p + 1)
  behind : answer = .beyond ↔ start + totalWidth elements ≤ offset

/-- An offset that falls into the last element, and not at its start. -/
def InsideLast (start : Nat) (elements : List α) (offset : Nat) : Prop :=
  offsetAt start elements (elements.length - 1) < offset ∧ offset < start + totalWidth elements

/-- Where no element starts, the answer goes by the slots that elements take, unless the offset is
inside the last element.  Inside that one it is the answer for an offset behind all elements. -/
theorem lookup_tellsSlot_iff (start : Nat) (elements : List α) (offset : Nat)
    (hnonempty : elements ≠ [])
    (hmiss : ∀ p, p < elements.length → offsetAt start elements p ≠ offset) :
    (TellsSlot start elements offset ((ofListFrom start elements).lookup offset)
        ↔ ¬ InsideLast start elements offset)
      ∧ (InsideLast start elements offset →
          (ofListFrom start elements).lookup offset = .beyond) := by
  obtain ⟨last, hlast, hend⟩ := getElem?_last hnonempty start
  have hbeyond := lookup_eq_beyond_iff hnonempty hmiss
  refine ⟨⟨?_, ?_⟩, ?_⟩
  · rintro htells ⟨hafter, hbefore⟩
    have hbetween := htells.inside (elements.length - 1) last hlast hafter (by omega)
    rw [hbeyond.mpr (Nat.le_of_lt hafter)] at hbetween
    cases hbetween
  · intro hnot
    refine ⟨fun hbefore => ?_, fun p element helement hafter hbefore => ?_, ?_⟩
    · have hpos : 0 ≠ elements.length := Nat.ne_of_lt (List.length_pos_iff.mpr hnonempty)
      rw [lookup_of_miss hmiss, startsUpTo_before hbefore, if_neg hpos]
    · have hnext : p + 1 ≠ elements.length := by
        intro heq
        obtain rfl : elements.length - 1 = p := by omega
        obtain rfl := Option.some.inj (hlast.symm.trans helement)
        exact hnot ⟨hafter, by omega⟩
      rw [lookup_of_miss hmiss, startsUpTo_inside helement (Nat.le_of_lt hafter) hbefore,
        if_neg hnext]
    · have hpos : 0 < elements.length := List.length_pos_iff.mpr hnonempty
      have hother := hmiss (elements.length - 1) (by omega)
      rw [hbeyond]
      rw [InsideLast] at hnot
      omega
  · intro hinside
    exact hbeyond.mpr (Nat.le_of_lt hinside.1)

/-- Two eight-byte constants.  Their second slots are 2 and 4, and the table ends at 5. -/
def wideConstants : List Constant := [.long 1, .long 2]

theorem lookup_tellsSlot_wide :
    (ofListFrom 1 wideConstants).lookup 2 = .between 1
      ∧ (ofListFrom 1 wideConstants).lookup 4 = .beyond := by
  have hnonempty : wideConstants ≠ [] := by decide
  have hfirst : ∀ p, p < wideConstants.length → offsetAt 1 wideConstants p ≠ 2 := by decide
  have hsecond : ∀ p, p < wideConstants.length → offsetAt 1 wideConstants p ≠ 4 := by decide
  constructor
  · have htells := (lookup_tellsSlot_iff 1 wideConstants 2 hnonempty hfirst).1.mpr
      (fun hinside => absurd hinside.1 (by decide))
    exact htells.inside 0 (.long 1) rfl (by decide) (by decide)
  · exact (lookup_tellsSlot_iff 1 wideConstants 4 hnonempty hsecond).2 ⟨by decide, by decide⟩

/-- The second slot of a last element is not told as being inside it. -/
theorem not_tellsSlot_inside_last :
    ¬ ∀ (start : Nat) (elements : List Constant) (offset : Nat), elements ≠ [] →
        (∀ element ∈ elements, 1 ≤ HasWidth.width element) →
        (∀ p, p < elements.length → offsetAt start elements p ≠ offset) →
        TellsSlot start elements offset ((ofListFrom start elements).lookup offset) := by
  intro hall
  have htells := hall 1 [.long 1] 2 (by decide) (by decide) (by decide)
  have hbetween := htells.inside 0 (.long 1) rfl (by decide) (by decide)
  have hbeyond : (ofListFrom 1 [Constant.long 1]).lookup 2 = .beyond := by decide
  rw [hbeyond] at hbetween
  cases hbetween

end SlotTable

end ClassFormat
