/-
# ClassFormat.Proofs.SlotTable: what a look-up by offset finds

The offset of an element is the start of the table and the widths of the elements before it.  These
sums grow from one element to the next as long as no element is empty, so bisecting them finds what
going through them one by one would find.
-/
import ClassFormat.Proofs.Layout.Constants

namespace ClassFormat

/-! ## Bisection -/

/-- Bisection finds where a property that never comes back stops: below the result it holds, from
there on it does not. -/
theorem bisect_spec {holds : Nat → Bool}
    (hdown : ∀ i j, i ≤ j → holds j = true → holds i = true) {fuel low high : Nat}
    (hle : low ≤ high) (hfuel : high - low ≤ fuel) :
    bisect holds fuel low high ≤ high
      ∧ (∀ i, low ≤ i → i < bisect holds fuel low high → holds i = true)
      ∧ ∀ i, bisect holds fuel low high ≤ i → i < high → holds i = false := by
  induction fuel generalizing low high with
  | zero =>
    show low ≤ high ∧ (∀ i, low ≤ i → i < low → _) ∧ ∀ i, low ≤ i → i < high → _
    exact ⟨hle, fun i _ _ => by omega, fun i _ _ => by omega⟩
  | succ fuel ih =>
    by_cases hlt : low < high
    · by_cases hmiddle : holds ((low + high) / 2) = true
      · -- The middle is below the result, and with it everything before it.
        obtain ⟨hresult, hbelow, habove⟩ :=
          ih (show (low + high) / 2 + 1 ≤ high by omega) (by omega)
        rw [show bisect holds (fuel + 1) low high
          = bisect holds fuel ((low + high) / 2 + 1) high by simp [bisect, hlt, hmiddle]]
        refine ⟨hresult, fun i _ hi => ?_, habove⟩
        by_cases hfront : i ≤ (low + high) / 2
        · exact hdown i _ hfront hmiddle
        · exact hbelow i (by omega) hi
      · -- The middle is not below the result, and so nothing behind it is.
        obtain ⟨hresult, hbelow, habove⟩ :=
          ih (show low ≤ (low + high) / 2 by omega) (by omega)
        rw [show bisect holds (fuel + 1) low high
          = bisect holds fuel low ((low + high) / 2) by simp [bisect, hlt, hmiddle]]
        refine ⟨by omega, hbelow, fun i hi _ => ?_⟩
        by_cases hfront : i < (low + high) / 2
        · exact habove i hi hfront
        · apply Bool.eq_false_iff.mpr
          intro hholds
          exact hmiddle (hdown _ i (by omega) hholds)
    · rw [show bisect holds (fuel + 1) low high = low by simp [bisect, hlt]]
      exact ⟨hle, fun i _ _ => by omega, fun i _ _ => by omega⟩

/-- Bisecting a whole range tells at every position whether the property holds there. -/
theorem lt_bisect_iff {holds : Nat → Bool}
    (hdown : ∀ i j, i ≤ j → holds j = true → holds i = true) {size : Nat}
    (hsize : ∀ i, holds i = true → i < size) (i : Nat) :
    i < bisect holds (size + 1) 0 size ↔ holds i = true := by
  obtain ⟨-, hbelow, habove⟩ := bisect_spec hdown (Nat.zero_le size) (Nat.le_succ size)
  constructor
  · intro hi
    exact hbelow i (Nat.zero_le i) hi
  · intro hholds
    apply Nat.lt_of_not_le
    intro hle
    have hnot := habove i hle (hsize i hholds)
    rw [hholds] at hnot
    cases hnot

namespace SlotTable

variable {α : Type} [HasWidth α]

/-! ## Sums of widths -/

theorem totalWidth_append (elements others : List α) :
    totalWidth (elements ++ others) = totalWidth elements + totalWidth others := by
  induction elements with
  | nil => simp [totalWidth]
  | cons element elements ih =>
    rw [List.cons_append, totalWidth_cons, totalWidth_cons, ih, Nat.add_assoc]

theorem totalWidth_take_succ {elements : List α} {p : Nat} {element : α}
    (h : elements[p]? = some element) :
    totalWidth (elements.take (p + 1)) = totalWidth (elements.take p) + HasWidth.width element := by
  rw [List.take_add_one, h, totalWidth_append]
  simp [totalWidth]

theorem totalWidth_take_le_self (elements : List α) (p : Nat) :
    totalWidth (elements.take p) ≤ totalWidth elements := by
  have hsplit := totalWidth_append (elements.take p) (elements.drop p)
  rw [List.take_append_drop] at hsplit
  omega

theorem totalWidth_take_le (elements : List α) {p q : Nat} (h : p ≤ q) :
    totalWidth (elements.take p) ≤ totalWidth (elements.take q) := by
  have hfront : (elements.take q).take p = elements.take p := by
    rw [List.take_take, Nat.min_eq_left h]
  rw [← hfront]
  exact totalWidth_take_le_self (elements.take q) p

/-- An offset inside the table falls into the slots of one of its elements. -/
theorem exists_slot (elements : List α) {n : Nat} (h : n < totalWidth elements) :
    ∃ p element, elements[p]? = some element ∧ totalWidth (elements.take p) ≤ n
      ∧ n < totalWidth (elements.take p) + HasWidth.width element := by
  induction elements generalizing n with
  | nil => exact absurd h (Nat.not_lt_zero n)
  | cons element elements ih =>
    by_cases hfirst : n < HasWidth.width element
    · exact ⟨0, element, rfl, Nat.zero_le n, by simpa [totalWidth] using hfirst⟩
    · rw [totalWidth_cons] at h
      obtain ⟨p, found, hfound, hle, hlt⟩ := ih (show n - HasWidth.width element < _ by omega)
      refine ⟨p + 1, found, hfound, ?_, ?_⟩
      · rw [List.take_succ_cons, totalWidth_cons]
        omega
      · rw [List.take_succ_cons, totalWidth_cons]
        omega

/-! ## Entries -/

/-- The elements of a list with their offsets, the first at `offset`. -/
def numbered (offset : Nat) : List α → List (Nat × α)
  | [] => []
  | element :: elements =>
    (offset, element) :: numbered (offset + HasWidth.width element) elements

theorem getElem?_numbered (offset : Nat) (elements : List α) (p : Nat) :
    (numbered offset elements)[p]?
      = elements[p]?.map fun element => (offset + totalWidth (elements.take p), element) := by
  induction elements generalizing offset p with
  | nil => rfl
  | cons element elements ih =>
    cases p with
    | zero => rfl
    | succ p =>
      show (numbered (offset + HasWidth.width element) elements)[p]? = elements[p]?.map _
      rw [ih, List.take_succ_cons, totalWidth_cons]
      simp only [Nat.add_assoc]

theorem length_numbered (offset : Nat) (elements : List α) :
    (numbered offset elements).length = elements.length := by
  induction elements generalizing offset with
  | nil => rfl
  | cons element elements ih => simp [numbered, ih]

theorem toList_foldl_push (elements : List α) (table : SlotTable α) :
    (elements.foldl push table).entries.toList
      = table.entries.toList ++ numbered table.next elements := by
  induction elements generalizing table with
  | nil => simp [numbered]
  | cons element elements ih =>
    rw [List.foldl_cons, ih]
    simp [push, numbered]

theorem toList_ofListFrom (offset : Nat) (elements : List α) :
    (ofListFrom offset elements).entries.toList = numbered offset elements :=
  toList_foldl_push elements (startingAt offset)

/-- Entries that take the slots one after the other are numbered by the widths before them. -/
theorem TakeSlots.eq_numbered {start stop : Nat} {entries : List (Nat × α)}
    (h : TakeSlots start entries stop) :
    entries = numbered start (entries.map Prod.snd)
      ∧ stop = start + totalWidth (entries.map Prod.snd) := by
  induction entries generalizing start with
  | nil => exact ⟨rfl, h.symm⟩
  | cons entry entries ih =>
    obtain ⟨offset, element⟩ := entry
    obtain ⟨rfl, hrest⟩ := h
    obtain ⟨hentries, hstop⟩ := ih hrest
    rw [List.map_cons, numbered, ← hentries, totalWidth_cons, ← Nat.add_assoc]
    exact ⟨rfl, hstop⟩

/-- There are no other tables than those of a list of elements from some offset on. -/
theorem exists_eq_ofListFrom (table : SlotTable α) :
    ∃ start, table = ofListFrom start (table.entries.toList.map Prod.snd) := by
  obtain ⟨start, h⟩ := table.filled
  obtain ⟨hentries, hnext⟩ := h.eq_numbered
  refine ⟨start, ?_⟩
  have hsame : table.entries = (ofListFrom start (table.entries.toList.map Prod.snd)).entries := by
    rw [← Array.toList_inj, toList_ofListFrom]
    exact hentries
  rw [SlotTable.mk.injEq]
  exact ⟨hsame, hnext.trans (next_ofListFrom start _).symm⟩

theorem size_ofListFrom (offset : Nat) (elements : List α) :
    (ofListFrom offset elements).size = elements.length := by
  rw [size, ← Array.length_toList, toList_ofListFrom, length_numbered]

/-- The offset of an element is where the table starts and the widths of the elements before. -/
theorem getElem?_ofListFrom (offset : Nat) (elements : List α) (p : Nat) :
    (ofListFrom offset elements).entries[p]?
      = elements[p]?.map fun element => (offset + totalWidth (elements.take p), element) := by
  rw [← Array.getElem?_toList, toList_ofListFrom, getElem?_numbered]

/-! ## Look-ups -/

section Lookup

variable {start : Nat} {elements : List α}

/-- The elements that start at or before an offset are the first ones of the table. -/
theorem lt_startsUpTo_iff (offset p : Nat) :
    p < (ofListFrom start elements).startsUpTo offset
      ↔ p < elements.length ∧ start + totalWidth (elements.take p) ≤ offset := by
  have hholds : ∀ p, ((ofListFrom start elements).entries[p]?).any (fun entry => entry.1 ≤ offset)
      = true ↔ p < elements.length ∧ start + totalWidth (elements.take p) ≤ offset := by
    intro p
    rw [getElem?_ofListFrom]
    by_cases hp : p < elements.length <;> simp [hp]
  rw [← hholds]
  apply lt_bisect_iff
  · intro i j hij hj
    have hle : totalWidth (elements.take i) ≤ totalWidth (elements.take j) :=
      totalWidth_take_le elements hij
    rw [hholds] at hj ⊢
    omega
  · intro i hi
    rw [size_ofListFrom]
    exact ((hholds i).mp hi).1

/-- A look-up looks only at the last element that starts at or before the offset. -/
theorem lookup_eq_found {table : SlotTable α} {offset p : Nat} {element : α} :
    table.lookup offset = .found p element
      ↔ table.startsUpTo offset = p + 1 ∧ table.entries[p]? = some (offset, element) := by
  unfold lookup
  constructor
  · intro h
    dsimp only at h
    split at h
    · rename_i found other hentry
      split at h
      · rename_i hfound
        obtain ⟨hpos, rfl⟩ := hfound
        cases h
        exact ⟨by omega, hentry⟩
      · split at h <;> cases h
    · cases h
  · rintro ⟨hbehind, hentry⟩
    simp [hbehind, hentry]

variable (hwidth : ∀ element ∈ elements, 0 < HasWidth.width element)

include hwidth

/-- Bisecting finds the element that starts at an offset, and no other. -/
theorem lookup_eq_found_iff {offset p : Nat} {element : α} :
    (ofListFrom start elements).lookup offset = .found p element
      ↔ elements[p]? = some element ∧ offset = start + totalWidth (elements.take p) := by
  rw [lookup_eq_found, getElem?_ofListFrom]
  constructor
  · rintro ⟨-, hentry⟩
    obtain ⟨found, hfound, heq⟩ := Option.map_eq_some_iff.mp hentry
    cases heq
    exact ⟨hfound, rfl⟩
  · rintro ⟨helement, rfl⟩
    obtain ⟨hp, hget⟩ := List.getElem?_eq_some_iff.mp helement
    have hpos : 0 < HasWidth.width element := hwidth element (hget ▸ List.getElem_mem hp)
    -- This element starts at the offset, so the next one starts behind it.
    have hself : p < (ofListFrom start elements).startsUpTo
        (start + totalWidth (elements.take p)) :=
      (lt_startsUpTo_iff _ p).mpr ⟨hp, Nat.le_refl _⟩
    have hnext : ¬ p + 1 < (ofListFrom start elements).startsUpTo
        (start + totalWidth (elements.take p)) := by
      rw [lt_startsUpTo_iff, totalWidth_take_succ helement]
      omega
    exact ⟨by omega, by rw [helement]; rfl⟩

theorem lookup_element_iff {offset : Nat} {element : α} :
    ((ofListFrom start elements).lookup offset).element? = some element
      ↔ ∃ p, elements[p]? = some element ∧ offset = start + totalWidth (elements.take p) := by
  simp only [← lookup_eq_found_iff hwidth]
  cases (ofListFrom start elements).lookup offset <;> simp [SlotLookup.element?]

end Lookup

end SlotTable

end ClassFormat
