/-
# ClassFormat.Proofs.Code.Tables: where the entries of a split table stand

The table of a method body may be split over several attributes, with other attributes between them.
Where an entry stands is then told by two numbers: which attribute it is in, and which row of it.
Entries are declared in the lexicographic order of these places, and the queries go through them in
that order.
-/
import ClassFormat.Code

namespace ClassFormat

/-! ## Places -/

/-- An attribute of a body, and a row of the table in it. -/
structure Place where
  /-- Which attribute of the body it is. -/
  part : Nat
  row : Nat

namespace Place

/-- Places in the order of declaration. -/
instance : LT Place where
  lt place other :=
    place.part < other.part ∨ place.part = other.part ∧ place.row < other.row

theorem lt_iff {place other : Place} :
    place < other ↔ place.part < other.part
      ∨ place.part = other.part ∧ place.row < other.row := Iff.rfl

theorem lt_irrefl (place : Place) : ¬ place < place := by
  rw [lt_iff]
  omega

theorem lt_asymm {place other : Place} (h : place < other) : ¬ other < place := by
  rw [lt_iff] at h ⊢
  omega

end Place

/-- The entries of a line table. -/
def AttributeInfo.lines : AttributeInfo → List LineNumber
  | lineNumberTable lines => lines
  | _ => []

/-- The entries of a local variable table. -/
def AttributeInfo.variables : AttributeInfo → List LocalVariable
  | localVariableTable entries => entries
  | _ => []

namespace Attribute

variable {β : Type} {rows : AttributeInfo → List β} {attributes : List Attribute}

/-- The entry that stands at a place, when `rows` are the entries of one attribute. -/
def ListedAt (rows : AttributeInfo → List β) (attributes : List Attribute) (place : Place)
    (entry : β) : Prop :=
  ∃ held, attributes[place.part]? = some held ∧ (rows held.info)[place.row]? = some entry

/-- The entries of all attributes with their places. -/
def placed (rows : AttributeInfo → List β) (attributes : List Attribute) : List (Place × β) :=
  attributes.zipIdx.flatMap fun (held, part) =>
    (rows held.info).zipIdx.map fun (entry, row) => (⟨part, row⟩, entry)

theorem map_snd_placed :
    (placed rows attributes).map Prod.snd = attributes.flatMap fun held => rows held.info := by
  have hrows : ∀ (part : Nat) (entries : List β),
      (entries.zipIdx.map fun (entry, row) => ((⟨part, row⟩ : Place), entry)).map Prod.snd
        = entries := by
    intro part entries
    rw [List.map_map]
    exact List.zipIdx_map_fst 0 entries
  simp only [placed, List.map_flatMap, hrows]
  rw [← List.flatMap_map Prod.fst fun held : Attribute => rows held.info, List.zipIdx_map_fst]

theorem mem_placed_iff {place : Place} {entry : β} :
    (place, entry) ∈ placed rows attributes ↔ ListedAt rows attributes place entry := by
  simp only [placed, List.mem_flatMap, List.mem_map]
  constructor
  · rintro ⟨⟨held, part⟩, hheld, ⟨found, row⟩, hrow, heq⟩
    cases heq
    exact ⟨held, List.mem_zipIdx_iff_getElem?.mp hheld, List.mem_zipIdx_iff_getElem?.mp hrow⟩
  · rintro ⟨held, hheld, hrow⟩
    exact ⟨(held, place.part), List.mem_zipIdx_iff_getElem?.mpr hheld, (entry, place.row),
      List.mem_zipIdx_iff_getElem?.mpr hrow, rfl⟩

/-- Entries are gone through in the order of their places. -/
theorem pairwise_placed :
    (placed rows attributes).Pairwise fun entry later => entry.1 < later.1 := by
  rw [placed, List.pairwise_flatMap]
  constructor
  · rintro ⟨held, part⟩ -
    rw [List.pairwise_iff_getElem]
    intro i j hi hj hij
    simp only [List.getElem_map, List.getElem_zipIdx]
    exact Or.inr ⟨rfl, show 0 + i < 0 + j by omega⟩
  · rw [List.pairwise_iff_getElem]
    intro i j hi hj hij entry hentry later hlater
    simp only [List.getElem_zipIdx, List.mem_map] at hentry hlater
    obtain ⟨-, -, rfl⟩ := hentry
    obtain ⟨-, -, rfl⟩ := hlater
    exact Or.inl (show 0 + i < 0 + j by omega)

/-- The entry that is declared first among those that `holds` is true of, if there are any. -/
def IsFirst (rows : AttributeInfo → List β) (attributes : List Attribute) (holds : β → Prop) :
    Option β → Prop
  | some entry => holds entry ∧ ∃ place, ListedAt rows attributes place entry
      ∧ ∀ earlier other, ListedAt rows attributes earlier other → earlier < place → ¬ holds other
  | none => ∀ place entry, ListedAt rows attributes place entry → ¬ holds entry

/-- Going through all entries in order finds the one declared first. -/
theorem isFirst_find? {holds : β → Prop} [DecidablePred holds] :
    IsFirst rows attributes holds
      ((attributes.flatMap fun held => rows held.info).find? fun entry => holds entry) := by
  rw [← map_snd_placed, List.find?_map]
  cases hfind : (placed rows attributes).find? ((fun entry => decide (holds entry)) ∘ Prod.snd) with
  | none =>
    intro place entry hlisted hholds
    have hnot := List.find?_eq_none.mp hfind (place, entry) (mem_placed_iff.mpr hlisted)
    exact hnot (decide_eq_true hholds)
  | some found =>
    obtain ⟨place, entry⟩ := found
    obtain ⟨hholds, front, back, hsplit, hfront⟩ := List.find?_eq_some_iff_append.mp hfind
    refine ⟨of_decide_eq_true hholds, place, ?_, fun earlier other hlisted hlt hother => ?_⟩
    · rw [← mem_placed_iff, hsplit]
      exact List.mem_append_right front List.mem_cons_self
    · -- An entry that stands earlier is in front of the one found, where nothing was found.
      have hsorted : (front ++ (place, entry) :: back).Pairwise fun entry later =>
          entry.1 < later.1 := by
        rw [← hsplit]
        exact pairwise_placed
      rw [← mem_placed_iff, hsplit] at hlisted
      rcases List.mem_append.mp hlisted with hmem | hmem
      · have hnot := hfront (earlier, other) hmem
        simp [hother] at hnot
      · rcases List.mem_cons.mp hmem with heq | hmem
        · cases heq
          exact Place.lt_irrefl _ hlt
        · obtain ⟨hback, -⟩ := List.pairwise_cons.mp (List.pairwise_append.mp hsorted).2.1
          exact Place.lt_asymm hlt (hback (earlier, other) hmem)

end Attribute

end ClassFormat
