/-
# ClassFormat.Proofs.Code.Lines: the source line of an offset

The entries of line tables need not be sorted, and several may start at one offset.  The line of an
offset is that of the entry that starts last, at or before it, and of several such entries that of
the one declared last.  As long as no two entries start at one offset the order of declaration does
not matter: entries may be exchanged, and moved from one attribute to another.
-/
import ClassFormat.Proofs.Code.Tables
import Mathlib.Data.List.Induction
import Mathlib.Data.List.Nodup

namespace ClassFormat

theorem Place.lt_trichotomy (place other : Place) :
    place < other ∨ place = other ∨ other < place := by
  obtain ⟨part, row⟩ := place
  obtain ⟨otherPart, otherRow⟩ := other
  simp only [lt_iff, Place.mk.injEq]
  omega

namespace Code

open Attribute (ListedAt placed mem_placed_iff)

/-! ## The latest of some entries -/

/-- The entry at a place starts last of all, and of those that start there it is declared last. -/
structure IsLatest (entries : List (Place × LineNumber)) (place : Place) (entry : LineNumber) :
    Prop where
  mem : (place, entry) ∈ entries
  greatest : ∀ other ∈ entries, other.2.startPc ≤ entry.startPc
  last : ∀ other ∈ entries, place < other.1 → other.2.startPc ≠ entry.startPc

namespace IsLatest

variable {entries : List (Place × LineNumber)} {place newPlace : Place} {entry new : LineNumber}

/-- An entry that starts at the same offset or later, and is declared later, is the latest now. -/
theorem replaced (h : IsLatest entries place entry) (hle : entry.startPc ≤ new.startPc)
    (hbehind : ∀ other ∈ entries, other.1 < newPlace) :
    IsLatest (entries ++ [(newPlace, new)]) newPlace new := by
  refine ⟨by simp, ?_, ?_⟩
  · simp only [List.mem_append, List.mem_singleton]
    rintro other (hother | rfl)
    · exact UInt16.le_trans (h.greatest other hother) hle
    · exact UInt16.le_refl _
  · simp only [List.mem_append, List.mem_singleton]
    rintro other (hother | rfl) hlt
    · exact absurd (hbehind other hother) (Place.lt_asymm hlt)
    · exact absurd hlt (Place.lt_irrefl _)

/-- An entry that starts earlier changes nothing. -/
theorem kept (h : IsLatest entries place entry) (hlt : new.startPc < entry.startPc) :
    IsLatest (entries ++ [(newPlace, new)]) place entry := by
  refine ⟨List.mem_append_left _ h.mem, ?_, ?_⟩
  · simp only [List.mem_append, List.mem_singleton]
    rintro other (hother | rfl)
    · exact h.greatest other hother
    · exact UInt16.le_of_lt hlt
  · simp only [List.mem_append, List.mem_singleton]
    rintro other (hother | rfl)
    · exact h.last other hother
    · exact fun _ => UInt16.ne_of_lt hlt

end IsLatest

/-- The loop keeps the latest of the entries it has gone through. -/
theorem foldl_latest {entries : List (Place × LineNumber)}
    (hsorted : entries.Pairwise fun entry later => entry.1 < later.1) (hentries : entries ≠ []) :
    ∃ place entry, (entries.map Prod.snd).foldl latest none = some entry
      ∧ IsLatest entries place entry := by
  induction entries using List.reverseRecOn with
  | nil => exact absurd rfl hentries
  | append_singleton entries last ih =>
    obtain ⟨newPlace, new⟩ := last
    obtain ⟨hfront, -, hbehind⟩ := List.pairwise_append.mp hsorted
    rw [List.map_append, List.foldl_append]
    by_cases hempty : entries = []
    · subst hempty
      refine ⟨newPlace, new, rfl, by simp, ?_, ?_⟩
      · simp
      · simp [Place.lt_irrefl]
    · obtain ⟨place, entry, hfold, hlatest⟩ := ih hfront hempty
      rw [hfold]
      by_cases hle : entry.startPc ≤ new.startPc
      · refine ⟨newPlace, new, if_pos hle, hlatest.replaced hle fun other hother => ?_⟩
        exact hbehind other hother _ List.mem_cons_self
      · exact ⟨place, entry, if_neg hle, hlatest.kept (UInt16.not_le.mp hle)⟩

/-- Entries that start at different offsets may be gone through in any order. -/
theorem latest_right_comm {entry other : LineNumber}
    (h : entry.startPc = other.startPc → entry = other) (best : Option LineNumber) :
    latest (latest best entry) other = latest (latest best other) entry := by
  cases best with
  | none => grind [latest]
  | some best => grind [latest]

/-! ## The line of an offset -/

/-- The entry that tells the line of an offset: it starts at or before the offset, none of those
that do starts later, and none that is declared later starts where it does. -/
structure TellsLine (code : Code) (pc : Nat) (entry : LineNumber) : Prop where
  starts : entry.startPc.toNat ≤ pc
  greatest : ∀ place other, ListedAt AttributeInfo.lines code.attributes place other →
    other.startPc.toNat ≤ pc → other.startPc.toNat ≤ entry.startPc.toNat
  last : ∃ place, ListedAt AttributeInfo.lines code.attributes place entry
    ∧ ∀ later other, ListedAt AttributeInfo.lines code.attributes later other → place < later →
        other.startPc ≠ entry.startPc

/-- One entry at most tells the line of an offset. -/
theorem TellsLine.unique {code : Code} {pc : Nat} {entry other : LineNumber}
    (h : code.TellsLine pc entry) (hother : code.TellsLine pc other) : entry = other := by
  obtain ⟨place, hplace, hlast⟩ := h.last
  obtain ⟨otherPlace, hotherPlace, hotherLast⟩ := hother.last
  have hstart : entry.startPc = other.startPc :=
    UInt16.toNat_inj.mp (Nat.le_antisymm (hother.greatest place entry hplace h.starts)
      (h.greatest otherPlace other hotherPlace hother.starts))
  rcases Place.lt_trichotomy place otherPlace with hlt | rfl | hgt
  · exact absurd hstart.symm (hlast otherPlace other hotherPlace hlt)
  · obtain ⟨held, hheld, hrow⟩ := hplace
    obtain ⟨otherHeld, hotherHeld, hotherRow⟩ := hotherPlace
    obtain rfl := Option.some.inj (hheld.symm.trans hotherHeld)
    exact Option.some.inj (hrow.symm.trans hotherRow)
  · exact absurd hstart (hotherLast place entry hplace hgt)

/-- The entries that start at or before an offset, with their places. -/
def candidates (code : Code) (pc : Nat) : List (Place × LineNumber) :=
  (placed AttributeInfo.lines code.attributes).filter fun entry => entry.2.startPc.toNat ≤ pc

theorem mem_candidates_iff {code : Code} {pc : Nat} {place : Place} {entry : LineNumber} :
    (place, entry) ∈ code.candidates pc
      ↔ ListedAt AttributeInfo.lines code.attributes place entry ∧ entry.startPc.toNat ≤ pc := by
  simp [candidates, mem_placed_iff]

theorem lineAt?_eq (code : Code) (pc : Nat) :
    code.lineAt? pc
      = (((code.candidates pc).map Prod.snd).foldl latest none).map LineNumber.line := by
  have hlines : code.lineNumbers = (placed AttributeInfo.lines code.attributes).map Prod.snd := by
    rw [Attribute.map_snd_placed]
    rfl
  rw [lineAt?, hlines, List.filter_map]
  rfl

/-- The latest of the candidates tells the line. -/
theorem IsLatest.tellsLine {code : Code} {pc : Nat} {place : Place} {entry : LineNumber}
    (h : IsLatest (code.candidates pc) place entry) : code.TellsLine pc entry := by
  obtain ⟨hplace, hstarts⟩ := mem_candidates_iff.mp h.mem
  refine ⟨hstarts, ?_, place, hplace, ?_⟩
  · intro earlier other hlisted hle
    exact UInt16.le_iff_toNat_le.mp
      (h.greatest (earlier, other) (mem_candidates_iff.mpr ⟨hlisted, hle⟩))
  · intro later other hlisted hlt hsame
    exact h.last (later, other) (mem_candidates_iff.mpr ⟨hlisted, hsame ▸ hstarts⟩) hlt hsame

/-- Without a candidate there is no line, and with one there is an entry that tells it. -/
theorem lineAt?_cases (code : Code) (pc : Nat) :
    (code.lineAt? pc = none ∧ code.candidates pc = [])
      ∨ ∃ entry, code.lineAt? pc = some entry.line ∧ code.TellsLine pc entry := by
  rw [lineAt?_eq]
  by_cases hempty : code.candidates pc = []
  · exact .inl ⟨by rw [hempty]; rfl, hempty⟩
  · have hsorted : (code.candidates pc).Pairwise fun entry later => entry.1 < later.1 :=
      Attribute.pairwise_placed.filter _
    obtain ⟨place, entry, hfold, hlatest⟩ := foldl_latest hsorted hempty
    exact .inr ⟨entry, by rw [hfold]; rfl, hlatest.tellsLine⟩

theorem lineAt?_eq_none_iff (code : Code) (pc : Nat) :
    code.lineAt? pc = none ↔ ¬ ∃ place entry,
      ListedAt AttributeInfo.lines code.attributes place entry ∧ entry.startPc.toNat ≤ pc := by
  rcases code.lineAt?_cases pc with ⟨hnone, hempty⟩ | ⟨entry, hline, htells⟩
  · refine iff_of_true hnone ?_
    rintro ⟨place, entry, hcandidate⟩
    rw [← mem_candidates_iff, hempty] at hcandidate
    exact List.not_mem_nil hcandidate
  · obtain ⟨place, hplace, -⟩ := htells.last
    rw [hline]
    refine iff_of_false (Option.some_ne_none entry.line) (not_not_intro ?_)
    exact ⟨place, entry, hplace, htells.starts⟩

theorem lineAt?_eq_some_iff (code : Code) (pc : Nat) (line : UInt16) :
    code.lineAt? pc = some line ↔ ∃ entry, code.TellsLine pc entry ∧ entry.line = line := by
  constructor
  · intro hsome
    rcases code.lineAt?_cases pc with ⟨hnone, -⟩ | ⟨entry, hline, htells⟩
    · rw [hnone] at hsome
      cases hsome
    · exact ⟨entry, htells, Option.some.inj (hline.symm.trans hsome)⟩
  · rintro ⟨entry, htells, rfl⟩
    rcases code.lineAt?_cases pc with ⟨hnone, -⟩ | ⟨found, hline, hfound⟩
    · obtain ⟨place, hplace, -⟩ := htells.last
      exact absurd ⟨place, entry, hplace, htells.starts⟩ ((code.lineAt?_eq_none_iff pc).mp hnone)
    · rw [hline, hfound.unique htells]

/-- Where all entries start at different offsets, only the entries count. -/
theorem lineAt?_of_perm {code other : Code}
    (hdistinct : (code.lineNumbers.map LineNumber.startPc).Nodup)
    (hperm : code.lineNumbers.Perm other.lineNumbers) (pc : Nat) :
    code.lineAt? pc = other.lineAt? pc := by
  have hstarts : ∀ entry ∈ code.lineNumbers, ∀ found ∈ code.lineNumbers,
      entry.startPc = found.startPc → entry = found :=
    fun entry hentry found hfound => List.inj_on_of_nodup_map hdistinct hentry hfound
  have hfilter := hperm.filter fun entry => decide (entry.startPc.toNat ≤ pc)
  apply congrArg (Option.map LineNumber.line)
  apply hfilter.foldl_eq'
  intro entry hentry found hfound best
  exact latest_right_comm (hstarts entry (List.mem_filter.mp hentry).1 found
    (List.mem_filter.mp hfound).1) best

/-- The line of an offset is unknown only if every entry starts behind it, and otherwise it is the
line of the entry that tells it.  If all entries start at different offsets, any other body that has
the same entries gives the same lines, in whatever order they are and in whatever attributes. -/
theorem lineAt?_by_entries (code : Code) :
    (∀ pc, code.lineAt? pc = none ↔ ¬ ∃ place entry,
        ListedAt AttributeInfo.lines code.attributes place entry ∧ entry.startPc.toNat ≤ pc)
      ∧ (∀ pc line, code.lineAt? pc = some line
          ↔ ∃ entry, code.TellsLine pc entry ∧ entry.line = line)
      ∧ ((code.lineNumbers.map LineNumber.startPc).Nodup → ∀ other : Code,
          code.lineNumbers.Perm other.lineNumbers → ∀ pc, code.lineAt? pc = other.lineAt? pc) :=
  ⟨code.lineAt?_eq_none_iff, code.lineAt?_eq_some_iff,
    fun hdistinct _ hperm => lineAt?_of_perm hdistinct hperm⟩

/-- Three lines in the order of their offsets. -/
def sortedLines : Code :=
  ⟨0, 0, [0xb1], [], [⟨1, .lineNumberTable [⟨0, 7⟩, ⟨2, 8⟩, ⟨4, 9⟩]⟩]⟩

/-- The same lines in two tables, backwards, with another attribute between them. -/
def scatteredLines : Code :=
  ⟨0, 0, [0xb1], [], [⟨1, .lineNumberTable [⟨4, 9⟩]⟩, ⟨2, .synthetic⟩,
    ⟨1, .lineNumberTable [⟨2, 8⟩, ⟨0, 7⟩]⟩]⟩

theorem lineAt?_by_entries_scattered :
    (sortedLines.lineNumbers.map LineNumber.startPc).Nodup
      ∧ (∀ pc, sortedLines.lineAt? pc = scatteredLines.lineAt? pc)
      ∧ scatteredLines.lineAt? 3 = some 8 := by
  have hdistinct : (sortedLines.lineNumbers.map LineNumber.startPc).Nodup := by decide
  have hperm : sortedLines.lineNumbers.Perm scatteredLines.lineNumbers := by decide
  exact ⟨hdistinct, (lineAt?_by_entries sortedLines).2.2 hdistinct scatteredLines hperm, by decide⟩

end Code

end ClassFormat
