/-
# ClassFormat.Proofs.Loading.Order: in which order the selected entries are loaded

Selected entries are loaded in the order of the places where they are due.  An entry that is no
version of a class is due where it stands, and a version used in place of an entry is due where that
entry stands.

For a class that has versions and no entry of its own there are two places to think of: where the
first of its versions stands, and where the version that is used stands.  The selection goes by the
second.  The two are different as soon as a newer version stands behind an older one, and then
another entry can stand between them.
-/
import ClassFormat.Proofs.Loading.Selection

namespace ClassFormat.Loading

/-! ## Where an entry is due -/

/-- Where the entry at a position is due among those that are loaded, when a version of a class that
has no entry of its own is due at the place that `alone` has for the class. -/
inductive Due (names : List String) (alone : (path : String) → (place : Nat) → Prop) :
    (position place : Nat) → Prop
  | itself {position : Nat} {name : String} (hname : names[position]? = some name)
      (hplain : ¬ IsVersionedClass name) : Due names alone position position
  | inPlace {position place release : Nat} {name path : String}
      (hname : names[position]? = some name) (hversion : IsVersion release path name)
      (hclass : IsClassPath path) (hplace : names[place]? = some path) :
      Due names alone position place
  | alone {position place release : Nat} {name path : String}
      (hname : names[position]? = some name) (hversion : IsVersion release path name)
      (hclass : IsClassPath path) (habsent : path ∉ names) (hplace : alone path place) :
      Due names alone position place

/-- The first of the versions of a path that the target allows stands at a place. -/
structure IsFirstSeen (names : List String) (target : Option Nat) (path : String) (place : Nat) :
    Prop where
  candidate : ∃ release, Candidate names target path place release
  first : ∀ other release, Candidate names target path other release → place ≤ other

/-- The newest of the versions of a path that the target allows stands at a place. -/
def NewestAt (names : List String) (target : Option Nat) (path : String) (place : Nat) : Prop :=
  ∃ release, IsNewest names target path place release

section Order

variable {names : List String} {target : Option Nat}

theorem NewestAt.unique {path : String} {place other : Nat} (h : NewestAt names target path place)
    (hother : NewestAt names target path other) : place = other := by
  obtain ⟨release, hnewest⟩ := h
  obtain ⟨later, hlater⟩ := hother
  obtain rfl : release = later :=
    Nat.le_antisymm (hlater.greatest place release hnewest.candidate)
      (hnewest.greatest other later hlater.candidate)
  exact Nat.le_antisymm (hnewest.first other hlater.candidate)
    (hlater.first place hnewest.candidate)

/-- What is used for a path is the newest of its versions. -/
theorem newestAt_of_bestVersion? {path : String} {position : Nat}
    (h : bestVersion? names target path = some position) : NewestAt names target path position := by
  rcases bestVersion?_spec names target path with ⟨found, release, hfound, -, hnewest⟩ | ⟨hnone, -⟩
  · rw [h] at hfound
    cases hfound
    exact ⟨release, hnewest⟩
  · rw [h] at hnone
    cases hnone

namespace Due

variable {alone : String → Nat → Prop} {position place other release : Nat} {name path : String}

theorem eq_of_plain (h : Due names alone position place) (hname : names[position]? = some name)
    (hplain : ¬ IsVersionedClass name) : place = position := by
  cases h with
  | itself => rfl
  | inPlace hfound hversion hclass | alone hfound hversion hclass =>
    obtain rfl := Option.some.inj (hname.symm.trans hfound)
    exact absurd ⟨_, _, hversion, hclass⟩ hplain

/-- A version is due where its class has an entry, or at the place for classes that have none. -/
theorem of_version (h : Due names alone position place) (hname : names[position]? = some name)
    (hversion : IsVersion release path name) (hclass : IsClassPath path) :
    names[place]? = some path ∨ path ∉ names ∧ alone path place := by
  cases h with
  | itself hfound hplain =>
    obtain rfl := Option.some.inj (hname.symm.trans hfound)
    exact absurd ⟨_, _, hversion, hclass⟩ hplain
  | inPlace hfound hversion' hclass' hplace =>
    obtain rfl := Option.some.inj (hname.symm.trans hfound)
    obtain ⟨-, rfl⟩ := hversion.unique hclass.ne_empty hclass'.ne_empty hversion'
    exact .inl hplace
  | alone hfound hversion' hclass' habsent hplace =>
    obtain rfl := Option.some.inj (hname.symm.trans hfound)
    obtain ⟨-, rfl⟩ := hversion.unique hclass.ne_empty hclass'.ne_empty hversion'
    exact .inr ⟨habsent, hplace⟩

/-- An entry is due at one place at most, if a class without an entry of its own has one at most. -/
theorem unique (hnames : names.Nodup)
    (halone : ∀ path place other, alone path place → alone path other → place = other)
    (h : Due names alone position place) (hother : Due names alone position other) :
    place = other := by
  cases h with
  | itself hname hplain => exact (hother.eq_of_plain hname hplain).symm
  | inPlace hname hversion hclass hplace =>
    rcases hother.of_version hname hversion hclass with hplace' | ⟨habsent, -⟩
    · have hlength := (List.getElem?_eq_some_iff.mp hplace).1
      exact (List.getElem?_inj hlength hnames).mp (hplace.trans hplace'.symm)
    · exact absurd (List.mem_of_getElem? hplace) habsent
  | alone hname hversion hclass habsent hplace =>
    rcases hother.of_version hname hversion hclass with hplace' | ⟨-, hplace'⟩
    · exact absurd (List.mem_of_getElem? hplace') habsent
    · exact halone _ _ _ hplace hplace'

end Due

/-- What is selected at the place of an entry is due there. -/
theorem Stands.due {place position : Nat} (h : Stands names target place position) :
    Due names (NewestAt names target) position place := by
  cases h with
  | alone hname hversion hclass habsent hbest =>
    exact .alone hname hversion hclass habsent (newestAt_of_bestVersion? hbest)
  | itself hname hplain _ => exact .itself hname hplain
  | replaced hplace _ hbest =>
    obtain ⟨hclass, name, release, hname, hversion⟩ := isVersion_of_bestVersion? hbest
    exact .inPlace hname hversion hclass hplace

/-! ## The order of the selection -/

theorem pairwise_zipIdx {α : Type} (xs : List α) :
    xs.zipIdx.Pairwise fun before behind => before.2 < behind.2 := by
  rw [← List.pairwise_map (f := Prod.snd) (R := (· < ·)), List.zipIdx_map_snd]
  exact List.pairwise_lt_range'

/-- The entries selected from an archive with different entries are each due at one place, and they
are in the order of these places.  A version of a class without an entry of its own is due where it
stands itself. -/
theorem selectEntries_pairwise_due (names : List String) (target : Option Nat)
    (hnames : names.Nodup) :
    (∀ position ∈ selectEntries names true target,
        ∃! place, Due names (NewestAt names target) position place)
      ∧ (selectEntries names true target).Pairwise fun first second =>
          ∀ place later, Due names (NewestAt names target) first place →
            Due names (NewestAt names target) second later → place < later := by
  have hunique : ∀ {position place other : Nat}, Due names (NewestAt names target) position place →
      Due names (NewestAt names target) position other → place = other := fun h hother =>
    h.unique hnames (fun _ _ _ hplace => hplace.unique) hother
  refine ⟨fun position hposition => ?_, ?_⟩
  · obtain ⟨place, hplace⟩ := mem_selectEntries_iff.mp hposition
    exact ⟨place, hplace.due, fun other hother => hunique hother hplace.due⟩
  · rw [selectEntries, if_pos rfl]
    refine List.pairwise_filterMap.mpr ((pairwise_zipIdx names).imp_of_mem ?_)
    rintro ⟨name, first⟩ ⟨other, second⟩ hmem hmem' hlt position h position' h' place later hdue hdue'
    have hname : names[first]? = some name := List.mem_zipIdx_iff_getElem?.mp hmem
    have hother : names[second]? = some other := List.mem_zipIdx_iff_getElem?.mp hmem'
    have hstands := (replacement?_eq_some_iff hname).mp h
    have hstands' := (replacement?_eq_some_iff hother).mp h'
    rw [hunique hdue hstands.due, hunique hdue' hstands'.due]
    exact hlt

end Order

/-- Two versions of one class with a version of another between them, and no other entries. -/
def interleavedEntries : List String :=
  ["META-INF/versions/9/a.class", "META-INF/versions/9/b.class", "META-INF/versions/11/a.class"]

theorem selectEntries_pairwise_due_interleaved :
    interleavedEntries.Nodup ∧ selectEntries interleavedEntries true none = [1, 2]
      ∧ [1, 2].Pairwise fun first second => ∀ place later,
          Due interleavedEntries (NewestAt interleavedEntries none) first place →
            Due interleavedEntries (NewestAt interleavedEntries none) second later →
              place < later := by
  have hnames : interleavedEntries.Nodup := by decide
  have hselected : selectEntries interleavedEntries true none = [1, 2] := by decide +kernel
  have h := (selectEntries_pairwise_due interleavedEntries none hnames).2
  rw [hselected] at h
  exact ⟨hnames, hselected, h⟩

theorem isVersion_interleaved :
    IsVersion 9 "a.class" "META-INF/versions/9/a.class"
      ∧ IsVersion 9 "b.class" "META-INF/versions/9/b.class"
      ∧ IsVersion 11 "a.class" "META-INF/versions/11/a.class" := by
  have hversion : ∀ {name path : String} {release : Nat},
      versioned? name = some (release, path) → IsVersion release path name :=
    fun h => (versioned?_eq_some_iff.mp h).1
  exact ⟨hversion (by decide +kernel), hversion (by decide +kernel), hversion (by decide +kernel)⟩

/-- The class that is seen first is used in its newer version, which stands last. -/
theorem isFirstSeen_interleaved :
    IsFirstSeen interleavedEntries none "a.class" 0
      ∧ IsFirstSeen interleavedEntries none "b.class" 1 := by
  obtain ⟨ha, hb, -⟩ := isVersion_interleaved
  refine ⟨⟨⟨9, ⟨_, rfl, ha⟩, by simp⟩, fun other _ _ => Nat.zero_le other⟩,
    ⟨⟨9, ⟨_, rfl, hb⟩, by simp⟩, ?_⟩⟩
  rintro (_ | other) release ⟨⟨name, hname, hversion⟩, -⟩
  · cases hname
    exact absurd (ha.unique (by decide) (by decide) hversion).2 (by decide)
  · exact Nat.succ_le_succ (Nat.zero_le other)

/-- The selection does not go by the places where classes are seen first. -/
theorem not_pairwise_due_firstSeen :
    ¬ (selectEntries interleavedEntries true none).Pairwise fun first second => ∀ place later,
        Due interleavedEntries (IsFirstSeen interleavedEntries none) first place →
          Due interleavedEntries (IsFirstSeen interleavedEntries none) second later →
            place < later := by
  have hclass : ∀ {path : String}, ".class".toList.isSuffixOf path.toList = true →
      IsClassPath path := List.isSuffixOf_iff_suffix.mp
  obtain ⟨-, hb, hnewer⟩ := isVersion_interleaved
  obtain ⟨hfirst, hsecond⟩ := isFirstSeen_interleaved
  have hdue : Due interleavedEntries (IsFirstSeen interleavedEntries none) 1 1 :=
    .alone rfl hb (hclass (by decide +kernel)) (by decide) hsecond
  have hdue' : Due interleavedEntries (IsFirstSeen interleavedEntries none) 2 0 :=
    .alone rfl hnewer (hclass (by decide +kernel)) (by decide) hfirst
  have hselected : selectEntries interleavedEntries true none = [1, 2] := by decide +kernel
  rw [hselected]
  intro hpairwise
  obtain ⟨hahead, -⟩ := List.pairwise_cons.mp hpairwise
  exact Nat.not_lt_zero 1 (hahead 2 List.mem_cons_self 1 0 hdue hdue')

end ClassFormat.Loading
