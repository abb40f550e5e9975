/-
# ClassFormat.Proofs.Loading.Selection: which version of a class is loaded

The names of versioned entries are described as they are written, and the choice among the versions
of a path as the first of those with the greatest release.  From these follows what the list of
selected positions holds for every path, and that it holds no position twice: a version is selected
either where the entry it replaces stands or, without such an entry, where it stands itself.
-/
import ClassFormat.Loading.MultiRelease
import Mathlib.Data.List.Nodup
import Mathlib.Data.List.Infix

namespace ClassFormat.Loading

/-! ## Names of versions -/

/-- The name is that of a version of a path: the versions folder, a release in decimal, a slash and
the path. -/
def IsVersion (release : Nat) (path name : String) : Prop :=
  ∃ number, word16? number = some release
    ∧ name.toList = versionsFolder.toList ++ (number ++ '/' :: path.toList)

/-- The path ends like that of a class. -/
def IsClassPath (path : String) : Prop := ".class".toList <:+ path.toList

/-- The path is not itself that of a version of anything. -/
def IsBase (path : String) : Prop := ∀ release inner, inner ≠ "" → ¬ IsVersion release inner path

theorem isDigit_of_foldlM {digits : List Char} {start value : Nat}
    (h : digits.foldlM appendDigit? start = some value) : ∀ c ∈ digits, c.isDigit := by
  induction digits generalizing start with
  | nil => simp
  | cons c digits ih =>
    rw [List.foldlM_cons] at h
    obtain ⟨next, hnext, hrest⟩ := Option.bind_eq_some_iff.mp h
    refine List.forall_mem_cons.mpr ⟨?_, ih hrest⟩
    by_contra hc
    rw [appendDigit?, if_neg hc] at hnext
    cases hnext

/-- A number has no slash in it. -/
theorem slash_not_mem_of_word16? {number : List Char} {release : Nat}
    (h : word16? number = some release) : '/' ∉ number := by
  have hdigits : ∀ digits value, digitsValue? digits = some value → '/' ∉ digits := by
    intro digits value hvalue hmem
    unfold digitsValue? at hvalue
    split at hvalue
    · cases hvalue
    · exact absurd (isDigit_of_foldlM hvalue _ hmem) (by decide)
  unfold word16? at h
  split at h
  · obtain ⟨hvalue, -⟩ := Option.filter_eq_some_iff.mp h
    simpa using hdigits _ _ hvalue
  · obtain ⟨hvalue, -⟩ := Option.filter_eq_some_iff.mp h
    exact hdigits _ _ hvalue

theorem after?_eq_some_iff {front text rest : List Char} :
    after? front text = some rest ↔ text = front ++ rest := by
  unfold after?
  split
  · rename_i hprefix
    obtain ⟨tail, rfl⟩ := List.isPrefixOf_iff_prefix.mp hprefix
    simp
  · rename_i hprefix
    refine ⟨fun h => (nomatch h), ?_⟩
    rintro rfl
    exact absurd (List.isPrefixOf_iff_prefix.mpr (List.prefix_append front rest)) hprefix

/-- The release and the path of a versioned entry are those its name is written with. -/
theorem versioned?_eq_some_iff {name path : String} {release : Nat} :
    versioned? name = some (release, path) ↔ IsVersion release path name ∧ path ≠ "" := by
  constructor
  · intro h
    obtain ⟨rest, hrest, h⟩ := Option.bind_eq_some_iff.mp h
    obtain ⟨⟨number, tail⟩, hsplit, h⟩ := Option.bind_eq_some_iff.mp h
    obtain ⟨value, hvalue, h⟩ := Option.bind_eq_some_iff.mp h
    split at h
    · cases h
    · rename_i htail
      cases h
      refine ⟨⟨number, hvalue, ?_⟩, ?_⟩
      · rw [after?_eq_some_iff.mp hrest, (Text.eq_of_splitFirst? hsplit).1, String.toList_ofList]
      · intro hempty
        apply htail
        have := congrArg String.toList hempty
        simpa using this
  · rintro ⟨⟨number, hnumber, hname⟩, hpath⟩
    have hrest := after?_eq_some_iff.mpr hname
    have hsplit : Text.splitFirst? '/' (number ++ '/' :: path.toList)
        = some (number, path.toList) :=
      Text.splitFirst?_append (slash_not_mem_of_word16? hnumber)
    simp [versioned?, hrest, hsplit, hnumber, hpath]

theorem IsClassPath.ne_empty {path : String} (h : IsClassPath path) : path ≠ "" := by
  rintro rfl
  exact absurd (List.eq_nil_of_suffix_nil h) (by decide)

theorem versionedClass?_eq_some_iff {name path : String} {release : Nat} :
    versionedClass? name = some (release, path)
      ↔ IsVersion release path name ∧ IsClassPath path := by
  rw [versionedClass?, Option.filter_eq_some_iff, versioned?_eq_some_iff,
    List.isSuffixOf_iff_suffix]
  constructor
  · rintro ⟨⟨hversion, -⟩, hclass⟩
    exact ⟨hversion, hclass⟩
  · rintro ⟨hversion, hclass⟩
    exact ⟨⟨hversion, hclass.ne_empty⟩, hclass⟩

/-- A name is that of a version in one way only. -/
theorem IsVersion.unique {name path other : String} {release later : Nat}
    (hpath : path ≠ "") (hother : other ≠ "") (h : IsVersion release path name)
    (h' : IsVersion later other name) : release = later ∧ path = other := by
  have hsame : some (release, path) = some (later, other) := by
    rw [← versioned?_eq_some_iff.mpr ⟨h, hpath⟩, versioned?_eq_some_iff.mpr ⟨h', hother⟩]
  simpa using hsame

/-! ## The newest version -/

/-- The entry at a position is a version of a path, for a release that the target allows. -/
def Candidate (names : List String) (target : Option Nat) (path : String)
    (position release : Nat) : Prop :=
  (∃ name, names[position]? = some name ∧ IsVersion release path name)
    ∧ ∀ bound ∈ target, release ≤ bound

/-- The entry at a position is the first of the versions of a path with the greatest release that
the target allows. -/
structure IsNewest (names : List String) (target : Option Nat) (path : String)
    (position release : Nat) : Prop where
  candidate : Candidate names target path position release
  greatest : ∀ other later, Candidate names target path other later → later ≤ release
  first : ∀ other, Candidate names target path other release → position ≤ other

theorem qualifies_iff {target : Option Nat} {release : Nat} :
    qualifies target release = true ↔ ∀ bound ∈ target, release ≤ bound := by
  cases target <;> simp [qualifies]

theorem candidate?_eq_some_iff {target : Option Nat} {path name : String} {release : Nat} :
    candidate? target path name = some release
      ↔ (IsVersion release path name ∧ IsClassPath path) ∧ ∀ bound ∈ target, release ≤ bound := by
  rw [← versionedClass?_eq_some_iff, ← qualifies_iff]
  unfold candidate?
  cases versionedClass? name with
  | none => simp
  | some found =>
    obtain ⟨held, other⟩ := found
    show (if other = path ∧ qualifies target held then some held else none) = some release ↔ _
    rw [Option.ite_none_right_eq_some]
    constructor
    · rintro ⟨⟨rfl, hqualifies⟩, hrelease⟩
      cases hrelease
      exact ⟨rfl, hqualifies⟩
    · rintro ⟨hfound, hqualifies⟩
      cases hfound
      exact ⟨⟨rfl, hqualifies⟩, rfl⟩

/-- The best entry so far, when the entries have been seen up to some name. -/
def bestUpTo (rank : String → Option Nat) (names : List String) : Option (Nat × Nat) :=
  names.zipIdx.foldl (fun best (name, position) =>
    match rank name with
    | some release => newer best release position
    | none => best) none

theorem bestUpTo_append (rank : String → Option Nat) (names : List String) (name : String) :
    bestUpTo rank (names ++ [name])
      = match rank name with
        | some release => newer (bestUpTo rank names) release names.length
        | none => bestUpTo rank names := by
  simp [bestUpTo, List.zipIdx_append]

/-- Of the entries that have a rank the first with the greatest. -/
structure IsFirstGreatest (rank : String → Option Nat) (names : List String)
    (position release : Nat) : Prop where
  held : ∃ name, names[position]? = some name ∧ rank name = some release
  greatest : ∀ (other : Nat) (name : String) (later : Nat), names[other]? = some name →
    rank name = some later → later ≤ release
  first : ∀ (other : Nat) (name : String), names[other]? = some name →
    rank name = some release → position ≤ other

/-- Appended entries have the position behind all others. -/
theorem getElem?_append_singleton {names : List String} {name found : String} {position : Nat} :
    (names ++ [name])[position]? = some found
      ↔ names[position]? = some found ∨ (position = names.length ∧ name = found) := by
  rcases Nat.lt_trichotomy position names.length with hlt | rfl | hgt
  · rw [List.getElem?_append_left hlt]
    simp [Nat.ne_of_lt hlt]
  · simp
  · rw [List.getElem?_eq_none (by simp; omega), List.getElem?_eq_none (by omega)]
    simp [Nat.ne_of_gt hgt]

namespace IsFirstGreatest

variable {rank : String → Option Nat} {names : List String} {name : String}
  {position release : Nat}

/-- An entry behind the others that ranks no higher changes nothing. -/
theorem append_lower (h : IsFirstGreatest rank names position release)
    (hname : ∀ later, rank name = some later → later ≤ release) :
    IsFirstGreatest rank (names ++ [name]) position release := by
  obtain ⟨⟨held, hheld, hrank⟩, hgreatest, hfirst⟩ := h
  refine ⟨⟨held, getElem?_append_singleton.mpr (.inl hheld), hrank⟩, ?_, ?_⟩
  · intro other found later hfound hlater
    rcases getElem?_append_singleton.mp hfound with hold | ⟨-, rfl⟩
    · exact hgreatest other found later hold hlater
    · exact hname later hlater
  · intro other found hfound hsame
    rcases getElem?_append_singleton.mp hfound with hold | ⟨rfl, -⟩
    · exact hfirst other found hold hsame
    · exact (List.getElem?_eq_some_iff.mp hheld).1.le

/-- An entry behind the others that ranks above all of them takes their place. -/
theorem append_higher (hname : rank name = some release)
    (hlower : ∀ found ∈ names, ∀ later, rank found = some later → later < release) :
    IsFirstGreatest rank (names ++ [name]) names.length release := by
  refine ⟨⟨name, getElem?_append_singleton.mpr (.inr ⟨rfl, rfl⟩), hname⟩, ?_, ?_⟩
  · intro other found later hfound hlater
    rcases getElem?_append_singleton.mp hfound with hold | ⟨-, rfl⟩
    · exact (hlower found (List.mem_of_getElem? hold) later hlater).le
    · rw [hname] at hlater
      cases hlater
      exact le_rfl
  · intro other found hfound hsame
    rcases getElem?_append_singleton.mp hfound with hold | ⟨rfl, -⟩
    · exact absurd (hlower found (List.mem_of_getElem? hold) release hsame) (lt_irrefl release)
    · exact le_rfl

end IsFirstGreatest

/-- What the entries seen so far say about the best of them. -/
def BestSpec (rank : String → Option Nat) (names : List String) : Option (Nat × Nat) → Prop
  | none => ∀ name ∈ names, rank name = none
  | some (release, position) => IsFirstGreatest rank names position release

theorem bestUpTo_spec (rank : String → Option Nat) (names : List String) :
    BestSpec rank names (bestUpTo rank names) := by
  induction names using List.reverseRecOn with
  | nil => simp [bestUpTo, BestSpec]
  | append_singleton names name ih =>
    rw [bestUpTo_append]
    cases hbest : bestUpTo rank names with
    | none =>
      rw [hbest] at ih
      cases hname : rank name with
      | none =>
        intro found hfound
        rcases List.mem_append.mp hfound with hold | hnew
        · exact ih found hold
        · rw [List.mem_singleton.mp hnew, hname]
      | some release =>
        refine IsFirstGreatest.append_higher hname fun found hfound later hlater => ?_
        rw [ih found hfound] at hlater
        cases hlater
    | some best =>
      obtain ⟨held, position⟩ := best
      rw [hbest] at ih
      cases hname : rank name with
      | none =>
        refine IsFirstGreatest.append_lower ih fun later hlater => ?_
        rw [hname] at hlater
        cases hlater
      | some release =>
        by_cases hnewer : held < release
        · have hlower : ∀ found ∈ names, ∀ later, rank found = some later → later < release := by
            intro found hfound later hlater
            obtain ⟨other, hother⟩ := List.mem_iff_getElem?.mp hfound
            exact (ih.greatest other found later hother hlater).trans_lt hnewer
          show BestSpec rank _ (newer (some (held, position)) release names.length)
          rw [newer, if_pos hnewer]
          exact IsFirstGreatest.append_higher hname hlower
        · have hlower : ∀ later, rank name = some later → later ≤ held := by
            intro later hlater
            rw [hname] at hlater
            cases hlater
            exact Nat.le_of_not_lt hnewer
          show BestSpec rank _ (newer (some (held, position)) release names.length)
          rw [newer, if_neg hnewer]
          exact IsFirstGreatest.append_lower ih hlower

theorem candidate_iff {names : List String} {target : Option Nat} {path : String}
    {position release : Nat} (hpath : IsClassPath path) :
    Candidate names target path position release
      ↔ ∃ name, names[position]? = some name ∧ candidate? target path name = some release := by
  constructor
  · rintro ⟨⟨name, hname, hversion⟩, hbound⟩
    exact ⟨name, hname, candidate?_eq_some_iff.mpr ⟨⟨hversion, hpath⟩, hbound⟩⟩
  · rintro ⟨name, hname, hcandidate⟩
    obtain ⟨⟨hversion, -⟩, hbound⟩ := candidate?_eq_some_iff.mp hcandidate
    exact ⟨⟨name, hname, hversion⟩, hbound⟩

theorem IsFirstGreatest.isNewest {names : List String} {target : Option Nat} {path : String}
    {position release : Nat} (hpath : IsClassPath path)
    (h : IsFirstGreatest (candidate? target path) names position release) :
    IsNewest names target path position release where
  candidate := (candidate_iff hpath).mpr h.held
  greatest := by
    intro other later hother
    obtain ⟨name, hname, hcandidate⟩ := (candidate_iff hpath).mp hother
    exact h.greatest other name later hname hcandidate
  first := by
    intro other hother
    obtain ⟨name, hname, hcandidate⟩ := (candidate_iff hpath).mp hother
    exact h.first other name hname hcandidate

/-- The newest version of a class path is used, and nothing for any other path. -/
theorem bestVersion?_spec (names : List String) (target : Option Nat) (path : String) :
    (∃ position release, bestVersion? names target path = some position
        ∧ IsClassPath path ∧ IsNewest names target path position release)
      ∨ bestVersion? names target path = none
        ∧ (IsClassPath path →
            ∀ position release, ¬ Candidate names target path position release) := by
  have hspec := bestUpTo_spec (candidate? target path) names
  have hbest : bestVersion? names target path
      = (bestUpTo (candidate? target path) names).map Prod.snd := rfl
  rw [hbest]
  cases h : bestUpTo (candidate? target path) names with
  | none =>
    rw [h] at hspec
    refine .inr ⟨rfl, fun hpath position release hcandidate => ?_⟩
    obtain ⟨name, hname, hrank⟩ := (candidate_iff hpath).mp hcandidate
    rw [hspec name (List.mem_of_getElem? hname)] at hrank
    cases hrank
  | some best =>
    obtain ⟨release, position⟩ := best
    rw [h] at hspec
    have hpath : IsClassPath path := by
      obtain ⟨name, -, hcandidate⟩ := hspec.held
      exact (candidate?_eq_some_iff.mp hcandidate).1.2
    exact .inl ⟨position, release, rfl, hpath, hspec.isNewest hpath⟩

/-- What is used for a path is a version of it. -/
theorem isVersion_of_bestVersion? {names : List String} {target : Option Nat} {path : String}
    {position : Nat} (h : bestVersion? names target path = some position) :
    IsClassPath path
      ∧ ∃ name release, names[position]? = some name ∧ IsVersion release path name := by
  rcases bestVersion?_spec names target path
    with ⟨found, release, hfound, hpath, hnewest⟩ | ⟨hnone, -⟩
  · rw [h] at hfound
    cases hfound
    obtain ⟨⟨name, hname, hversion⟩, -⟩ := hnewest.candidate
    exact ⟨hpath, name, release, hname, hversion⟩
  · rw [h] at hnone
    cases hnone

/-! ## Places in the selection -/

/-- The name is that of a version of a class. -/
def IsVersionedClass (name : String) : Prop :=
  ∃ release path, IsVersion release path name ∧ IsClassPath path

theorem IsBase.not_isVersionedClass {path : String} (h : IsBase path) : ¬ IsVersionedClass path :=
  fun ⟨release, inner, hversion, hclass⟩ => h release inner hclass.ne_empty hversion

/-- A version of something that ends like a class is a version of a class. -/
theorem IsVersion.isClassPath {release : Nat} {path name : String}
    (h : IsVersion release path name) (hname : IsClassPath name) : IsClassPath path := by
  obtain ⟨number, -, hlist⟩ := h
  have hslash : '/' ∉ ".class".toList := by decide
  have hbehind : '/' :: path.toList <:+ name.toList := by
    rw [hlist, ← List.append_assoc]
    exact List.suffix_append _ _
  rcases List.suffix_or_suffix_of_suffix hname hbehind with hshort | hlong
  · rcases List.suffix_cons_iff.mp hshort with hwhole | hpath
    · exact absurd (hwhole ▸ List.mem_cons_self) hslash
    · exact hpath
  · exact absurd (hlong.subset List.mem_cons_self) hslash

/-- What is selected at the place of an entry. -/
inductive Stands (names : List String) (target : Option Nat) : (place position : Nat) → Prop
  /-- The version used for a class that has no entry of its own. -/
  | alone {place : Nat} {name path : String} {release : Nat} (hname : names[place]? = some name)
      (hversion : IsVersion release path name) (hclass : IsClassPath path) (habsent : path ∉ names)
      (hbest : bestVersion? names target path = some place) : Stands names target place place
  /-- An entry that is no version of a class and has none. -/
  | itself {place : Nat} {name : String} (hname : names[place]? = some name)
      (hplain : ¬ IsVersionedClass name) (hbest : bestVersion? names target name = none) :
      Stands names target place place
  /-- The version used in place of an entry. -/
  | replaced {place position : Nat} {name : String} (hname : names[place]? = some name)
      (hplain : ¬ IsVersionedClass name) (hbest : bestVersion? names target name = some position) :
      Stands names target place position

theorem replacement?_eq_some_iff {names : List String} {target : Option Nat} {name : String}
    {place position : Nat} (hname : names[place]? = some name) :
    replacement? names target name place = some position ↔ Stands names target place position := by
  have hsame : ∀ found, names[place]? = some found → found = name := by
    intro found hfound
    rw [hname] at hfound
    exact (Option.some.inj hfound).symm
  unfold replacement?
  cases hversion : versionedClass? name with
  | none =>
    have hplain : ¬ IsVersionedClass name := by
      rintro ⟨release, path, h⟩
      rw [versionedClass?_eq_some_iff.mpr h] at hversion
      cases hversion
    constructor
    · intro h
      cases hbest : bestVersion? names target name with
      | none =>
        rw [hbest] at h
        cases h
        exact .itself hname hplain hbest
      | some found =>
        rw [hbest] at h
        cases h
        exact .replaced hname hplain hbest
    · intro h
      cases h with
      | alone hfound hpath hclass _ _ =>
        rw [hsame _ hfound] at hpath
        exact absurd ⟨_, _, hpath, hclass⟩ hplain
      | itself hfound _ hbest => simp [← hsame _ hfound, hbest]
      | replaced hfound _ hbest => simp [← hsame _ hfound, hbest]
  | some found =>
    obtain ⟨release, path⟩ := found
    obtain ⟨hpath, hclass⟩ := versionedClass?_eq_some_iff.mp hversion
    have hversioned : IsVersionedClass name := ⟨release, path, hpath, hclass⟩
    show (if bestVersion? names target path = some place ∧ (!names.contains path) = true
      then some place else none) = some position ↔ _
    rw [Option.ite_none_right_eq_some]
    constructor
    · rintro ⟨⟨hbest, habsent⟩, hplace⟩
      cases hplace
      exact .alone hname hpath hclass (by simpa using habsent) hbest
    · intro h
      cases h with
      | alone hfound hother hclass' habsent hbest =>
        rw [hsame _ hfound] at hother
        obtain ⟨-, rfl⟩ := hpath.unique hclass.ne_empty hclass'.ne_empty hother
        exact ⟨⟨hbest, by simpa using habsent⟩, rfl⟩
      | itself hfound hplain _ => exact absurd (hsame _ hfound ▸ hversioned) hplain
      | replaced hfound hplain _ => exact absurd (hsame _ hfound ▸ hversioned) hplain

theorem mem_selectEntries_iff {names : List String} {target : Option Nat} {position : Nat} :
    position ∈ selectEntries names true target ↔ ∃ place, Stands names target place position := by
  rw [selectEntries, if_pos rfl, List.mem_filterMap]
  constructor
  · rintro ⟨⟨name, place⟩, hmem, h⟩
    have hname := List.mem_zipIdx_iff_getElem?.mp hmem
    exact ⟨place, (replacement?_eq_some_iff hname).mp h⟩
  · rintro ⟨place, h⟩
    obtain ⟨name, hname⟩ : ∃ name, names[place]? = some name := by
      cases h with
      | alone hname | itself hname | replaced hname => exact ⟨_, hname⟩
    exact ⟨(name, place), List.mem_zipIdx_iff_getElem?.mpr hname,
      (replacement?_eq_some_iff hname).mpr h⟩

namespace Stands

variable {names : List String} {target : Option Nat} {place position : Nat}

theorem exists_name (h : Stands names target place position) :
    ∃ name, names[position]? = some name := by
  cases h with
  | alone hname | itself hname => exact ⟨_, hname⟩
  | replaced _ _ hbest =>
    obtain ⟨-, name, -, hname, -⟩ := isVersion_of_bestVersion? hbest
    exact ⟨name, hname⟩

/-- A version of a class is selected only if it is the one used for the class, and then where the
entry of the class stands or, without one, where it stands itself. -/
theorem of_version (h : Stands names target place position) {name path : String} {release : Nat}
    (hname : names[position]? = some name) (hversion : IsVersion release path name)
    (hclass : IsClassPath path) :
    bestVersion? names target path = some position
      ∧ (names[place]? = some path ∨ path ∉ names ∧ place = position) := by
  have hunique : ∀ {other found : String} {later : Nat}, names[position]? = some found →
      IsVersion later other found → IsClassPath other → other = path := by
    intro other found later hfound hother hclass'
    rw [hname] at hfound
    cases hfound
    exact (hother.unique hclass'.ne_empty hclass.ne_empty hversion).2
  cases h with
  | alone hfound hother hclass' habsent hbest =>
    obtain rfl := hunique hfound hother hclass'
    exact ⟨hbest, .inr ⟨habsent, rfl⟩⟩
  | itself hfound hplain _ =>
    rw [hname] at hfound
    cases hfound
    exact absurd ⟨release, path, hversion, hclass⟩ hplain
  | replaced hplace _ hbest =>
    obtain ⟨hclass', found, later, hfound, hother⟩ := isVersion_of_bestVersion? hbest
    obtain rfl := hunique hfound hother hclass'
    exact ⟨hbest, .inl hplace⟩

/-- An entry that is no version of a class is selected only where it stands, and only if nothing is
used in its place. -/
theorem of_plain (h : Stands names target place position) {name : String}
    (hname : names[position]? = some name) (hplain : ¬ IsVersionedClass name) :
    place = position ∧ bestVersion? names target name = none := by
  cases h with
  | alone hfound hversion hclass _ _ =>
    rw [hname] at hfound
    cases hfound
    exact absurd ⟨_, _, hversion, hclass⟩ hplain
  | itself hfound _ hbest =>
    rw [hname] at hfound
    cases hfound
    exact ⟨rfl, hbest⟩
  | replaced _ _ hbest =>
    obtain ⟨hclass, found, release, hfound, hversion⟩ := isVersion_of_bestVersion? hbest
    rw [hname] at hfound
    cases hfound
    exact absurd ⟨release, _, hversion, hclass⟩ hplain

theorem injective (hnames : names.Nodup) {other : Nat} (h : Stands names target place position)
    (h' : Stands names target other position) : place = other := by
  obtain ⟨name, hname⟩ := h.exists_name
  by_cases hversioned : IsVersionedClass name
  · obtain ⟨release, path, hversion, hclass⟩ := hversioned
    obtain ⟨-, hplace | ⟨habsent, rfl⟩⟩ := h.of_version hname hversion hclass <;>
      obtain ⟨-, hother | ⟨habsent', rfl⟩⟩ := h'.of_version hname hversion hclass
    · have hlength := (List.getElem?_eq_some_iff.mp hplace).1
      exact (List.getElem?_inj hlength hnames).mp (hplace.trans hother.symm)
    · exact absurd (List.mem_of_getElem? hplace) habsent'
    · exact absurd (List.mem_of_getElem? hother) habsent
    · rfl
  · rw [(h.of_plain hname hversioned).1, (h'.of_plain hname hversioned).1]

end Stands

theorem nodup_selectEntries {names : List String} (hnames : names.Nodup) (target : Option Nat) :
    (selectEntries names true target).Nodup := by
  have hzip : names.zipIdx.Nodup := by
    refine List.Nodup.of_map Prod.fst ?_
    rwa [List.zipIdx_map_fst]
  rw [selectEntries, if_pos rfl]
  refine List.pairwise_filterMap.mpr (hzip.pairwise_of_forall_ne ?_)
  rintro ⟨name, place⟩ hmem ⟨other, place'⟩ hmem' hne position h position' h' rfl
  have hname : names[place]? = some name := List.mem_zipIdx_iff_getElem?.mp hmem
  have hother : names[place']? = some other := List.mem_zipIdx_iff_getElem?.mp hmem'
  have hplace : place = place' :=
    ((replacement?_eq_some_iff hname).mp h).injective hnames
      ((replacement?_eq_some_iff hother).mp h')
  subst hplace
  rw [hname] at hother
  exact hne (by rw [Option.some.inj hother])

/-! ## The selection -/

/-- The entry at a position is a path itself or a version of it, for whatever release. -/
def StandsFor (names : List String) (path : String) (position : Nat) : Prop :=
  ∃ name, names[position]? = some name ∧ (name = path ∨ ∃ release, IsVersion release path name)

/-- What has to be selected from a list of entries for a target. -/
structure IsSelection (names : List String) (target : Option Nat) (selected : List Nat) : Prop where
  /-- Of a class that has versions for the target the newest is selected and nothing else. -/
  newest : ∀ path, IsClassPath path → IsBase path →
    (∃ position release, Candidate names target path position release) →
      ∃ best release, IsNewest names target path best release ∧ best ∈ selected
        ∧ ∀ position ∈ selected, StandsFor names path position → position = best
  /-- Of any other class the entry itself is selected, if there is one, and nothing else. -/
  base : ∀ path, IsClassPath path → IsBase path →
    (∀ position release, ¬ Candidate names target path position release) →
      ∀ position, StandsFor names path position →
        (position ∈ selected ↔ names[position]? = some path)
  /-- All that is neither a class nor a version of one is selected. -/
  others : ∀ position name, names[position]? = some name → ¬ (IsClassPath name ∧ IsBase name) →
    ¬ IsVersionedClass name → position ∈ selected
  inRange : ∀ position ∈ selected, position < names.length
  once : selected.Nodup

section Select

variable {names : List String} {target : Option Nat} {path : String}

/-- What is used for a path is selected. -/
theorem mem_selectEntries_of_bestVersion? (hbase : IsBase path) {best : Nat}
    (hbest : bestVersion? names target path = some best) :
    best ∈ selectEntries names true target := by
  by_cases hmem : path ∈ names
  · obtain ⟨place, hplace⟩ := List.mem_iff_getElem?.mp hmem
    exact mem_selectEntries_iff.mpr
      ⟨place, .replaced hplace hbase.not_isVersionedClass hbest⟩
  · obtain ⟨hclass, name, release, hname, hversion⟩ := isVersion_of_bestVersion? hbest
    exact mem_selectEntries_iff.mpr ⟨best, .alone hname hversion hclass hmem hbest⟩

/-- What is selected for a path is what is used for it or, if nothing is, the path itself. -/
theorem selected_of_standsFor (hclass : IsClassPath path) (hbase : IsBase path) {position : Nat}
    (hselected : position ∈ selectEntries names true target)
    (hstands : StandsFor names path position) :
    bestVersion? names target path = some position
      ∨ bestVersion? names target path = none ∧ names[position]? = some path := by
  obtain ⟨place, hplace⟩ := mem_selectEntries_iff.mp hselected
  obtain ⟨name, hname, rfl | ⟨release, hversion⟩⟩ := hstands
  · exact .inr ⟨(hplace.of_plain hname hbase.not_isVersionedClass).2, hname⟩
  · exact .inl (hplace.of_version hname hversion hclass).1

theorem mem_selectEntries_of_plain {position : Nat} {name : String}
    (hname : names[position]? = some name) (hplain : ¬ IsVersionedClass name)
    (hbest : bestVersion? names target name = none) :
    position ∈ selectEntries names true target :=
  mem_selectEntries_iff.mpr ⟨position, .itself hname hplain hbest⟩

end Select

/-- Of every class that an archive with different entries holds, whether with versions or without,
one entry is selected: the newest version for the target, and otherwise the entry of the class
itself.  Everything else is selected as it is.  Without multi-release handling everything is
selected. -/
theorem selectEntries_isSelection (names : List String) (target : Option Nat)
    (hnames : names.Nodup) :
    IsSelection names target (selectEntries names true target)
      ∧ selectEntries names false target = List.range names.length := by
  refine ⟨⟨?_, ?_, ?_, ?_, nodup_selectEntries hnames target⟩, rfl⟩
  · rintro path hclass hbase ⟨position, release, hcandidate⟩
    rcases bestVersion?_spec names target path with ⟨best, newest, hbest, -, hnewest⟩ | ⟨-, hnone⟩
    · refine ⟨best, newest, hnewest, mem_selectEntries_of_bestVersion? hbase hbest, ?_⟩
      intro found hfound hstands
      rcases selected_of_standsFor hclass hbase hfound hstands with hsame | ⟨hother, -⟩
      · exact Option.some.inj (hsame.symm.trans hbest)
      · rw [hbest] at hother
        cases hother
    · exact absurd hcandidate (hnone hclass position release)
  · intro path hclass hbase hnone position hstands
    rcases bestVersion?_spec names target path with ⟨best, newest, -, -, hnewest⟩ | ⟨hbest, -⟩
    · exact absurd hnewest.candidate (hnone best newest)
    · constructor
      · intro hselected
        rcases selected_of_standsFor hclass hbase hselected hstands with hsome | ⟨-, hpath⟩
        · rw [hbest] at hsome
          cases hsome
        · exact hpath
      · intro hpath
        exact mem_selectEntries_of_plain hpath hbase.not_isVersionedClass hbest
  · intro position name hname hother hplain
    refine mem_selectEntries_of_plain hname hplain ?_
    rcases bestVersion?_spec names target name with ⟨-, -, -, hclass, -⟩ | ⟨hnone, -⟩
    · -- A class that is a version of something is a version of a class.
      have hbase : IsBase name := fun release inner _ hversion =>
        hplain ⟨release, inner, hversion, hversion.isClassPath hclass⟩
      exact absurd ⟨hclass, hbase⟩ hother
    · exact hnone
  · intro position hselected
    obtain ⟨place, hplace⟩ := mem_selectEntries_iff.mp hselected
    obtain ⟨name, hname⟩ := hplace.exists_name
    exact (List.getElem?_eq_some_iff.mp hname).1

/-- Two versions for the same release, a version that is too new, one without an entry of its own
and a folder that is no release. -/
def tiedEntries : List String :=
  ["META-INF/versions/9/a.class", "a.class", "META-INF/versions/09/a.class",
    "META-INF/versions/17/a.class", "META-INF/versions/x/a.class", "META-INF/versions/11/b.class",
    "META-INF/MANIFEST.MF"]

theorem selectEntries_isSelection_tied :
    selectEntries tiedEntries true (some 11) = [0, 4, 5, 6]
      ∧ tiedEntries.Nodup ∧ IsSelection tiedEntries (some 11) [0, 4, 5, 6] := by
  have hselected : selectEntries tiedEntries true (some 11) = [0, 4, 5, 6] := by decide +kernel
  have hnames : tiedEntries.Nodup := by decide
  have h := (selectEntries_isSelection tiedEntries (some 11) hnames).1
  rw [hselected] at h
  exact ⟨hselected, hnames, h⟩

end ClassFormat.Loading
