/-
# ClassFormat.Proofs.Hierarchy.Marks: classes that are skipped

A search does not search a class twice.  That is not obviously harmless: what the first search found
may have been rejected by the class below, and a second one may come from a class that would take
it.  But a search goes on only past members that are not widely visible, and such a member gets down
to the first class along superclass edges alone, which are followed before any class is done.

So a class that is done has no widely visible member (`Skippable`), and if the search without marks
finds a member, so does the search with them.  It need not be the same one.  It is the same where
interfaces are listed as such and have no superclass that leads further up: then a class that is
done is met again only along interface edges, or has nothing above it.
-/
import ClassFormat.Proofs.Hierarchy.Plain

namespace ClassFormat.Hierarchy

variable {carrier : FlagCarrier}

/-! ## Hierarchies by name -/

/-- Classes are stored under their own names. -/
def Keyed (repository : Repository) : Prop :=
  ∀ name file, repository.find? name = some file → file.name = .ok name

/-- The repository has no supertype of the class. -/
def IsFlat (repository : Repository) (file : ClassFile) : Prop :=
  ∀ above, ¬ Above repository file above

/-- What is listed as an interface is one, and nothing is above the superclass of an interface.
Classes may well have an interface for a superclass. -/
structure Regular (repository : Repository) (start : ClassFile) : Prop where
  interfaces : ∀ file above, Reaches repository start file → IsInterface repository file above →
    above.has .accInterface = true
  roots : ∀ file above, Reaches repository start file → file.has .accInterface = true →
    IsSuperclass repository file above → IsFlat repository above

variable {repository : Repository} {start : ClassFile}
  {declared : ClassFile → Except Error (Option (Member carrier))}

/-- A class that is reached is the first one, or it is above that and stored under its name. -/
theorem Reaches.eq_or_find? (hkeyed : Keyed repository) {file : ClassFile}
    (h : Reaches repository start file) :
    file = start ∨ Relation.TransGen (Above repository) start file
      ∧ ∃ name, file.name = .ok name ∧ repository.find? name = some file := by
  rcases Relation.reflTransGen_iff_eq_or_transGen.mp h with heq | htrans
  · exact Or.inl heq
  · obtain ⟨below, -, habove⟩ := Relation.TransGen.tail'_iff.mp htrans
    obtain ⟨name, hname⟩ := habove.exists_find
    exact Or.inr ⟨htrans, name, hkeyed name file hname, hname⟩

/-- Where classes are stored under their names and none is above itself, the name tells a class. -/
theorem eq_of_name_eq (hkeyed : Keyed repository) (hacyclic : Acyclic repository start)
    {file other : ClassFile} (hfile : Reaches repository start file)
    (hother : Reaches repository start other) (hname : file.name = other.name) : file = other := by
  rcases hfile.eq_or_find? hkeyed with rfl | ⟨hfileAbove, fileName, hfileName, hfileFind⟩
  · rcases hother.eq_or_find? hkeyed with rfl | ⟨hotherAbove, -⟩
    · rfl
    · exact absurd hname (hacyclic file other .refl hotherAbove)
  · rcases hother.eq_or_find? hkeyed with rfl | ⟨-, otherName, hotherName, hotherFind⟩
    · exact absurd hname.symm (hacyclic other file .refl hfileAbove)
    · rw [hfileName, hotherName] at hname
      cases hname
      rw [hfileFind] at hotherFind
      exact Option.some.inj hotherFind

/-! ## The invariant -/

/-- No class that is done has a widely visible member. -/
def Skippable (repository : Repository)
    (declared : ClassFile → Except Error (Option (Member carrier))) (start : ClassFile)
    (search : Search) : Prop :=
  ∀ file name, Reaches repository start file → file.name = .ok name → name ∈ search.done →
    ∀ found, plain repository declared file = some found → isWidelyVisible found.2 = false

/-- How the result of a search compares with the one that is expected without marks.  The two agree
on members that are not widely visible, as far as the former finds one, and while nothing is done
yet; a widely visible member ends the whole search, so it may come from elsewhere.  Under the given
conditions they agree on other members and on finding none. -/
structure Follows (repository : Repository)
    (declared : ClassFile → Except Error (Option (Member carrier))) (start : ClassFile)
    (expected : Option (Located carrier)) (exactSome exactNone : Prop) (before after : Search)
    (result : Option (Located carrier)) : Prop where
  path : after.path = before.path
  reaches : ∀ found, result = some found → Reaches repository start found.1
  skippable : (∀ found, result = some found → isWidelyVisible found.2 = false) →
    Skippable repository declared start after
  narrow : ∀ found, result = some found → isWidelyVisible found.2 = false → expected = some found
  missed : result = none → ∀ found, expected = some found → isWidelyVisible found.2 = false
  fresh : before.done = [] → ∀ found, expected = some found → isWidelyVisible found.2 = false →
    result = some found
  same_some : exactSome → ∀ found, result = some found → expected = some found
  same_none : exactNone → result = none → expected = none

namespace Follows

variable {expected other : Option (Located carrier)} {agrees exactSome exactNone : Prop}
  {before between after : Search} {result : Option (Located carrier)}

/-- Leaving a class takes its name off the path again. -/
theorem leave {name : String}
    (h : Follows repository declared start expected exactSome exactNone
      { before with path := name :: before.path } after result)
    (hskippable : (∀ found, result = some found → isWidelyVisible found.2 = false) →
      Skippable repository declared start (after.left name)) :
    Follows repository declared start expected exactSome exactNone before (after.left name)
      result :=
  { h with
    path := by rw [Search.left, h.path, List.drop_one, List.tail_cons]
    skippable := hskippable }

theorem weaken {weakerSome weakerNone : Prop}
    (h : Follows repository declared start expected exactSome exactNone before after result)
    (hsome : weakerSome → exactSome) (hnone : weakerNone → exactNone) :
    Follows repository declared start expected weakerSome weakerNone before after result :=
  { h with
    same_some := fun hweaker => h.same_some (hsome hweaker)
    same_none := fun hweaker => h.same_none (hnone hweaker) }

/-- Nothing is expected and nothing is found. -/
theorem nothing (h : Skippable repository declared start before) :
    Follows repository declared start none exactSome exactNone before before none where
  path := rfl
  reaches := fun _ hfound => (nomatch hfound)
  skippable := fun _ => h
  narrow := fun _ hfound => (nomatch hfound)
  missed := fun _ _ hfound => (nomatch hfound)
  fresh := fun _ _ hfound => (nomatch hfound)
  same_some := fun _ _ hfound => (nomatch hfound)
  same_none := fun _ _ => rfl

/-- The expected member is found at once. -/
theorem found {member : Located carrier} (h : Skippable repository declared start before)
    (hreaches : Reaches repository start member.1) :
    Follows repository declared start (some member) exactSome exactNone before before
      (some member) where
  path := rfl
  reaches := by
    intro found hfound
    cases hfound
    exact hreaches
  skippable := fun _ => h
  narrow := fun _ hfound _ => hfound
  missed := fun hnone => (nomatch hnone)
  fresh := fun _ _ hfound _ => hfound
  same_some := fun _ _ hfound => hfound
  same_none := fun _ hnone => (nomatch hnone)

/-- Nothing is found in a class that is skipped. -/
theorem skipped (h : Skippable repository declared start before)
    (hnarrow : ∀ found, expected = some found → isWidelyVisible found.2 = false)
    (hdone : before.done ≠ []) (hexact : exactNone → expected = none) :
    Follows repository declared start expected exactSome exactNone before before none where
  path := rfl
  reaches := fun _ hfound => (nomatch hfound)
  skippable := fun _ => h
  narrow := fun _ hfound => (nomatch hfound)
  missed := fun _ => hnarrow
  fresh := fun hempty => absurd hempty hdone
  same_some := fun _ _ hfound => (nomatch hfound)
  same_none := fun hnone _ => hexact hnone

/-- Where only widely visible members are expected and found, most of the comparison is idle. -/
theorem of_wide (hpath : after.path = before.path)
    (hreaches : ∀ found, result = some found → Reaches repository start found.1)
    (hresult : ∀ found, result = some found → isWidelyVisible found.2 = true)
    (hexpected : ∀ found, expected = some found → isWidelyVisible found.2 = true)
    (hskippable : result = none → Skippable repository declared start after)
    (hsome : exactSome → ∀ found, result = some found → expected = some found)
    (hnone : result = none → expected = none) :
    Follows repository declared start expected exactSome True before after result := by
  refine ⟨hpath, hreaches, ?_, ?_, ?_, ?_, hsome, fun _ => hnone⟩
  · intro hnarrow
    cases hcase : result with
    | none => exact hskippable hcase
    | some found =>
      have hwide := hresult found hcase
      rw [hnarrow found hcase] at hwide
      cases hwide
  · intro found hfound hnarrow
    rw [hresult found hfound] at hnarrow
    cases hnarrow
  · intro hcase found hfound
    rw [hnone hcase] at hfound
    cases hfound
  · intro _ found hfound hnarrow
    rw [hexpected found hfound] at hnarrow
    cases hnarrow

/-- Nothing widely visible is expected where nothing widely visible is found. -/
theorem expected_narrow
    (h : Follows repository declared start expected exactSome exactNone before after result)
    (hnarrow : ∀ found, result = some found → isWidelyVisible found.2 = false) :
    ∀ found, expected = some found → isWidelyVisible found.2 = false := by
  intro found hfound
  cases hcase : result with
  | none => exact h.missed hcase found hfound
  | some kept =>
    rw [h.narrow kept hcase (hnarrow kept hcase)] at hfound
    cases hfound
    exact hnarrow _ hcase

/-- What the class below does not inherit is dropped alike. -/
theorem filter {file : ClassFile}
    (h : Follows repository declared start expected exactSome exactNone before after result)
    (hwide : ∀ found : Located carrier, Reaches repository start found.1 →
      isWidelyVisible found.2 = true → inherits file found = true) :
    Follows repository declared start (expected.filter (inherits file)) exactSome exactNone before
      after (result.filter (inherits file)) := by
  -- A member that is dropped is not widely visible, so both searches have found it.
  have hdropped : ∀ found, result = some found → inherits file found = false →
      isWidelyVisible found.2 = false ∧ expected = some found := by
    intro found hfound hinherits
    have hnarrow : isWidelyVisible found.2 = false := by
      cases hvisible : isWidelyVisible found.2 with
      | false => rfl
      | true =>
        rw [hwide found (h.reaches found hfound) hvisible] at hinherits
        cases hinherits
    exact ⟨hnarrow, h.narrow found hfound hnarrow⟩
  refine ⟨h.path, ?_, ?_, ?_, ?_, ?_, ?_, ?_⟩
  · intro found hfound
    exact h.reaches found (Option.filter_eq_some_iff.mp hfound).1
  · intro hnarrow
    refine h.skippable fun found hfound => ?_
    cases hinherits : inherits file found with
    | false => exact (hdropped found hfound hinherits).1
    | true => exact hnarrow found (Option.filter_eq_some_iff.mpr ⟨hfound, hinherits⟩)
  · intro found hfound hnarrow
    obtain ⟨hfound, hinherits⟩ := Option.filter_eq_some_iff.mp hfound
    exact Option.filter_eq_some_iff.mpr ⟨h.narrow found hfound hnarrow, hinherits⟩
  · intro hnone found hfound
    obtain ⟨hfound, hinherits⟩ := Option.filter_eq_some_iff.mp hfound
    cases hresult : result with
    | none => exact h.missed hresult found hfound
    | some kept =>
      rw [hresult, Option.filter_eq_none_iff] at hnone
      have hkept := hdropped kept hresult (Bool.eq_false_iff.mpr (hnone kept rfl))
      rw [hkept.2] at hfound
      cases hfound
      exact hkept.1
  · intro hdone found hfound hnarrow
    obtain ⟨hfound, hinherits⟩ := Option.filter_eq_some_iff.mp hfound
    exact Option.filter_eq_some_iff.mpr ⟨h.fresh hdone found hfound hnarrow, hinherits⟩
  · intro hexact found hfound
    obtain ⟨hfound, hinherits⟩ := Option.filter_eq_some_iff.mp hfound
    exact Option.filter_eq_some_iff.mpr ⟨h.same_some hexact found hfound, hinherits⟩
  · intro hexact hnone
    cases hresult : result with
    | none =>
      rw [h.same_none hexact hresult]
      rfl
    | some kept =>
      rw [hresult, Option.filter_eq_none_iff] at hnone
      have hinherits : inherits file kept = false := Bool.eq_false_iff.mpr (hnone kept rfl)
      rw [(hdropped kept hresult hinherits).2, Option.filter_some, hinherits]
      rfl

/-- A member that the superclass gives is not looked for any further. -/
theorem or_some {found : Located carrier}
    (h : Follows repository declared start expected exactSome exactNone before after (some found))
    (hother : ∀ found, other = some found → isWidelyVisible found.2 = true) :
    Follows repository declared start (expected.or other) exactSome exactNone before after
      (some found) := by
  refine ⟨h.path, h.reaches, h.skippable, ?_, ?_, ?_, ?_, ?_⟩
  · intro kept hkept hnarrow
    rw [h.narrow kept hkept hnarrow, Option.some_or]
  · intro hnone
    cases hnone
  · intro hdone kept hkept hnarrow
    rcases Option.or_eq_some_iff.mp hkept with hexpected | ⟨-, hwide⟩
    · exact h.fresh hdone kept hexpected hnarrow
    · rw [hother kept hwide] at hnarrow
      cases hnarrow
  · intro hexact kept hkept
    rw [h.same_some hexact kept hkept, Option.some_or]
  · intro _ hnone
    cases hnone

/-- Where the superclass gives nothing, the interfaces decide. -/
theorem or_none (h : Follows repository declared start expected agrees agrees before between none)
    (hnext : Follows repository declared start other agrees True between after result)
    (hresult : ∀ found, result = some found → isWidelyVisible found.2 = true)
    (hother : ∀ found, other = some found → isWidelyVisible found.2 = true) :
    Follows repository declared start (expected.or other) agrees agrees before after result := by
  refine ⟨hnext.path.trans h.path, hnext.reaches, hnext.skippable, ?_, ?_, ?_, ?_, ?_⟩
  · intro found hfound hnarrow
    rw [hresult found hfound] at hnarrow
    cases hnarrow
  · intro hnone found hfound
    rw [hnext.same_none trivial hnone, Option.or_none] at hfound
    exact h.missed rfl found hfound
  · intro hdone found hfound hnarrow
    rcases Option.or_eq_some_iff.mp hfound with hexpected | ⟨-, hwide⟩
    · cases h.fresh hdone found hexpected hnarrow
    · rw [hother found hwide] at hnarrow
      cases hnarrow
  · intro hexact found hfound
    rw [h.same_none hexact rfl, Option.none_or]
    exact hnext.same_some hexact found hfound
  · intro hexact hnone
    rw [h.same_none hexact rfl, Option.none_or]
    exact hnext.same_none trivial hnone

end Follows

/-! ## One class -/

/-- A class that is met before any class is done, an interface, or a class with nothing above. -/
def Ordered (repository : Repository) (file : ClassFile) (search : Search) : Prop :=
  search.done = [] ∨ file.has .accInterface = true ∨ IsFlat repository file

/-- When the search of a class finds just what is expected, if it finds anything. -/
def ExactSome (repository : Repository) (start file : ClassFile) (search : Search) : Prop :=
  Regular repository start ∧ Ordered repository file search

/-- When the search of a class finds nothing only if nothing is expected. -/
def ExactNone (repository : Repository) (start file : ClassFile) (search : Search) : Prop :=
  ExactSome repository start file search
    ∧ ((∀ name, file.name = .ok name → name ∉ search.done) ∨ IsFlat repository file)

/-- From every state with the given path, the search of a class follows the plain one. -/
def FollowsAt (repository : Repository)
    (declared : ClassFile → Except Error (Option (Member carrier))) (start : ClassFile)
    (locate : ClassFile → SearchM (Option (Located carrier))) (path : List String)
    (file : ClassFile) : Prop :=
  ∀ search, Skippable repository declared start search → search.path = path →
    ∃ result after, search.run (locate file) = (.ok result, after)
      ∧ Follows repository declared start (plain repository declared file)
        (ExactSome repository start file search) (ExactNone repository start file search)
        search after result

/-- The superclass of a class that is met in order is met in order, and not again. -/
theorem ExactSome.superclass {file above : ClassFile} {search : Search}
    (h : ExactSome repository start file search) (hfile : Reaches repository start file)
    (habove : IsSuperclass repository file above) :
    ExactNone repository start above search := by
  obtain ⟨hregular, hdone | hinterface | hflat⟩ := h
  · -- Nothing is done yet, so the superclass cannot be.
    refine ⟨⟨hregular, Or.inl hdone⟩, Or.inl fun name _ => ?_⟩
    rw [hdone]
    exact List.not_mem_nil
  · have hflat := hregular.roots file above hfile hinterface habove
    exact ⟨⟨hregular, Or.inr (Or.inr hflat)⟩, Or.inr hflat⟩
  · exact absurd (Or.inl habove) (hflat above)

variable {locate : ClassFile → SearchM (Option (Located carrier))} {path : List String}
  {file : ClassFile}

/-- Along interface edges only widely visible members count, and an interface that is skipped has
none. -/
theorem follows_fromInterfaces {interfaces : List ClassFile}
    (h : ∀ interface ∈ interfaces, FollowsAt repository declared start locate path interface)
    (hinterfaces : Regular repository start →
      ∀ interface ∈ interfaces, interface.has .accInterface = true) :
    ∀ search, Skippable repository declared start search → search.path = path →
      ∃ result after, search.run (fromInterfaces locate interfaces) = (.ok result, after)
        ∧ (∀ found, result = some found → isWidelyVisible found.2 = true)
        ∧ Follows repository declared start (firstWide (plain repository declared) interfaces)
          (Regular repository start) True search after result := by
  induction interfaces with
  | nil =>
    intro search hsearch _
    exact ⟨none, search, rfl, fun _ hfound => (nomatch hfound), .nothing hsearch⟩
  | cons interface others ih =>
    intro search hsearch hpath
    obtain ⟨hinterface, hothers⟩ := List.forall_mem_cons.mp h
    obtain ⟨result, between, hrun, hfollows⟩ := hinterface search hsearch hpath
    rcases wide_or_narrow result with ⟨found, rfl, hwide⟩ | hnarrow
    · have hfound : ∀ kept, some found = some kept → isWidelyVisible kept.2 = true := by
        intro kept hkept
        cases hkept
        exact hwide
      refine ⟨some found, between, run_fromInterfaces_wide hrun hwide, hfound, ?_⟩
      refine .of_wide hfollows.path hfollows.reaches hfound
        (fun _ => isWidelyVisible_of_firstWide) (fun hnone => (nomatch hnone)) ?_
        (fun hnone => (nomatch hnone))
      intro hregular kept hkept
      have hordered : ExactSome repository start interface search :=
        ⟨hregular, Or.inr (Or.inl (hinterfaces hregular interface List.mem_cons_self))⟩
      cases hkept
      exact firstWide_cons_of_wide (hfollows.same_some hordered found rfl) hwide
    · -- The interface gives nothing that counts, and nothing that counts is expected of it.
      obtain ⟨last, after, hlast, hwide, hnext⟩ := ih hothers
        (fun hregular other hmem => hinterfaces hregular other (List.mem_cons_of_mem _ hmem))
        between (hfollows.skippable hnarrow) (hfollows.path.trans hpath)
      refine ⟨last, after, (run_fromInterfaces_narrow hrun hnarrow).trans hlast, hwide, ?_⟩
      rw [firstWide_cons_of_narrow (hfollows.expected_narrow hnarrow)]
      refine .of_wide (hnext.path.trans hfollows.path) hnext.reaches hwide
        (fun _ => isWidelyVisible_of_firstWide) ?_ hnext.same_some (hnext.same_none trivial)
      rintro rfl
      exact hnext.skippable fun _ hfound => (nomatch hfound)

/-- A class whose search found nothing widely visible may be skipped from then on. -/
theorem Skippable.left {search : Search} {name : String} (hkeyed : Keyed repository)
    (hacyclic : Acyclic repository start)
    (h : Skippable repository declared start search) (hfile : Reaches repository start file)
    (hname : file.name = .ok name)
    (hnarrow : ∀ found, plain repository declared file = some found →
      isWidelyVisible found.2 = false) :
    Skippable repository declared start (search.left name) := by
  intro other otherName hother hotherName hmem
  -- The name that is new among those done is that of no other class.
  rcases List.mem_cons.mp hmem with rfl | hmem
  · have heq : other = file :=
      eq_of_name_eq hkeyed hacyclic hother hfile (by rw [hotherName, hname])
    rw [heq]
    exact hnarrow
  · exact h other otherName hother hotherName hmem

section Hierarchies

variable (hkeyed : Keyed repository) (hresolves : Resolves repository declared start)
  (hacyclic : Acyclic repository start)

include hresolves

theorem follows_fromSuperclass {superclass : Option ClassFile} {search : Search}
    (hfile : Reaches repository start file)
    (hsuperclass : file.superclass? repository = .ok superclass)
    (h : ∀ above, Above repository file above →
      FollowsAt repository declared start locate path above)
    (hsearch : Skippable repository declared start search) (hpath : search.path = path) :
    ∃ result after, search.run (fromSuperclass locate file superclass) = (.ok result, after)
      ∧ Follows repository declared start
        ((superclass.bind (plain repository declared)).filter (inherits file))
        (ExactSome repository start file search) (ExactSome repository start file search)
        search after result := by
  cases superclass with
  | none => exact ⟨none, search, rfl, .nothing hsearch⟩
  | some above =>
    obtain ⟨result, after, hrun, hfollows⟩ := h above (Or.inl hsuperclass) search hsearch hpath
    have hname := hresolves.name file hfile
    have hwide : ∀ found : Located carrier, Reaches repository start found.1 →
        isWidelyVisible found.2 = true → inherits file found = true :=
      fun found hfound => inherits_of_isWidelyVisible hname (hresolves.name found.1 hfound)
    refine ⟨result.filter (inherits file), after, run_fromSuperclass hrun hname ?_, ?_⟩
    · exact fun found hfound => hresolves.name found.1 (hfollows.reaches found hfound)
    · refine (hfollows.filter hwide).weaken ?_ ?_
      · exact fun hexact => (hexact.superclass hfile hsuperclass).1
      · exact fun hexact => hexact.superclass hfile hsuperclass

include hacyclic

theorem follows_fromSupertypes {superclass : Option ClassFile} {interfaces : List ClassFile}
    {search : Search} (hfile : Reaches repository start file)
    (hlooks : LooksUp repository declared file none superclass interfaces)
    (h : ∀ above, Above repository file above →
      FollowsAt repository declared start locate path above)
    (hsearch : Skippable repository declared start search) (hpath : search.path = path) :
    ∃ result after, search.run (fromSupertypes repository locate file) = (.ok result, after)
      ∧ Follows repository declared start (plain repository declared file)
        (ExactSome repository start file search) (ExactSome repository start file search)
        search after result := by
  obtain ⟨depth, hplain⟩ := plainAt_of_acyclic hresolves hacyclic hfile
  rw [hplain.eq none superclass interfaces hlooks, ownOrInherited, inheritedFrom]
  have hother : ∀ found, firstWide (plain repository declared) interfaces = some found →
      isWidelyVisible found.2 = true := fun _ => isWidelyVisible_of_firstWide
  obtain ⟨above, between, hrun, hfollows⟩ :=
    follows_fromSuperclass hresolves hfile hlooks.superclass h hsearch hpath
  cases above with
  | some found =>
    exact ⟨some found, between, run_fromSupertypes_some hlooks.superclass hrun,
      hfollows.or_some hother⟩
  | none =>
    have hbetween : Skippable repository declared start between := by
      refine hfollows.skippable fun found hfound => ?_
      cases hfound
    have hedge : ∀ interface ∈ interfaces, IsInterface repository file interface :=
      fun interface hmem => ⟨interfaces, hlooks.interfaces, hmem⟩
    obtain ⟨result, after, hlast, hwide, hnext⟩ :=
      follows_fromInterfaces (fun interface hmem => h interface (Or.inr (hedge interface hmem)))
        (fun hregular interface hmem =>
          hregular.interfaces file interface hfile (hedge interface hmem))
        between hbetween (hfollows.path.trans hpath)
    refine ⟨result, after, ?_, ?_⟩
    · exact (run_fromSupertypes_none hlooks.superclass hlooks.interfaces hrun).trans hlast
    · exact hfollows.or_none (hnext.weaken And.left id) hwide hother

/-- A class with nothing above has what it declares. -/
theorem plain_eq_none_of_isFlat {superclass : Option ClassFile} {interfaces : List ClassFile}
    (hfile : Reaches repository start file)
    (hlooks : LooksUp repository declared file none superclass interfaces)
    (hflat : IsFlat repository file) : plain repository declared file = none := by
  obtain ⟨depth, hplain⟩ := plainAt_of_acyclic hresolves hacyclic hfile
  rw [hplain.eq none superclass interfaces hlooks, ownOrInherited]
  refine Option.eq_none_iff_forall_ne_some.mpr fun found hfound => ?_
  obtain ⟨above, habove, -⟩ := exists_above_of_inheritedFrom hlooks hfound
  exact hflat above habove

include hkeyed

/-- Marking a class keeps to what the search of its supertypes would find, or skips the class where
that is done. -/
theorem follows_marked {search : Search} {body : SearchM (Option (Located carrier))}
    {name : String} {superclass : Option ClassFile} {interfaces : List ClassFile}
    (hfile : Reaches repository start file) (hname : file.name = .ok name)
    (hlooks : LooksUp repository declared file none superclass interfaces)
    (hsearch : Skippable repository declared start search) (hnew : name ∉ search.path)
    (h : ∃ result after, Search.run { search with path := name :: search.path } body
        = (.ok result, after)
      ∧ Follows repository declared start (plain repository declared file)
        (ExactSome repository start file search) (ExactSome repository start file search)
        { search with path := name :: search.path } after result) :
    ∃ result after, search.run (marked file body) = (.ok result, after)
      ∧ Follows repository declared start (plain repository declared file)
        (ExactSome repository start file search) (ExactNone repository start file search)
        search after result := by
  rw [marked, Search.run_lift_bind hname, Search.run_bind, Search.run_enter, if_neg hnew]
  by_cases hdone : name ∈ search.done
  · -- The class is skipped, and nothing widely visible is missed.
    rw [if_pos hdone]
    refine ⟨none, search, rfl, Follows.skipped hsearch ?_ ?_ ?_⟩
    · exact hsearch file name hfile hname hdone
    · intro hempty
      rw [hempty] at hdone
      cases hdone
    · rintro ⟨-, hfresh | hflat⟩
      · exact absurd hdone (hfresh name hname)
      · exact plain_eq_none_of_isFlat hresolves hacyclic hfile hlooks hflat
  · rw [if_neg hdone]
    obtain ⟨result, after, hrun, hfollows⟩ := h
    refine ⟨result, after.left name, ?_, ?_⟩
    · show Search.run _ (Search.leaving name _) = _
      rw [Search.run_leaving, hrun]
    · refine (hfollows.weaken id And.left).leave fun hnarrow => ?_
      exact (hfollows.skippable hnarrow).left hkeyed hacyclic hfile hname
        (hfollows.expected_narrow hnarrow)

/-- The search with marks follows the plain one at every class, as long as no class from there
upwards is on the path. -/
theorem followsAt_searchOr {stop : ClassFile → SearchM (Option (Located carrier))} (depth : Nat) :
    ∀ (file : ClassFile) (path : List String), Depth repository depth file →
      Reaches repository start file → Clear repository path file → ∀ fuel, depth ≤ fuel →
        FollowsAt repository declared start
          (searchOr repository declared marked stop fuel) path file := by
  induction depth with
  | zero =>
    intro file path hdepth
    cases hdepth
  | succ depth ih =>
    intro file path hdepth hfile hclear fuel hfuel search hsearch hpath
    cases fuel with
    | zero => omega
    | succ fuel =>
      obtain ⟨own, superclass, interfaces, hlooks⟩ := hresolves.exists_looksUp hfile
      obtain ⟨name, hname⟩ := hresolves.name file hfile
      rw [searchOr, Search.run_lift_bind hlooks.own]
      cases own with
      | some member =>
        obtain ⟨_, hplain⟩ := plainAt_of_acyclic hresolves hacyclic hfile
        refine ⟨some (file, member), search, rfl, ?_⟩
        rw [hplain.eq (some member) superclass interfaces hlooks, ownOrInherited]
        exact Follows.found hsearch hfile
      | none =>
        have hnew : name ∉ search.path := by
          rw [hpath]
          exact hclear file name .refl hname
        have habove : ∀ above, Above repository file above →
            FollowsAt repository declared start
              (searchOr repository declared marked stop fuel) (name :: path) above :=
          fun above habove => ih above (name :: path) (hdepth above habove) (hfile.tail habove)
            (hclear.up hacyclic hfile hname habove) fuel (by omega)
        -- Entering a class changes the path alone, and the invariant is about what is done.
        have hentered : Skippable repository declared start
            { search with path := name :: search.path } := hsearch
        exact follows_marked hkeyed hresolves hacyclic hfile hname hlooks hsearch hnew
          (follows_fromSupertypes hresolves hacyclic hfile hlooks habove hentered (by rw [hpath]))

/-! ## Searches for fields and methods -/

/-- The search without marks comes to a result; if that is a member, the search with marks finds one
too, and in a regular hierarchy the two have the same result. -/
def KeepsMembers (repository : Repository)
    (declared : ClassFile → Except Error (Option (Member carrier))) (start : ClassFile)
    (outcome : Except Error (Option (Located carrier))) : Prop :=
  ∃ result, Settles repository declared start result
    ∧ (∀ member, result = some member → ∃ found, outcome = .ok (some found))
    ∧ (Regular repository start → outcome = .ok result)

theorem keepsMembers_locate : KeepsMembers repository declared start
    (Hierarchy.locate repository declared start).1 := by
  have hempty : Skippable repository declared start {} :=
    fun _ _ _ _ hmem => absurd hmem List.not_mem_nil
  obtain ⟨result, after, hrun, hfollows⟩ :=
    followsAt_searchOr hkeyed hresolves hacyclic (repository.size + 2) start []
      (depth_of_acyclic hresolves hacyclic) .refl (Clear.nil start)
      (repository.size + 2) (Nat.le_refl _) {} hempty rfl
  rw [← locateWithin_eq_searchOr] at hrun
  have hlocate : (Hierarchy.locate repository declared start).1 = .ok result :=
    congrArg Prod.fst hrun
  obtain ⟨depth, hplain⟩ := plainAt_of_acyclic hresolves hacyclic (.refl : Reaches _ start start)
  rw [hlocate]
  refine ⟨plain repository declared start, ⟨depth, hplain.run⟩, ?_, ?_⟩
  · intro member hmember
    cases hcase : result with
    | some found => exact ⟨found, rfl⟩
    | none =>
      -- What is missed is not widely visible, but such a member is found while nothing is done.
      have hnarrow := hfollows.missed hcase member hmember
      rw [hfollows.fresh rfl member hmember hnarrow] at hcase
      cases hcase
  · intro hregular
    have hexact : ExactSome repository start start {} := ⟨hregular, Or.inl rfl⟩
    cases hcase : result with
    | some found => rw [hfollows.same_some hexact found hcase]
    | none => rw [hfollows.same_none ⟨hexact, Or.inl fun _ _ => List.not_mem_nil⟩ hcase]

end Hierarchies

/-- Not searching a class twice loses no field and no method. -/
theorem marks_lose_no_member (repository : Repository) (start : ClassFile)
    (hkeyed : Keyed repository) (hacyclic : Acyclic repository start) :
    (∀ name, Resolves repository (·.field? name) start →
      KeepsMembers repository (·.field? name) start (locateField repository start name).1)
    ∧ ∀ signature, Resolves repository (·.method? signature) start →
      KeepsMembers repository (·.method? signature) start
        (locateMethod repository start signature).1 := by
  constructor
  · intro name hresolves
    exact keepsMembers_locate hkeyed hresolves hacyclic
  · intro signature hresolves
    exact keepsMembers_locate hkeyed hresolves hacyclic

/-! ## A class with an interface twice -/

/-- Only the class itself is reached from a class with nothing above. -/
theorem IsFlat.eq_of_reaches {file above : ClassFile} (h : IsFlat repository file)
    (hreaches : Reaches repository file above) : above = file := by
  rcases Relation.ReflTransGen.cases_head hreaches with heq | ⟨next, hnext, -⟩
  · exact heq.symm
  · exact absurd hnext (h next)

/-- A class of the sample hierarchy, whose names are all in one pool. -/
def diamondClass (flags : UInt16) (thisClass : PoolIndex) (superClass : Option PoolIndex)
    (interfaces : List PoolIndex) (fields : List Field) : ClassFile where
  version := Version.java17
  pool := ConstantPool.ofList
    [.utf8 "D", .classRef 1, .utf8 "B", .classRef 3, .utf8 "J", .classRef 5, .utf8 "K",
     .classRef 7, .utf8 "x", .utf8 "I"]
  flags := Flags.ofWord flags
  thisClass := thisClass
  superClass := superClass
  interfaces := interfaces
  fields := fields
  methods := []
  attributes := []

def diamondBottom : ClassFile := diamondClass 0x0021 2 (some 4) [6, 8] []
def diamondSide : ClassFile := diamondClass 0x0021 4 none [6] []
def diamondTop : ClassFile := diamondClass 0x0601 6 none [] []
def diamondConstants : ClassFile :=
  diamondClass 0x0601 8 none [] [⟨Flags.ofWord 0x0019, 9, 10, []⟩]

/-- A class that has an interface both directly and from its superclass, and another interface with
a field behind it. -/
def diamond : Repository where
  entries := [("B", diamondSide), ("D", diamondBottom), ("J", diamondTop), ("K", diamondConstants)]
  increasing := by decide

theorem diamond_keyed : Keyed diamond := by
  intro name file h
  have hmem := mem_entries_of_find? h
  simp only [diamond, List.mem_cons, Prod.mk.injEq, List.not_mem_nil, or_false] at hmem
  rcases hmem with ⟨rfl, rfl⟩ | ⟨rfl, rfl⟩ | ⟨rfl, rfl⟩ | ⟨rfl, rfl⟩
  · rfl
  · rfl
  · rfl
  · rfl

theorem above_diamondBottom {above : ClassFile} (h : Above diamond diamondBottom above) :
    above = diamondSide ∨ above = diamondTop ∨ above = diamondConstants := by
  rcases h with h | ⟨known, h, hmem⟩
  · have hsuper : diamondBottom.superclass? diamond = .ok (some diamondSide) := rfl
    rw [IsSuperclass, hsuper] at h
    cases h
    exact Or.inl rfl
  · have hknown : diamondBottom.knownInterfaces diamond
        = .ok [diamondTop, diamondConstants] := rfl
    rw [hknown] at h
    cases h
    simpa using Or.inr hmem

theorem above_diamondSide {above : ClassFile} (h : Above diamond diamondSide above) :
    above = diamondTop := by
  rcases h with h | ⟨known, h, hmem⟩
  · cases h
  · have hknown : diamondSide.knownInterfaces diamond = .ok [diamondTop] := rfl
    rw [hknown] at h
    cases h
    exact List.mem_singleton.mp hmem

theorem isFlat_diamondTop : IsFlat diamond diamondTop := by
  rintro above (h | ⟨known, h, hmem⟩)
  · cases h
  · cases h
    cases hmem

theorem isFlat_diamondConstants : IsFlat diamond diamondConstants := by
  rintro above (h | ⟨known, h, hmem⟩)
  · cases h
  · cases h
    cases hmem

theorem reaches_diamondSide {above : ClassFile} (h : Reaches diamond diamondSide above) :
    above = diamondSide ∨ above = diamondTop := by
  rcases Relation.ReflTransGen.cases_head h with heq | ⟨next, hnext, hreaches⟩
  · exact Or.inl heq.symm
  · rw [above_diamondSide hnext] at hreaches
    exact Or.inr (isFlat_diamondTop.eq_of_reaches hreaches)

theorem reaches_diamondBottom {above : ClassFile} (h : Reaches diamond diamondBottom above) :
    above = diamondBottom ∨ above = diamondSide ∨ above = diamondTop
      ∨ above = diamondConstants := by
  rcases Relation.ReflTransGen.cases_head h with heq | ⟨next, hnext, hreaches⟩
  · exact Or.inl heq.symm
  · rcases above_diamondBottom hnext with rfl | rfl | rfl
    · rcases reaches_diamondSide hreaches with h | h
      · exact Or.inr (Or.inl h)
      · exact Or.inr (Or.inr (Or.inl h))
    · exact Or.inr (Or.inr (Or.inl (isFlat_diamondTop.eq_of_reaches hreaches)))
    · exact Or.inr (Or.inr (Or.inr (isFlat_diamondConstants.eq_of_reaches hreaches)))

theorem name_ne {file above : ClassFile} {name other : String} (hfile : file.name = .ok name)
    (habove : above.name = .ok other) (h : name ≠ other) : file.name ≠ above.name := by
  rw [hfile, habove]
  exact fun heq => h (Except.ok.inj heq)

theorem diamond_acyclic : Acyclic diamond diamondBottom := by
  intro file above hfile htrans
  obtain ⟨next, hnext, hreaches⟩ := Relation.TransGen.head'_iff.mp htrans
  rcases reaches_diamondBottom hfile with rfl | rfl | rfl | rfl
  · rcases above_diamondBottom hnext with rfl | rfl | rfl
    · rcases reaches_diamondSide hreaches with rfl | rfl
      · exact name_ne rfl rfl (by decide)
      · exact name_ne rfl rfl (by decide)
    · rw [isFlat_diamondTop.eq_of_reaches hreaches]
      exact name_ne rfl rfl (by decide)
    · rw [isFlat_diamondConstants.eq_of_reaches hreaches]
      exact name_ne rfl rfl (by decide)
  · rw [above_diamondSide hnext] at hreaches
    rw [isFlat_diamondTop.eq_of_reaches hreaches]
    exact name_ne rfl rfl (by decide)
  · exact absurd hnext (isFlat_diamondTop next)
  · exact absurd hnext (isFlat_diamondConstants next)

theorem diamond_resolves : Resolves diamond (·.field? "x") diamondBottom := by
  refine ⟨fun file hfile => ?_, fun file hfile => ?_, fun file hfile => ?_, fun file hfile => ?_⟩
  all_goals rcases reaches_diamondBottom hfile with rfl | rfl | rfl | rfl
  all_goals exact ⟨_, rfl⟩

theorem diamond_regular : Regular diamond diamondBottom := by
  constructor
  · rintro file above hfile ⟨known, hknown, hmem⟩
    have habove : Above diamond file above := Or.inr ⟨known, hknown, hmem⟩
    rcases reaches_diamondBottom hfile with rfl | rfl | rfl | rfl
    · have hlisted : diamondBottom.knownInterfaces diamond
          = .ok [diamondTop, diamondConstants] := rfl
      rw [hlisted] at hknown
      cases hknown
      simp only [List.mem_cons, List.not_mem_nil, or_false] at hmem
      rcases hmem with rfl | rfl
      · rfl
      · rfl
    · rw [above_diamondSide habove]
      rfl
    · exact absurd habove (isFlat_diamondTop above)
    · exact absurd habove (isFlat_diamondConstants above)
  · intro file above hfile hinterface hsuper
    rcases reaches_diamondBottom hfile with rfl | rfl | rfl | rfl
    · cases hinterface
    · cases hinterface
    · exact absurd (Or.inl hsuper) (isFlat_diamondTop above)
    · exact absurd (Or.inl hsuper) (isFlat_diamondConstants above)

theorem marks_lose_no_member_diamond :
    Regular diamond diamondBottom
      ∧ KeepsMembers diamond (·.field? "x") diamondBottom
        (locateField diamond diamondBottom "x").1 :=
  ⟨diamond_regular,
    (marks_lose_no_member diamond diamondBottom diamond_keyed diamond_acyclic).1 "x"
      diamond_resolves⟩

end ClassFormat.Hierarchy
