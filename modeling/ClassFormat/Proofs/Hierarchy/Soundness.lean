/-
# ClassFormat.Proofs.Hierarchy.Soundness: what a search finds and that it comes to an end

Nothing is assumed about the repository.  It may have cycles, and a class may be stored under a name
that is not its own.  A search is cut off when it is too deep, but that never happens: the classes
whose supertypes are being searched have different names, and every step up adds one.

What is found is declared by the last class of a chain from the first class upwards and visible
along each edge of it, and a class is reported as cyclic only if a chain has its name twice.
-/
import ClassFormat.Proofs.Hierarchy.Chains
import ClassFormat.Proofs.Hierarchy.Runs

namespace ClassFormat.Hierarchy

open Search (Agree Yields)

variable {carrier : FlagCarrier}

/-! ## Searches that agree -/

section Agreement

variable {invariant : Search → Prop} {locate other : ClassFile → SearchM (Option (Located carrier))}

theorem agree_fromInterfaces {interfaces : List ClassFile}
    (h : ∀ interface ∈ interfaces, Agree invariant (locate interface) (other interface)) :
    Agree invariant (fromInterfaces locate interfaces) (fromInterfaces other interfaces) := by
  induction interfaces with
  | nil => exact .pure none
  | cons interface others ih =>
    obtain ⟨hinterface, hothers⟩ := List.forall_mem_cons.mp h
    refine hinterface.bind fun found => ?_
    cases found with
    | none => exact ih hothers
    | some found =>
      show Agree invariant (if isWidelyVisible found.2 then _ else _) (if _ then _ else _)
      split
      · exact .pure (some found)
      · exact ih hothers

theorem agree_fromSuperclass {file : ClassFile} {superclass : Option ClassFile}
    (h : ∀ above, superclass = some above → Agree invariant (locate above) (other above)) :
    Agree invariant (fromSuperclass locate file superclass)
      (fromSuperclass other file superclass) := by
  cases superclass with
  | none => exact .pure none
  | some above =>
    refine (h above rfl).bind fun found => ?_
    cases found with
    | none => exact .pure none
    | some found => exact (Agree.lift _).bind fun inherited => .pure _

theorem agree_fromSupertypes {repository : Repository} {file : ClassFile}
    (h : ∀ above, Above repository file above → Agree invariant (locate above) (other above)) :
    Agree invariant (fromSupertypes repository locate file)
      (fromSupertypes repository other file) := by
  rw [fromSupertypes_eq, fromSupertypes_eq]
  refine .lift_bind fun superclass hsuperclass => ?_
  refine (agree_fromSuperclass fun above habove => ?_).bind fun found => ?_
  · subst habove
    exact h above (Or.inl hsuperclass)
  · cases found with
    | some found => exact .pure (some found)
    | none =>
      refine .lift_bind fun known hknown => agree_fromInterfaces fun interface hmem => ?_
      exact h interface (Or.inr ⟨known, hknown, hmem⟩)

end Agreement

/-! ## The path -/

/-- A state met while the classes of a chain are being searched: the path has their names, no two of
them the same, and every reported name is on some chain twice. -/
structure OnPath (repository : Repository) (start : ClassFile) (below : List ClassFile)
    (search : Search) : Prop where
  names : below.map ClassFile.name = search.path.map .ok
  nodup : search.path.Nodup
  cycles : ∀ name ∈ search.cycles, ∃ chain, Ascent repository start chain ∧ CarriesTwice name chain

variable {repository : Repository} {start : ClassFile}

theorem OnPath.empty : OnPath repository start [] {} where
  names := rfl
  nodup := List.nodup_nil
  cycles := fun _ h => absurd h List.not_mem_nil

/-- A class on the path is reported rightly: it stands below itself. -/
theorem OnPath.report {file : ClassFile} {below : List ClassFile} {search : Search} {name : String}
    (h : OnPath repository start below search) (hchain : Ascent repository start (file :: below))
    (hname : file.name = .ok name) (hmem : name ∈ search.path) :
    OnPath repository start below { search with cycles := name :: search.cycles } := by
  refine { h with cycles := List.forall_mem_cons.mpr ⟨?_, h.cycles⟩ }
  obtain ⟨i, hi⟩ := List.mem_iff_getElem?.mp hmem
  have hother : (below.map ClassFile.name)[i]? = some (.ok name) := by
    rw [h.names, List.getElem?_map, hi]
    rfl
  rw [List.getElem?_map] at hother
  obtain ⟨other, hother, hothername⟩ := Option.map_eq_some_iff.mp hother
  exact ⟨file :: below, hchain, 0, i + 1, file, other, Nat.succ_pos i, rfl, hother, hname,
    hothername⟩

theorem OnPath.enter {file : ClassFile} {below : List ClassFile} {search : Search} {name : String}
    (h : OnPath repository start below search) (hname : file.name = .ok name)
    (hmem : name ∉ search.path) :
    OnPath repository start (file :: below) { search with path := name :: search.path } where
  names := by rw [List.map_cons, List.map_cons, hname, h.names]
  nodup := List.nodup_cons.mpr ⟨hmem, h.nodup⟩
  cycles := h.cycles

theorem OnPath.leave {file : ClassFile} {below : List ClassFile} {search : Search}
    (h : OnPath repository start (file :: below) search) (name : String) :
    OnPath repository start below (search.left name) where
  names := by
    have htail := congrArg (List.drop 1) h.names
    rw [← List.map_drop, ← List.map_drop] at htail
    exact htail
  nodup := h.nodup.sublist (List.drop_sublist 1 search.path)
  cycles := h.cycles

/-- Marking a class keeps the path, provided that the search of its supertypes keeps the longer
one. -/
theorem agree_marked {file : ClassFile} {below : List ClassFile}
    {body other : SearchM (Option (Located carrier))}
    (hchain : Ascent repository start (file :: below))
    (h : Agree (OnPath repository start (file :: below)) body other) :
    Agree (OnPath repository start below) (marked file body) (marked file other) := by
  refine .lift_bind fun name hname => ?_
  intro search hsearch
  rw [Search.run_bind, Search.run_bind, Search.run_enter]
  by_cases hpath : name ∈ search.path
  · rw [if_pos hpath]
    exact ⟨rfl, hsearch.report hchain hname hpath⟩
  · rw [if_neg hpath]
    by_cases hdone : name ∈ search.done
    · rw [if_pos hdone]
      exact ⟨rfl, hsearch⟩
    · rw [if_neg hdone]
      -- The longer path is kept until the class is left, which takes its name off again.
      obtain ⟨hsame, hleft⟩ := h _ (hsearch.enter hname hpath)
      refine ⟨?_, hleft.leave name⟩
      show Search.run _ (Search.leaving name body) = Search.run _ (Search.leaving name other)
      rw [Search.run_leaving, Search.run_leaving, hsame]

/-! ## The depth -/

/-- As long as the depth covers the names that are left, it does not matter how great it is, nor
what would be done if it were used up. -/
theorem agree_searchOr {declared : ClassFile → Except Error (Option (Member carrier))}
    {stop stopOther : ClassFile → SearchM (Option (Located carrier))} (fuel : Nat) :
    ∀ {fuelOther : Nat} {file : ClassFile} {below : List ClassFile},
      Ascent repository start (file :: below) → repository.size + 1 < below.length + fuel →
      repository.size + 1 < below.length + fuelOther →
      Agree (OnPath repository start below)
        (searchOr repository declared marked stop fuel file)
        (searchOr repository declared marked stopOther fuelOther file) := by
  -- With no depth left the path would have more names than there are.
  have hexhausted : ∀ {file : ClassFile} {below : List ClassFile} {search : Search},
      Ascent repository start (file :: below) → OnPath repository start below search →
      ¬ repository.size + 1 < below.length + 0 := by
    intro file below search hchain hsearch hlong
    have hle := length_le_of_nodup_names
      (fun other hother => hchain.reaches other (List.mem_cons_of_mem file hother))
      hsearch.names hsearch.nodup
    omega
  induction fuel with
  | zero =>
    intro fuelOther file below hchain hfuel _ search hsearch
    exact absurd hfuel (hexhausted hchain hsearch)
  | succ fuel ih =>
    intro fuelOther file below hchain hfuel hfuelOther
    cases fuelOther with
    | zero =>
      intro search hsearch
      exact absurd hfuelOther (hexhausted hchain hsearch)
    | succ fuelOther =>
      rw [searchOr, searchOr]
      refine (Agree.lift (declared file)).bind fun found => ?_
      cases found with
      | some found => exact .pure _
      | none =>
        refine agree_marked hchain (agree_fromSupertypes fun above habove => ?_)
        refine ih (.up hchain habove) ?_ ?_
        · rw [List.length_cons]
          omega
        · rw [List.length_cons]
          omega

/-! ## What is found -/

/-- A class sees a member that its superclass found: the member is public or protected, or it is
package-private and its owner is in the package of the class. -/
def VisibleBelow (file owner : ClassFile) (member : Member carrier) : Prop :=
  isWidelyVisible member = true
    ∨ member.isPackagePrivate = true
      ∧ ∃ package, owner.packageName = .ok package ∧ file.packageName = .ok package

/-- The class has the member of the owner by way of a chain of supertypes: the owner is the last
class of the chain and the first to declare one, and the member is visible along every edge. -/
inductive Inherited (repository : Repository) (absent : ClassFile → Prop)
    (first : ClassFile → Member carrier → Prop) (owner : ClassFile) (member : Member carrier) :
    ClassFile → Prop
  | own (h : first owner member) : Inherited repository absent first owner member owner
  | superclass {file above : ClassFile} (habsent : absent file)
      (habove : IsSuperclass repository file above) (hvisible : VisibleBelow file owner member)
      (h : Inherited repository absent first owner member above) :
      Inherited repository absent first owner member file
  | interface {file above : ClassFile} (habsent : absent file)
      (habove : IsInterface repository file above) (hvisible : isWidelyVisible member = true)
      (h : Inherited repository absent first owner member above) :
      Inherited repository absent first owner member file

theorem Inherited.mono {absent absentOther : ClassFile → Prop}
    {first firstOther : ClassFile → Member carrier → Prop} {owner file : ClassFile}
    {member : Member carrier} (habsent : ∀ file, absent file → absentOther file)
    (hfirst : ∀ owner member, first owner member → firstOther owner member)
    (h : Inherited repository absent first owner member file) :
    Inherited repository absentOther firstOther owner member file := by
  induction h with
  | own h => exact .own (hfirst owner member h)
  | superclass hnone habove hvisible _ ih => exact .superclass (habsent _ hnone) habove hvisible ih
  | interface hnone habove hvisible _ ih => exact .interface (habsent _ hnone) habove hvisible ih

/-- Only the class that declares it has a member that no edge lets through. -/
theorem Inherited.owner_eq {absent : ClassFile → Prop} {first : ClassFile → Member carrier → Prop}
    {owner file : ClassFile} {member : Member carrier}
    (h : Inherited repository absent first owner member file)
    (hprivate : member.has .accPrivate = true) (hnarrow : isWidelyVisible member = false) :
    owner = file := by
  have hlevel : member.isPackagePrivate = false := by
    have hhas : member.flags.has .accPrivate = true := hprivate
    simp [Member.isPackagePrivate, Flags.hasAccessLevel, hhas]
  cases h with
  | own _ => rfl
  | superclass _ _ hvisible _ =>
    rcases hvisible with hwide | ⟨hpackage, -⟩
    · rw [hnarrow] at hwide
      cases hwide
    · rw [hlevel] at hpackage
      cases hpackage
  | interface _ _ hvisible _ =>
    rw [hnarrow] at hvisible
    cases hvisible

theorem visibleBelow_of_isInherited {file : ClassFile} {found : Located carrier}
    (h : isInherited file found = .ok true) : VisibleBelow file found.1 found.2 := by
  obtain ⟨ownerPackage, howner, h⟩ := bind_eq_ok_iff.mp h
  obtain ⟨package, hfile, h⟩ := bind_eq_ok_iff.mp h
  have h : (isWidelyVisible found.2 || (found.2.isPackagePrivate && ownerPackage == package))
      = true := Except.ok.inj h
  rcases Bool.or_eq_true_iff.mp h with hwide | hnarrow
  · exact Or.inl hwide
  · obtain ⟨hlevel, hsame⟩ := Bool.and_eq_true_iff.mp hnarrow
    have hsame : ownerPackage = package := beq_iff_eq.mp hsame
    exact Or.inr ⟨hlevel, package, hsame ▸ howner, hfile⟩

section Found

variable {locate : ClassFile → SearchM (Option (Located carrier))}
  {finds : ClassFile → Located carrier → Prop}

theorem yields_fromInterfaces {interfaces : List ClassFile}
    (h : ∀ interface ∈ interfaces, Yields (locate interface) fun result =>
      ∀ found, result = some found → finds interface found) :
    Yields (fromInterfaces locate interfaces) fun result => ∀ found, result = some found →
      isWidelyVisible found.2 = true ∧ ∃ interface ∈ interfaces, finds interface found := by
  induction interfaces with
  | nil => exact .pure fun found hfound => (nomatch hfound)
  | cons interface others ih =>
    obtain ⟨hinterface, hothers⟩ := List.forall_mem_cons.mp h
    -- What the other interfaces find, they find as part of the longer list.
    have hlonger : Yields (fromInterfaces locate others) fun result =>
        ∀ found, result = some found → isWidelyVisible found.2 = true
          ∧ ∃ above ∈ interface :: others, finds above found := by
      intro search result hresult found hfound
      obtain ⟨hwide, above, hmem, hfinds⟩ := ih hothers search result hresult found hfound
      exact ⟨hwide, above, List.mem_cons_of_mem interface hmem, hfinds⟩
    refine hinterface.bind fun result hresult => ?_
    cases result with
    | none => exact hlonger
    | some found =>
      show Yields (if isWidelyVisible found.2 then _ else _) _
      split
      · rename_i hwide
        refine .pure fun other hother => ?_
        cases hother
        exact ⟨hwide, interface, List.mem_cons_self, hresult found rfl⟩
      · exact hlonger

theorem yields_fromSuperclass {file : ClassFile} {superclass : Option ClassFile}
    (h : ∀ above, superclass = some above →
      Yields (locate above) fun result => ∀ found, result = some found → finds above found) :
    Yields (fromSuperclass locate file superclass) fun result => ∀ found, result = some found →
      isInherited file found = .ok true ∧ ∃ above, superclass = some above ∧ finds above found := by
  cases superclass with
  | none => exact .pure fun found hfound => (nomatch hfound)
  | some above =>
    refine (h above rfl).bind fun result hresult => ?_
    cases result with
    | none => exact .pure fun found hfound => (nomatch hfound)
    | some found =>
      refine Yields.bind (Yields.lift fun _ hinherited => hinherited) fun inherited hinherited => ?_
      refine .pure fun other hother => ?_
      cases inherited with
      | false => cases hother
      | true =>
        cases hother
        exact ⟨hinherited, above, rfl, hresult found rfl⟩

end Found

/-- Whatever a search finds, the class it starts from has by way of a chain of supertypes. -/
theorem yields_searchOr {declared : ClassFile → Except Error (Option (Member carrier))}
    (fuel : Nat) : ∀ file : ClassFile,
      Yields (searchOr repository declared marked (fun _ => pure none) fuel file) fun result =>
        ∀ found, result = some found →
          Inherited repository (fun file => declared file = .ok none)
            (fun owner member => declared owner = .ok (some member)) found.1 found.2 file := by
  induction fuel with
  | zero => exact fun file => .pure fun found hfound => (nomatch hfound)
  | succ fuel ih =>
    intro file
    rw [searchOr]
    refine Yields.bind (Yields.lift fun _ hdeclared => hdeclared) fun own hown => ?_
    cases own with
    | some member =>
      refine .pure fun found hfound => ?_
      cases hfound
      exact .own hown
    | none =>
      refine .skip fun name => .skip fun entered => ?_
      cases entered with
      | false => exact .pure fun found hfound => (nomatch hfound)
      | true =>
        -- The edge that the member came along decides which rule extends its chain.
        refine Yields.leaving ?_
        rw [fromSupertypes_eq]
        refine Yields.bind (Yields.lift fun _ hfound => hfound) fun superclass hsuper => ?_
        refine (yields_fromSuperclass fun above _ => ih above).bind fun result hresult => ?_
        cases result with
        | some located =>
          refine .pure fun found hfound => ?_
          cases hfound
          obtain ⟨hinherited, above, rfl, hchain⟩ := hresult located rfl
          exact .superclass hown hsuper (visibleBelow_of_isInherited hinherited) hchain
        | none =>
          refine Yields.bind (Yields.lift fun _ hknown => hknown) fun known hknown => ?_
          intro search result hfinds found hfound
          obtain ⟨hwide, above, hmem, hchain⟩ :=
            yields_fromInterfaces (fun above _ => ih above) search result hfinds found hfound
          exact .interface hown ⟨known, hknown, hmem⟩ hwide hchain

/-! ## The first member of a name -/

/-- All the members have other names. -/
def NoneNamed {α : Type} (nameOf : α → Except Error String) (name : String)
    (members : List α) : Prop :=
  ∀ member ∈ members, ∃ other, nameOf member = .ok other ∧ other ≠ name

/-- The member has the name, and all members before it have others. -/
def FirstNamed {α : Type} (nameOf : α → Except Error String) (name : String) (members : List α)
    (member : α) : Prop :=
  ∃ before behind, members = before ++ member :: behind ∧ nameOf member = .ok name
    ∧ NoneNamed nameOf name before

theorem test_eq_ok {α : Type} {nameOf : α → Except Error String} {name : String} {member : α}
    {same : Bool} (h : (do return (← nameOf member) == name) = Except.ok same) :
    ∃ other, nameOf member = .ok other ∧ ((other == name) = same) := by
  obtain ⟨other, hother, h⟩ := bind_eq_ok_iff.mp h
  exact ⟨other, hother, Except.ok.inj h⟩

/-- A search of a list by name passes over members of other names and stops at one of the name. -/
theorem findFirst?_by_name {α : Type} {nameOf : α → Except Error String} {name : String}
    {members : List α} {result : Option α}
    (h : ClassFile.findFirst? (fun member => return (← nameOf member) == name) members
      = .ok result) :
    (result = none → NoneNamed nameOf name members)
      ∧ ∀ member, result = some member → FirstNamed nameOf name members member := by
  induction members with
  | nil =>
    cases h
    exact ⟨fun _ member hmember => absurd hmember List.not_mem_nil, fun _ h => (nomatch h)⟩
  | cons head others ih =>
    obtain ⟨same, htest, h⟩ := bind_eq_ok_iff.mp h
    obtain ⟨other, hother, hsame⟩ := test_eq_ok htest
    cases same with
    | true =>
      cases h
      refine ⟨fun h => (nomatch h), fun member hmember => ?_⟩
      cases hmember
      have hname : nameOf head = .ok name := beq_iff_eq.mp hsame ▸ hother
      exact ⟨[], others, rfl, hname, fun _ hmem => absurd hmem List.not_mem_nil⟩
    | false =>
      have hne : other ≠ name := beq_eq_false_iff_ne.mp hsame
      obtain ⟨hnone, hfirst⟩ := ih h
      refine ⟨fun hresult => List.forall_mem_cons.mpr ⟨⟨other, hother, hne⟩, hnone hresult⟩, ?_⟩
      intro member hmember
      obtain ⟨before, behind, rfl, hname, hbefore⟩ := hfirst member hmember
      refine ⟨head :: before, behind, rfl, hname, ?_⟩
      exact List.forall_mem_cons.mpr ⟨⟨other, hother, hne⟩, hbefore⟩

/-! ## Searches for fields and methods -/

/-- What is promised of a search from a class, given its look-up in one class, when a class has no
member of the kind that is looked for, and which one it has first. -/
structure SearchSpec (repository : Repository) (start : ClassFile)
    (declared : ClassFile → Except Error (Option (Member carrier))) (absent : ClassFile → Prop)
    (first : ClassFile → Member carrier → Prop)
    (outcome : Except Error (Option (Located carrier)) × Search) : Prop where
  /-- The search never gets as deep as its depth, whatever would be done there. -/
  terminates : ∀ stop fuel, repository.size + 2 ≤ fuel →
    ({} : Search).run (searchOr repository declared marked stop fuel start) = outcome
  inherited : ∀ owner member, outcome.1 = .ok (some (owner, member)) →
    Inherited repository absent first owner member start
  /-- A member that is just private is found only in the class itself. -/
  own : ∀ owner member, outcome.1 = .ok (some (owner, member)) →
    member.has .accPrivate = true → isWidelyVisible member = false → owner = start
  cyclic : ∀ name ∈ outcome.2.cycles,
    ∃ chain, Ascent repository start chain ∧ CarriesTwice name chain
  acyclic : (∀ chain name, Ascent repository start chain → ¬ CarriesTwice name chain) →
    outcome.2.cycles = []

theorem searchSpec_locate (repository : Repository) (start : ClassFile)
    {declared : ClassFile → Except Error (Option (Member carrier))} {absent : ClassFile → Prop}
    {first : ClassFile → Member carrier → Prop}
    (habsent : ∀ file, declared file = .ok none → absent file)
    (hfirst : ∀ owner member, declared owner = .ok (some member) → first owner member) :
    SearchSpec repository start declared absent first (locate repository declared start) := by
  have hlocate : locate repository declared start
      = ({} : Search).run (searchOr repository declared marked (fun _ => pure none)
          (repository.size + 2) start) := by
    rw [← locateWithin_eq_searchOr]
    rfl
  have hagree : ∀ (stop : ClassFile → SearchM (Option (Located carrier))) (fuel : Nat),
      repository.size + 2 ≤ fuel →
      Agree (OnPath repository start [])
        (searchOr repository declared marked stop fuel start)
        (searchOr repository declared marked (fun _ => pure none) (repository.size + 2) start) := by
    intro stop fuel hfuel
    refine agree_searchOr fuel .start ?_ ?_
    · rw [List.length_nil]
      omega
    · rw [List.length_nil]
      omega
  have hinherited : ∀ owner member,
      (locate repository declared start).1 = .ok (some (owner, member)) →
      Inherited repository absent first owner member start := by
    intro owner member hfound
    rw [hlocate] at hfound
    exact (yields_searchOr (repository.size + 2) start {} _ hfound (owner, member) rfl).mono
      habsent hfirst
  have hcyclic : ∀ name ∈ (locate repository declared start).2.cycles,
      ∃ chain, Ascent repository start chain ∧ CarriesTwice name chain := by
    rw [hlocate]
    exact (hagree _ _ (Nat.le_refl _) {} .empty).2.cycles
  refine ⟨?_, hinherited, ?_, hcyclic, ?_⟩
  · intro stop fuel hfuel
    rw [hlocate]
    exact (hagree stop fuel hfuel {} .empty).1
  · intro owner member hfound hprivate hnarrow
    exact (hinherited owner member hfound).owner_eq hprivate hnarrow
  · intro hacyclic
    refine List.eq_nil_iff_forall_not_mem.mpr fun name hname => ?_
    obtain ⟨chain, hchain, htwice⟩ := hcyclic name hname
    exact hacyclic chain name hchain htwice

/-- Searches for fields and for methods come to an end on every repository, find only what the class
has by way of a chain of supertypes, and report a class as cyclic only if a chain has its name
twice. -/
theorem locate_terminates_and_sound (repository : Repository) (start : ClassFile) :
    (∀ name, SearchSpec repository start (·.field? name)
      (fun file => NoneNamed (fun field : Field => field.name file.pool) name file.fields)
      (fun owner => FirstNamed (fun field : Field => field.name owner.pool) name owner.fields)
      (locateField repository start name))
    ∧ ∀ signature, SearchSpec repository start (·.method? signature)
      (fun file => NoneNamed (fun method => Method.signature method file) signature file.methods)
      (fun owner =>
        FirstNamed (fun method => Method.signature method owner) signature owner.methods)
      (locateMethod repository start signature) := by
  constructor
  · intro name
    refine searchSpec_locate repository start (fun file hnone => ?_) (fun owner member hsome => ?_)
    · exact (findFirst?_by_name hnone).1 rfl
    · exact (findFirst?_by_name hsome).2 member rfl
  · intro signature
    refine searchSpec_locate repository start (fun file hnone => ?_) (fun owner member hsome => ?_)
    · exact (findFirst?_by_name hnone).1 rfl
    · exact (findFirst?_by_name hsome).2 member rfl

end ClassFormat.Hierarchy
