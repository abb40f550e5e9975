/-
# ClassFormat.Proofs.Hierarchy.Plain: the search without marks

Where no class is among its own supertypes, a search needs no marks to come to an end: it may search
a class each time it meets it.  If all look-ups succeed too, the result is a function of the class
alone.  `plain` is that function, and `plain_eq` its recursion: what the class declares, else what
it inherits from its superclass, else the first widely visible member that an interface has.
-/
import ClassFormat.Proofs.Hierarchy.Chains
import ClassFormat.Proofs.Hierarchy.Runs

namespace ClassFormat.Hierarchy

variable {carrier : FlagCarrier}

/-! ## Hierarchies without cycles -/

/-- Every look-up that a search from a class can come to succeeds. -/
structure Resolves (repository : Repository)
    (declared : ClassFile → Except Error (Option (Member carrier))) (start : ClassFile) : Prop where
  declared : ∀ file, Reaches repository start file → ∃ own, declared file = .ok own
  name : ∀ file, Reaches repository start file → ∃ name, file.name = .ok name
  superclass : ∀ file, Reaches repository start file → ∃ name?, file.superclassName = .ok name?
  interfaces : ∀ file, Reaches repository start file → ∃ names, file.interfaceNames = .ok names

/-- No class that is reached has a class of its own name above it. -/
def Acyclic (repository : Repository) (start : ClassFile) : Prop :=
  ∀ file above, Reaches repository start file → Relation.TransGen (Above repository) file above →
    file.name ≠ above.name

/-- No class from a class upwards has one of the names. -/
def Clear (repository : Repository) (names : List String) (file : ClassFile) : Prop :=
  ∀ above name, Reaches repository file above → above.name = .ok name → name ∉ names

/-- No chain from a class upwards has more than the given number of classes. -/
def Depth (repository : Repository) : Nat → ClassFile → Prop
  | 0, _ => False
  | depth + 1, file => ∀ above, Above repository file above → Depth repository depth above

variable {repository : Repository} {start : ClassFile}
  {declared : ClassFile → Except Error (Option (Member carrier))}

theorem Clear.nil (file : ClassFile) : Clear repository [] file :=
  fun _ _ _ _ => List.not_mem_nil

/-- A step up may add the name of the class it leaves. -/
theorem Clear.up {names : List String} {file above : ClassFile} {name : String}
    (h : Clear repository names file) (hacyclic : Acyclic repository start)
    (hfile : Reaches repository start file) (hname : file.name = .ok name)
    (habove : Above repository file above) : Clear repository (name :: names) above := by
  intro higher other hhigher hother hmem
  rcases List.mem_cons.mp hmem with rfl | hmem
  · refine hacyclic file higher hfile (.head' habove hhigher) ?_
    rw [hname, hother]
  · exact h higher other (.head habove hhigher) hother hmem

/-- The classes below a class, with different names that no class from there upwards has, leave as
much depth as there are names left. -/
theorem depth_of_below (hresolves : Resolves repository declared start)
    (hacyclic : Acyclic repository start) (depth : Nat) :
    ∀ (file : ClassFile) (below : List ClassFile) (names : List String),
      Reaches repository start file → (∀ other ∈ below, Reaches repository start other) →
      below.map ClassFile.name = names.map .ok → names.Nodup → Clear repository names file →
      repository.size + 1 < below.length + depth → Depth repository depth file := by
  induction depth with
  | zero =>
    intro file below names _ hbelow hnames hnodup _ hlong
    -- There are not that many names.
    have hle := length_le_of_nodup_names hbelow hnames hnodup
    omega
  | succ depth ih =>
    intro file below names hfile hbelow hnames hnodup hfresh hlong above habove
    obtain ⟨name, hname⟩ := hresolves.name file hfile
    refine ih above (file :: below) (name :: names) (hfile.tail habove)
      (List.forall_mem_cons.mpr ⟨hfile, hbelow⟩) ?_ ?_ ?_ ?_
    · rw [List.map_cons, List.map_cons, hname, hnames]
    · exact List.nodup_cons.mpr ⟨hfresh file name .refl hname, hnodup⟩
    · exact hfresh.up hacyclic hfile hname habove
    · rw [List.length_cons]
      omega

theorem depth_of_acyclic (hresolves : Resolves repository declared start)
    (hacyclic : Acyclic repository start) : Depth repository (repository.size + 2) start := by
  refine depth_of_below hresolves hacyclic _ start [] [] .refl ?_ rfl List.nodup_nil
    (Clear.nil start) ?_
  · exact fun _ h => absurd h List.not_mem_nil
  · rw [List.length_nil]
    omega

/-! ## What a class inherits -/

/-- Whether a class inherits what its superclass finds, where both packages are known. -/
def inherits (file : ClassFile) (found : Located carrier) : Bool :=
  (isInherited file found).toOption.getD false

/-- The first member that an interface finds and that is visible whatever the package. -/
def firstWide (find : ClassFile → Option (Located carrier)) (interfaces : List ClassFile) :
    Option (Located carrier) :=
  interfaces.findSome? fun interface => (find interface).filter fun found =>
    isWidelyVisible found.2

/-- What the superclass finds, if it is inherited, else what the interfaces find. -/
def inheritedFrom (find : ClassFile → Option (Located carrier)) (file : ClassFile)
    (superclass : Option ClassFile) (interfaces : List ClassFile) : Option (Located carrier) :=
  ((superclass.bind find).filter (inherits file)).or (firstWide find interfaces)

theorem isInherited_eq_ok {file : ClassFile} {found : Located carrier}
    (hfile : ∃ name, file.name = .ok name) (howner : ∃ name, found.1.name = .ok name) :
    isInherited file found = .ok (inherits file found) := by
  obtain ⟨name, hname⟩ := hfile
  obtain ⟨owner, howner⟩ := howner
  have hresult : ∃ inherited, isInherited file found = .ok inherited := by
    refine ⟨_, bind_eq_ok_iff.mpr ⟨Name.packageOf owner, ?_, bind_eq_ok_iff.mpr
      ⟨Name.packageOf name, ?_, rfl⟩⟩⟩
    · rw [ClassFile.packageName, howner]
      rfl
    · rw [ClassFile.packageName, hname]
      rfl
  obtain ⟨inherited, hinherited⟩ := hresult
  rw [inherits, hinherited]
  rfl

/-- A member that is visible whatever the package is inherited. -/
theorem inherits_of_isWidelyVisible {file : ClassFile} {found : Located carrier}
    (hfile : ∃ name, file.name = .ok name) (howner : ∃ name, found.1.name = .ok name)
    (hwide : isWidelyVisible found.2 = true) : inherits file found = true := by
  have hresult := isInherited_eq_ok hfile howner
  obtain ⟨ownerPackage, -, hresult⟩ := bind_eq_ok_iff.mp hresult
  obtain ⟨package, -, hresult⟩ := bind_eq_ok_iff.mp hresult
  rw [← Except.ok.inj hresult, hwide, Bool.true_or]

theorem isWidelyVisible_of_firstWide {find : ClassFile → Option (Located carrier)}
    {interfaces : List ClassFile} {found : Located carrier}
    (h : firstWide find interfaces = some found) : isWidelyVisible found.2 = true := by
  obtain ⟨interface, -, hfound⟩ := List.exists_of_findSome?_eq_some h
  exact (Option.filter_eq_some_iff.mp hfound).2

/-! ## Runs -/

variable {locate : ClassFile → SearchM (Option (Located carrier))} {file : ClassFile}

theorem run_fromSuperclass {search after : Search} {above : ClassFile}
    {result : Option (Located carrier)} (h : search.run (locate above) = (.ok result, after))
    (hfile : ∃ name, file.name = .ok name)
    (howner : ∀ found, result = some found → ∃ name, found.1.name = .ok name) :
    search.run (fromSuperclass locate file (some above))
      = (.ok (result.filter (inherits file)), after) := by
  rw [fromSuperclass, Search.run_bind_ok h]
  cases result with
  | none => rfl
  | some found =>
    have hinherited := isInherited_eq_ok hfile (howner found rfl)
    show after.run (liftM (isInherited file found) >>= _) = _
    rw [Search.run_lift_bind hinherited, Option.filter_some]
    rfl

section Supertypes

variable {search between : Search} {superclass : Option ClassFile}
  (hsuperclass : file.superclass? repository = .ok superclass)

include hsuperclass

/-- What the superclass finds and the class inherits goes before all interfaces. -/
theorem run_fromSupertypes_some {found : Located carrier}
    (h : search.run (fromSuperclass locate file superclass) = (.ok (some found), between)) :
    search.run (fromSupertypes repository locate file) = (.ok (some found), between) := by
  rw [fromSupertypes_eq, Search.run_lift_bind hsuperclass, Search.run_bind_ok h]
  rfl

theorem run_fromSupertypes_none {interfaces : List ClassFile}
    (hinterfaces : file.knownInterfaces repository = .ok interfaces)
    (h : search.run (fromSuperclass locate file superclass) = (.ok none, between)) :
    search.run (fromSupertypes repository locate file)
      = between.run (fromInterfaces locate interfaces) := by
  rw [fromSupertypes_eq, Search.run_lift_bind hsuperclass, Search.run_bind_ok h]
  exact Search.run_lift_bind hinterfaces _

end Supertypes

section Interfaces

variable {search between : Search} {interface : ClassFile} {others : List ClassFile}

/-- A member is found that is visible whatever the package, or there is no such member. -/
theorem wide_or_narrow (result : Option (Located carrier)) :
    (∃ found, result = some found ∧ isWidelyVisible found.2 = true)
      ∨ ∀ found, result = some found → isWidelyVisible found.2 = false := by
  cases result with
  | none => exact Or.inr fun _ hfound => (nomatch hfound)
  | some found =>
    cases hwide : isWidelyVisible found.2 with
    | true => exact Or.inl ⟨found, rfl, hwide⟩
    | false =>
      refine Or.inr fun kept hkept => ?_
      cases hkept
      exact hwide

theorem run_fromInterfaces_wide {found : Located carrier}
    (h : search.run (locate interface) = (.ok (some found), between))
    (hwide : isWidelyVisible found.2 = true) :
    search.run (fromInterfaces locate (interface :: others)) = (.ok (some found), between) := by
  rw [fromInterfaces, Search.run_bind_ok h]
  simp only [hwide, if_true]
  rfl

theorem run_fromInterfaces_narrow {result : Option (Located carrier)}
    (h : search.run (locate interface) = (.ok result, between))
    (hnarrow : ∀ found, result = some found → isWidelyVisible found.2 = false) :
    search.run (fromInterfaces locate (interface :: others))
      = between.run (fromInterfaces locate others) := by
  rw [fromInterfaces, Search.run_bind_ok h]
  cases result with
  | none => rfl
  | some found => simp only [hnarrow found rfl, Bool.false_eq_true, if_false]

theorem firstWide_cons_of_wide {find : ClassFile → Option (Located carrier)}
    {found : Located carrier} (h : find interface = some found)
    (hwide : isWidelyVisible found.2 = true) :
    firstWide find (interface :: others) = some found := by
  rw [firstWide, List.findSome?_cons, h, Option.filter_some, hwide]
  rfl

theorem firstWide_cons_of_narrow {find : ClassFile → Option (Located carrier)}
    (h : ∀ found, find interface = some found → isWidelyVisible found.2 = false) :
    firstWide find (interface :: others) = firstWide find others := by
  have hdropped : (find interface).filter (fun found => isWidelyVisible found.2) = none := by
    rw [Option.filter_eq_none_iff]
    intro found hfound
    rw [h found hfound]
    exact Bool.false_ne_true
  rw [firstWide, List.findSome?_cons, hdropped]
  rfl

/-- Interfaces whose searches leave the state as it is. -/
theorem run_fromInterfaces_of {find : ClassFile → Option (Located carrier)}
    {interfaces : List ClassFile}
    (h : ∀ interface ∈ interfaces,
      search.run (locate interface) = (.ok (find interface), search)) :
    search.run (fromInterfaces locate interfaces)
      = (.ok (firstWide find interfaces), search) := by
  induction interfaces with
  | nil => rfl
  | cons interface others ih =>
    obtain ⟨hinterface, hothers⟩ := List.forall_mem_cons.mp h
    rcases wide_or_narrow (find interface) with ⟨found, hfound, hwide⟩ | hnarrow
    · rw [hfound] at hinterface
      rw [firstWide_cons_of_wide hfound hwide]
      exact run_fromInterfaces_wide hinterface hwide
    · rw [firstWide_cons_of_narrow hnarrow, run_fromInterfaces_narrow hinterface hnarrow]
      exact ih hothers

end Interfaces

/-! ## The plain search -/

/-- What the search without marks finds; nothing, should it fail or go deeper than a chain of
different names can. -/
def plain (repository : Repository)
    (declared : ClassFile → Except Error (Option (Member carrier))) (file : ClassFile) :
    Option (Located carrier) :=
  (({} : Search).run (searchOr repository declared unmarked (fun _ => pure none)
    (repository.size + 2) file)).1.toOption.join

/-- The search without marks comes to a result: as long as it may go deep enough, neither how deep
it may go matters nor what would be done there. -/
def Settles (repository : Repository)
    (declared : ClassFile → Except Error (Option (Member carrier))) (file : ClassFile)
    (result : Option (Located carrier)) : Prop :=
  ∃ depth, ∀ fuel, depth ≤ fuel → ∀ stop (search : Search),
    search.run (searchOr repository declared unmarked stop fuel file) = (.ok result, search)

/-- What a class declares, else what it inherits. -/
def ownOrInherited (find : ClassFile → Option (Located carrier)) (file : ClassFile)
    (own : Option (Member carrier)) (superclass : Option ClassFile) (interfaces : List ClassFile) :
    Option (Located carrier) :=
  match own with
  | some member => some (file, member)
  | none => inheritedFrom find file superclass interfaces

/-- The look-ups that a search needs at one class. -/
structure LooksUp (repository : Repository)
    (declared : ClassFile → Except Error (Option (Member carrier))) (file : ClassFile)
    (own : Option (Member carrier)) (superclass : Option ClassFile)
    (interfaces : List ClassFile) : Prop where
  own : declared file = .ok own
  superclass : file.superclass? repository = .ok superclass
  interfaces : file.knownInterfaces repository = .ok interfaces

theorem Resolves.exists_looksUp (h : Resolves repository declared start)
    (hfile : Reaches repository start file) :
    ∃ own superclass interfaces,
      LooksUp repository declared file own superclass interfaces := by
  obtain ⟨own, hown⟩ := h.declared file hfile
  obtain ⟨name?, hname⟩ := h.superclass file hfile
  obtain ⟨names, hnames⟩ := h.interfaces file hfile
  refine ⟨own, name?.bind repository.find?, names.filterMap repository.find?, hown, ?_, ?_⟩
  · exact bind_eq_ok_iff.mpr ⟨name?, hname, rfl⟩
  · exact bind_eq_ok_iff.mpr ⟨names, hnames, rfl⟩

/-- One step of the search without marks, over classes whose search leaves the state as it is. -/
theorem run_unmarked {find : ClassFile → Option (Located carrier)} {search : Search} {fuel : Nat}
    {stop : ClassFile → SearchM (Option (Located carrier))} {own : Option (Member carrier)}
    {superclass : Option ClassFile} {interfaces : List ClassFile}
    (hlooks : LooksUp repository declared file own superclass interfaces)
    (hfile : ∃ name, file.name = .ok name)
    (howner : ∀ above, Above repository file above → ∀ found, find above = some found →
      ∃ name, found.1.name = .ok name)
    (h : ∀ above, Above repository file above →
      search.run (searchOr repository declared unmarked stop fuel above)
        = (.ok (find above), search)) :
    search.run (searchOr repository declared unmarked stop (fuel + 1) file)
      = (.ok (ownOrInherited find file own superclass interfaces), search) := by
  rw [searchOr, Search.run_lift_bind hlooks.own]
  cases own with
  | some member => rfl
  | none =>
    have hsuperclass : search.run (fromSuperclass
        (searchOr repository declared unmarked stop fuel) file superclass)
          = (.ok ((superclass.bind find).filter (inherits file)), search) := by
      cases superclass with
      | none => rfl
      | some above =>
        have habove : Above repository file above := Or.inl hlooks.superclass
        exact run_fromSuperclass (h above habove) hfile (howner above habove)
    have hinterfaces : search.run (fromInterfaces
        (searchOr repository declared unmarked stop fuel) interfaces)
          = (.ok (firstWide find interfaces), search) :=
      run_fromInterfaces_of fun interface hmem =>
        h interface (Or.inr ⟨interfaces, hlooks.interfaces, hmem⟩)
    show search.run (fromSupertypes repository _ file) = _
    rw [ownOrInherited, inheritedFrom]
    cases habove : (superclass.bind find).filter (inherits file) with
    | some found =>
      rw [habove] at hsuperclass
      exact run_fromSupertypes_some hlooks.superclass hsuperclass
    | none =>
      rw [habove] at hsuperclass
      rw [run_fromSupertypes_none hlooks.superclass hlooks.interfaces hsuperclass, Option.none_or]
      exact hinterfaces

/-- What is inherited, a supertype has found. -/
theorem exists_above_of_inheritedFrom {find : ClassFile → Option (Located carrier)}
    {own : Option (Member carrier)} {superclass : Option ClassFile} {interfaces : List ClassFile}
    {found : Located carrier} (hlooks : LooksUp repository declared file own superclass interfaces)
    (h : inheritedFrom find file superclass interfaces = some found) :
    ∃ above, Above repository file above ∧ find above = some found := by
  rcases Option.or_eq_some_iff.mp h with hsuper | ⟨-, hwide⟩
  · obtain ⟨above, rfl, hfound⟩ := Option.bind_eq_some_iff.mp
      (Option.filter_eq_some_iff.mp hsuper).1
    exact ⟨above, Or.inl hlooks.superclass, hfound⟩
  · obtain ⟨interface, hmem, hfound⟩ := List.exists_of_findSome?_eq_some hwide
    exact ⟨interface, Or.inr ⟨interfaces, hlooks.interfaces, hmem⟩,
      (Option.filter_eq_some_iff.mp hfound).1⟩

/-- What the depth of the hierarchy ensures of the plain search at one class. -/
structure PlainAt (repository : Repository)
    (declared : ClassFile → Except Error (Option (Member carrier))) (start file : ClassFile)
    (depth : Nat) : Prop where
  run : ∀ fuel, depth ≤ fuel → ∀ stop (search : Search),
    search.run (searchOr repository declared unmarked stop fuel file)
      = (.ok (plain repository declared file), search)
  reaches : ∀ found, plain repository declared file = some found →
    Reaches repository start found.1
  eq : ∀ own superclass interfaces, LooksUp repository declared file own superclass interfaces →
    plain repository declared file
      = ownOrInherited (plain repository declared) file own superclass interfaces

theorem plainAt_of_depth (hresolves : Resolves repository declared start) (depth : Nat) :
    ∀ file, Depth repository depth file → depth ≤ repository.size + 2 →
      Reaches repository start file → PlainAt repository declared start file depth := by
  induction depth with
  | zero =>
    intro file hdepth
    cases hdepth
  | succ depth ih =>
    intro file hdepth hle hfile
    have habove : ∀ above, Above repository file above →
        PlainAt repository declared start above depth :=
      fun above h => ih above (hdepth above h) (by omega) (hfile.tail h)
    have howner : ∀ above, Above repository file above → ∀ found,
        plain repository declared above = some found → ∃ name, found.1.name = .ok name :=
      fun above h found hfound => hresolves.name found.1 ((habove above h).reaches found hfound)
    -- One step from the classes above, whatever depth is left for them.
    have hstep : ∀ own superclass interfaces,
        LooksUp repository declared file own superclass interfaces →
        ∀ fuel, depth ≤ fuel → ∀ stop (search : Search),
          search.run (searchOr repository declared unmarked stop (fuel + 1) file)
            = (.ok (ownOrInherited (plain repository declared) file own superclass interfaces),
                search) :=
      fun own superclass interfaces hlooks fuel hfuel stop search =>
        run_unmarked hlooks (hresolves.name file hfile) howner
          fun above h => (habove above h).run fuel hfuel stop search
    have heq : ∀ own superclass interfaces,
        LooksUp repository declared file own superclass interfaces →
        plain repository declared file
          = ownOrInherited (plain repository declared) file own superclass interfaces := by
      intro own superclass interfaces hlooks
      rw [plain, hstep own superclass interfaces hlooks (repository.size + 1) (by omega)]
      rfl
    obtain ⟨own, superclass, interfaces, hlooks⟩ := hresolves.exists_looksUp hfile
    refine ⟨?_, ?_, heq⟩
    · intro fuel hfuel stop search
      cases fuel with
      | zero => omega
      | succ fuel =>
        rw [heq own superclass interfaces hlooks]
        exact hstep own superclass interfaces hlooks fuel (by omega) stop search
    · intro found hfound
      rw [heq own superclass interfaces hlooks] at hfound
      cases own with
      | some member =>
        cases hfound
        exact hfile
      | none =>
        obtain ⟨above, h, hfound⟩ := exists_above_of_inheritedFrom hlooks hfound
        exact (habove above h).reaches found hfound

/-- Upwards the depth gets less. -/
theorem exists_depth_of_reaches {depth : Nat} (hdepth : Depth repository depth start)
    (hfile : Reaches repository start file) :
    ∃ less, less ≤ depth ∧ Depth repository less file := by
  induction hfile with
  | refl => exact ⟨depth, Nat.le_refl depth, hdepth⟩
  | tail _ habove ih =>
    obtain ⟨less, hless, hdepth⟩ := ih
    cases less with
    | zero => cases hdepth
    | succ less => exact ⟨less, by omega, hdepth _ habove⟩

/-- In a hierarchy without cycles the plain search is settled at every class that is reached. -/
theorem plainAt_of_acyclic (hresolves : Resolves repository declared start)
    (hacyclic : Acyclic repository start) (hfile : Reaches repository start file) :
    ∃ depth, PlainAt repository declared start file depth := by
  obtain ⟨depth, hle, hdepth⟩ :=
    exists_depth_of_reaches (depth_of_acyclic hresolves hacyclic) hfile
  exact ⟨depth, plainAt_of_depth hresolves depth file hdepth hle hfile⟩

end ClassFormat.Hierarchy
