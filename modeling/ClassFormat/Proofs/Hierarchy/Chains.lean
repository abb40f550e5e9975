/-
# ClassFormat.Proofs.Hierarchy.Chains: the classes above a class

A class leads to its superclass and to its interfaces, as far as the repository has them.  Nothing
is said here about how they are searched.  All classes above a class are in the repository, so
there are no more names among them than the repository has classes; that bounds every chain of
classes with different names.
-/
import ClassFormat.Hierarchy
import ClassFormat.Proofs.Outcome
import Mathlib.Logic.Relation

namespace ClassFormat.Hierarchy

/-! ## Supertypes -/

/-- The repository has the superclass of a class, and it is this one. -/
def IsSuperclass (repository : Repository) (file above : ClassFile) : Prop :=
  file.superclass? repository = .ok (some above)

/-- This is one of the interfaces of a class that the repository has. -/
def IsInterface (repository : Repository) (file above : ClassFile) : Prop :=
  ∃ known, file.knownInterfaces repository = .ok known ∧ above ∈ known

/-- A superclass or an interface. -/
def Above (repository : Repository) (file above : ClassFile) : Prop :=
  IsSuperclass repository file above ∨ IsInterface repository file above

/-- A class itself or any class above it. -/
abbrev Reaches (repository : Repository) : ClassFile → ClassFile → Prop :=
  Relation.ReflTransGen (Above repository)

/-- Supertypes are looked up by name. -/
theorem Above.exists_find {repository : Repository} {file above : ClassFile}
    (h : Above repository file above) : ∃ name, repository.find? name = some above := by
  rcases h with hsuper | ⟨known, hknown, hmem⟩
  · obtain ⟨name?, -, hfind⟩ := bind_eq_ok_iff.mp hsuper
    cases name? with
    | none => cases hfind
    | some name => exact ⟨name, Except.ok.inj hfind⟩
  · obtain ⟨names, -, hfind⟩ := bind_eq_ok_iff.mp hknown
    have hfind : names.filterMap repository.find? = known := Except.ok.inj hfind
    rw [← hfind] at hmem
    obtain ⟨name, -, hname⟩ := List.mem_filterMap.mp hmem
    exact ⟨name, hname⟩

theorem mem_entries_of_find? {repository : Repository} {name : String} {file : ClassFile}
    (h : repository.find? name = some file) : (name, file) ∈ repository.entries := by
  obtain ⟨entry, hentry, rfl⟩ := Option.map_eq_some_iff.mp h
  have hname := List.find?_some hentry
  rw [← beq_iff_eq.mp hname]
  exact List.mem_of_find?_eq_some hentry

/-! ## Names -/

/-- The names of a class and of all classes in the repository. -/
def nameSpace (repository : Repository) (start : ClassFile) : List String :=
  (start :: repository.files).filterMap fun file => file.name.toOption

theorem length_nameSpace_le (repository : Repository) (start : ClassFile) :
    (nameSpace repository start).length ≤ repository.size + 1 := by
  have hle := List.length_filterMap_le (fun file : ClassFile => file.name.toOption)
    (start :: repository.files)
  rw [List.length_cons, Repository.files, List.length_map] at hle
  exact hle

theorem mem_nameSpace {repository : Repository} {start file : ClassFile} {name : String}
    (h : Reaches repository start file) (hname : file.name = .ok name) :
    name ∈ nameSpace repository start := by
  have hmem : file ∈ start :: repository.files := by
    cases h with
    | refl => exact List.mem_cons_self
    | tail _ habove =>
      obtain ⟨key, hkey⟩ := habove.exists_find
      exact List.mem_cons_of_mem start (List.mem_map.mpr ⟨_, mem_entries_of_find? hkey, rfl⟩)
  refine List.mem_filterMap.mpr ⟨file, hmem, ?_⟩
  rw [hname]
  rfl

/-! ## Chains from a class upwards -/

/-- Classes each of which is above the next one, the last being the class they start from. -/
inductive Ascent (repository : Repository) (start : ClassFile) : List ClassFile → Prop
  | start : Ascent repository start [start]
  | up {file above : ClassFile} {below : List ClassFile}
      (h : Ascent repository start (file :: below)) (habove : Above repository file above) :
      Ascent repository start (above :: file :: below)

/-- Two different classes of a chain, or one class at two places of it, have the name. -/
def CarriesTwice (name : String) (chain : List ClassFile) : Prop :=
  ∃ (i j : Nat) (file other : ClassFile), i < j ∧ chain[i]? = some file ∧ chain[j]? = some other
    ∧ file.name = .ok name ∧ other.name = .ok name

theorem Ascent.reaches {repository : Repository} {start : ClassFile} {chain : List ClassFile}
    (h : Ascent repository start chain) : ∀ file ∈ chain, Reaches repository start file := by
  induction h with
  | start =>
    intro file hfile
    rw [List.mem_singleton.mp hfile]
  | @up file above below _ habove ih =>
    refine List.forall_mem_cons.mpr ⟨?_, ih⟩
    exact (ih file List.mem_cons_self).tail habove

/-- A chain of classes with different names is no longer than there are names. -/
theorem length_le_of_nodup_names {repository : Repository} {start : ClassFile}
    {below : List ClassFile} {names : List String}
    (hreaches : ∀ file ∈ below, Reaches repository start file)
    (hnames : below.map ClassFile.name = names.map .ok) (hnodup : names.Nodup) :
    below.length ≤ repository.size + 1 := by
  -- Different names that are all among those of the repository cannot outnumber them.
  have hsubset : names ⊆ nameSpace repository start := by
    intro name hname
    have hmem : (.ok name : Except Error String) ∈ below.map ClassFile.name := by
      rw [hnames]
      exact List.mem_map_of_mem hname
    obtain ⟨file, hfile, heq⟩ := List.mem_map.mp hmem
    exact mem_nameSpace (hreaches file hfile) heq
  have hlength : below.length = names.length := by
    simpa using congrArg List.length hnames
  calc below.length = names.length := hlength
    _ ≤ (nameSpace repository start).length := hnodup.length_le_of_subset hsubset
    _ ≤ repository.size + 1 := length_nameSpace_le repository start

end ClassFormat.Hierarchy
