/-
# ClassFormat.Hierarchy: finding inherited members

A member is looked for in a class, then in its superclass and everything above that, then in its
interfaces one after the other.  What a supertype finds counts only if it is visible from the class
below: along a superclass edge a member has to be public, protected, or package-private in the same
package; along an interface edge public or protected.  Supertypes that are not in the repository are
passed over.

Class files are not trusted to be acyclic.  A class whose supertypes are being searched is not
entered again, which is reported, and one whose supertypes have been searched is not searched twice.
The classes being searched have different names, so their number bounds the depth.
-/
import ClassFormat.Declaration

namespace ClassFormat

/-! ## Repositories -/

/-- Class files by name; each name stands once, and the names increase. -/
structure Repository where
  entries : List (String × ClassFile)
  increasing : (entries.map Prod.fst).Pairwise (· < ·)

namespace Repository

def empty : Repository := ⟨[], .nil⟩

/-- Puts an entry where its name belongs, in place of any other of that name. -/
def insertEntry (name : String) (file : ClassFile) :
    List (String × ClassFile) → List (String × ClassFile)
  | [] => [(name, file)]
  | (other, held) :: entries =>
    if name < other then (name, file) :: (other, held) :: entries
    else if name = other then (name, file) :: entries
    else (other, held) :: insertEntry name file entries

theorem mem_names_insertEntry {name other : String} {file : ClassFile}
    {entries : List (String × ClassFile)}
    (h : other ∈ (insertEntry name file entries).map Prod.fst) :
    other = name ∨ other ∈ entries.map Prod.fst := by
  fun_induction insertEntry name file entries with
  | case1 => simpa using h
  | case2 key held entries hlt => simpa using h
  | case3 held entries hlt =>
    rcases List.mem_cons.mp h with rfl | hmem
    · exact .inl rfl
    · exact .inr (List.mem_cons_of_mem _ hmem)
  | case4 key held entries hlt hne ih =>
    rcases List.mem_cons.mp h with rfl | hmem
    · exact .inr List.mem_cons_self
    · exact (ih hmem).imp_right (List.mem_cons_of_mem _)

theorem pairwise_insertEntry (name : String) (file : ClassFile)
    {entries : List (String × ClassFile)} (h : (entries.map Prod.fst).Pairwise (· < ·)) :
    ((insertEntry name file entries).map Prod.fst).Pairwise (· < ·) := by
  fun_induction insertEntry name file entries with
  | case1 => simp
  | case2 key held entries hlt =>
    rw [List.map_cons] at h ⊢
    refine List.pairwise_cons.mpr ⟨?_, h⟩
    refine List.forall_mem_cons.mpr ⟨hlt, fun other hother => ?_⟩
    exact String.lt_trans hlt ((List.pairwise_cons.mp h).1 other hother)
  | case3 held entries hlt => exact h
  | case4 key held entries hlt hne ih =>
    rw [List.map_cons] at h ⊢
    obtain ⟨hbelow, hrest⟩ := List.pairwise_cons.mp h
    -- Behind this name stand those that did before and the new one, which is greater too.
    refine List.pairwise_cons.mpr ⟨fun other hother => ?_, ih hrest⟩
    rcases mem_names_insertEntry hother with rfl | hmem
    · exact Std.lt_of_le_of_ne (String.not_lt.mp hlt) (Ne.symm hne)
    · exact hbelow other hmem

/-- Stores a class file under a name, in place of any other of that name. -/
def insert (repository : Repository) (name : String) (file : ClassFile) : Repository :=
  ⟨insertEntry name file repository.entries, pairwise_insertEntry name file repository.increasing⟩

def find? (repository : Repository) (name : String) : Option ClassFile :=
  (repository.entries.find? fun entry => entry.1 == name).map Prod.snd

/-- The names in use, in increasing order. -/
def names (repository : Repository) : List String := repository.entries.map Prod.fst

/-- The class files, in the order of their names. -/
def files (repository : Repository) : List ClassFile := repository.entries.map Prod.snd

def size (repository : Repository) : Nat := repository.entries.length

def isEmpty (repository : Repository) : Bool := repository.entries.isEmpty

end Repository

/-! ## One class -/

namespace ClassFile

/-- The first field of the class with a name. -/
def field? (file : ClassFile) (name : String) : Except Error (Option Field) :=
  findFirst? (fun field => return (← field.name file.pool) == name) file.fields

/-- The first method of the class with a signature. -/
def method? (file : ClassFile) (signature : String) : Except Error (Option Method) :=
  findFirst? (fun method => return (← Method.signature method file) == signature) file.methods

/-- The superclass, if the repository has it. -/
def superclass? (file : ClassFile) (repository : Repository) :
    Except Error (Option ClassFile) := do
  return (← file.superclassName).bind repository.find?

/-- Those interfaces of the class that the repository has. -/
def knownInterfaces (file : ClassFile) (repository : Repository) :
    Except Error (List ClassFile) := do
  return (← file.interfaceNames).filterMap repository.find?

end ClassFile

/-! ## Searches -/

/-- Which classes a search has met. -/
structure Search where
  /-- The classes whose supertypes are being searched, innermost first. -/
  path : List String := []
  /-- The classes whose supertypes have been searched. -/
  done : List String := []
  /-- The classes met again while their supertypes were being searched, latest first. -/
  cycles : List String := []

/-- A step of a search, which keeps what it has met even when it fails. -/
abbrev SearchM := ExceptT Error (StateM Search)

namespace Search

/-- Starts on the supertypes of a class unless that is done or under way, and says whether it
did. -/
def enter (name : String) : SearchM Bool := do
  let search ← get
  if search.path.contains name then
    set { search with cycles := name :: search.cycles }
    return false
  else if search.done.contains name then
    return false
  else
    set { search with path := name :: search.path }
    return true

/-- Runs the search of the supertypes of an entered class, and notes that it is done whether it
succeeds or fails. -/
def leaving {α : Type} (name : String) (body : SearchM α) : SearchM α := ExceptT.mk do
  let result ← body.run
  modify fun search =>
    { search with path := search.path.drop 1, done := name :: search.done }
  return result

end Search

/-! ## Members of a class and its supertypes -/

namespace Hierarchy

variable {carrier : FlagCarrier}

/-- A member together with the class that declares it. -/
abbrev Located (carrier : FlagCarrier) := ClassFile × Member carrier

/-- Whether a member is visible whatever the package. -/
def isWidelyVisible (member : Member carrier) : Bool :=
  member.has .accPublic || member.has .accProtected

/-- Whether a class inherits what its superclass finds. -/
def isInherited (file : ClassFile) (found : Located carrier) : Except Error Bool := do
  let samePackage := (← found.1.packageName) == (← file.packageName)
  return isWidelyVisible found.2 || (found.2.isPackagePrivate && samePackage)

/-- What the first interface finds that finds something visible. -/
def fromInterfaces (locate : ClassFile → SearchM (Option (Located carrier))) :
    List ClassFile → SearchM (Option (Located carrier))
  | [] => return none
  | interface :: others => do
    match ← locate interface with
    | some found =>
      if isWidelyVisible found.2 then return some found else fromInterfaces locate others
    | none => fromInterfaces locate others

/-- What the supertypes of a class find, given how one supertype is searched. -/
def fromSupertypes (repository : Repository)
    (locate : ClassFile → SearchM (Option (Located carrier))) (file : ClassFile) :
    SearchM (Option (Located carrier)) := do
  let above ← match ← file.superclass? repository with
    | some superclass => do
      match ← locate superclass with
      | some found => pure (if ← isInherited file found then some found else none)
      | none => pure none
    | none => pure none
  match above with
  | some found => return some found
  | none => fromInterfaces locate (← file.knownInterfaces repository)

/-- Looks a member up in a class and its supertypes, entering at most `fuel` classes on the way
up. -/
def locateWithin (repository : Repository)
    (declared : ClassFile → Except Error (Option (Member carrier))) :
    (fuel : Nat) → ClassFile → SearchM (Option (Located carrier))
  | 0, _ => return none
  | fuel + 1, file => do
    match ← declared file with
    | some found => return some (file, found)
    | none =>
      let name ← file.name
      if ← Search.enter name then
        Search.leaving name
          (fromSupertypes repository (locateWithin repository declared fuel) file)
      else return none

/-- Looks a member up from a class, with what the search met.  The names on the path are those of
the first class and of classes in the repository. -/
def locate (repository : Repository)
    (declared : ClassFile → Except Error (Option (Member carrier))) (file : ClassFile) :
    Except Error (Option (Located carrier)) × Search :=
  (locateWithin repository declared (repository.size + 2) file).run.run {}

/-- The field of a name that is visible in a class, and the class that declares it. -/
def locateField (repository : Repository) (file : ClassFile) (name : String) :
    Except Error (Option (Located .ofField)) × Search :=
  locate repository (·.field? name) file

/-- The method of a signature that is visible in a class, and the class that declares it. -/
def locateMethod (repository : Repository) (file : ClassFile) (signature : String) :
    Except Error (Option (Located .ofMethod)) × Search :=
  locate repository (·.method? signature) file

end Hierarchy

end ClassFormat
