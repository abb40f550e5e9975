/-
# ClassFormat.Proofs.Loading.Versions: the versions of a class that are decoded

Which entries of an archive hold versions of a class is decided by the selection, which takes the
ending `.class` as it is written.  Which entries are class files is decided when they are loaded, in
any case.  For a path that ends in `.class` the two agree, and at most one version of it is decoded.
For one that ends in `.CLASS` they do not: all its versions are decoded, one after the other.
-/
import ClassFormat.Proofs.Loading.Course
import ClassFormat.Proofs.Loading.Selection

namespace ClassFormat.Loading

/-! ## Class files of the outermost group -/

/-- The class files that are begun where just one group is open, given how many are open where the
log starts. -/
def begunDirectly : (depth : Nat) → List LogEntry → List String
  | _, [] => []
  | depth, .event (.beginGroup _ _) :: log => begunDirectly (depth + 1) log
  | depth, .event (.endGroup _) :: log => begunDirectly (depth - 1) log
  | depth, .event (.beginClassFile _ file) :: log =>
    (if depth = 1 then [file] else []) ++ begunDirectly depth log
  | depth, _ :: log => begunDirectly depth log

/-- The class files that a loader decodes directly from an archive, in order. -/
def Loader.decodedFrom (loader : Loader) (name : String) (jar : Bool) (contents : Contents) :
    List String :=
  begunDirectly 0 (loader.loadArchive name jar contents).2.2

/-- The acts leave as many groups open as there are, at least one, and begin these class files in
the innermost of them. -/
def Begins (files : List String) (acts : List Act) : Prop :=
  ∀ depth log, begunDirectly (depth + 1) (logOf acts ++ log)
    = (if depth = 0 then files else []) ++ begunDirectly (depth + 1) log

namespace Begins

theorem nil : Begins [] [] := by
  intro depth log
  simp

theorem append {files more : List String} {acts others : List Act} (h : Begins files acts)
    (hothers : Begins more others) : Begins (files ++ more) (acts ++ others) := by
  intro depth log
  rw [logOf_append, List.append_assoc, h, hothers]
  split <;> simp

theorem flatten {α : Type} {xs : List α} {files : α → List String} {acts : α → List Act}
    (h : ∀ x ∈ xs, Begins (files x) (acts x)) :
    Begins (xs.flatMap files) (xs.map acts).flatten := by
  induction xs with
  | nil => exact nil
  | cons x xs ih =>
    obtain ⟨hx, hxs⟩ := List.forall_mem_cons.mp h
    rw [List.flatMap_cons, List.map_cons, List.flatten_cons]
    exact hx.append (ih hxs)

end Begins

/-- In a group that is not the outermost one nothing counts. -/
theorem begins_groupActs {α : Type} {name : String} {xs : List α} {files : α → List String}
    {acts : α → List Act} (h : ∀ x ∈ xs, Begins (files x) (acts x)) :
    Begins [] (groupActs name (xs.map acts)) := by
  intro depth log
  -- Inside the group at least two are open, so none of its class files counts.
  have hfiles := Begins.flatten h (depth + 1) (.event (.endGroup name) :: log)
  simpa [groupActs, Act.log, begunDirectly] using hfiles

theorem begunDirectly_groupActs {α : Type} {name : String} {xs : List α}
    {files : α → List String} {acts : α → List Act} (h : ∀ x ∈ xs, Begins (files x) (acts x)) :
    begunDirectly 0 (logOf (groupActs name (xs.map acts))) = xs.flatMap files := by
  have hfiles := Begins.flatten h 0 [.event (.endGroup name)]
  simpa [groupActs, Act.log, begunDirectly] using hfiles

/-- A file is begun as a class file if it is named like one. -/
def asClassFile (name : String) : List String :=
  if FileKind.ofName name = .classFile then [name] else []

theorem begins_byNameActs {group name : String} {bytes : List UInt8}
    {course : (jar : Bool) → Except LoadError (List Act)}
    (h : ∀ jar acts, course jar = .ok acts → Begins [] acts) :
    Begins (asClassFile name) (byNameActs group name bytes course) := by
  have hopened : ∀ jar, Begins [] (openedOr (.nestedArchiveNotLoaded name) (course jar)) := by
    intro jar
    cases hcourse : course jar with
    | ok acts => exact h jar acts hcourse
    | error cause =>
      intro depth log
      simp [openedOr, Act.log, begunDirectly]
  have hinside : Begins (asClassFile name) (insideActs group name bytes course) := by
    unfold insideActs asClassFile
    cases FileKind.ofName name with
    | classFile =>
      intro depth log
      cases hdecode : ClassFile.decode bytes <;>
        simp [Act.log, verdict, hdecode, begunDirectly]
    | jar => exact hopened true
    | zip => exact hopened false
    | other => exact .nil
  intro depth log
  have hrest := hinside depth (.event (.endFile group name) :: log)
  simpa [byNameActs, Act.log, begunDirectly] using hrest

/-- An entry is begun as a class file if it can be read and is named like one. -/
def entryClassFiles (entry : ArchiveEntry) : List String :=
  if entry.state = .corrupt then [] else asClassFile entry.name

theorem mem_entryClassFiles {entry : ArchiveEntry} {file : String} :
    file ∈ entryClassFiles entry
      ↔ entry.state ≠ .corrupt ∧ FileKind.ofName entry.name = .classFile ∧ file = entry.name := by
  unfold entryClassFiles asClassFile
  split
  case isTrue hcorrupt => simp [hcorrupt]
  case isFalse hcorrupt => split <;> simp [*]

theorem begins_entryActs {target : Option Nat} {archive : String} {entry : ArchiveEntry}
    (h : Begins (asClassFile entry.name) (fileActs target archive entry.name entry.contents)) :
    Begins (entryClassFiles entry) (entryActs target archive entry) := by
  rw [entryActs_eq, entryClassFiles]
  split
  · intro depth log
    simp [Act.log, begunDirectly]
  · exact h

theorem begins_fileActs (target : Option Nat) (group name : String) (contents : Contents) :
    Begins (asClassFile name) (fileActs target group name contents) := by
  induction contents using Contents.induction generalizing group name with
  | plain bytes =>
    rw [fileActs]
    refine begins_byNameActs fun jar acts h => ?_
    cases h
  | archive entries ih =>
    rw [fileActs]
    refine begins_byNameActs fun jar acts hacts => ?_
    obtain ⟨multiRelease, -, rfl⟩ := archiveActs_eq_ok hacts
    exact begins_groupActs fun entry hentry =>
      begins_entryActs (ih entry (mem_of_mem_loadedEntries hentry) name entry.name)

/-- The class files decoded directly from an archive that can be opened are those among the entries
that are loaded. -/
theorem Loader.decodedFrom_eq (loader : Loader) (name : String) (jar : Bool)
    (entries : List ArchiveEntry) :
    (∃ multiRelease, isMultiRelease jar entries = .ok multiRelease
      ∧ loader.decodedFrom name jar (.archive entries)
        = (loadedEntries loader.target multiRelease entries).flatMap entryClassFiles)
    ∨ (∃ cause, (loader.loadArchive name jar (.archive entries)).1 = .error cause)
      ∧ loader.decodedFrom name jar (.archive entries) = [] := by
  rw [decodedFrom, loadArchive_eq]
  cases hcourse : contentsActs loader.target name jar (.archive entries) with
  | error cause => exact .inr ⟨⟨cause, rfl⟩, rfl⟩
  | ok acts =>
    obtain ⟨multiRelease, hasked, rfl⟩ := archiveActs_eq_ok hcourse
    refine .inl ⟨multiRelease, hasked, ?_⟩
    exact begunDirectly_groupActs fun entry _ =>
      begins_entryActs (begins_fileActs loader.target name entry.name entry.contents)

/-! ## Names of class files -/

theorem FileKind.ofName_eq_classFile_iff {name : String} :
    FileKind.ofName name = .classFile ↔ ".class".toList <:+ name.toList.map Char.toLower := by
  rw [← List.isSuffixOf_iff_suffix]
  unfold FileKind.ofName
  constructor
  · intro h
    by_contra hends
    rw [if_neg hends] at h
    split at h
    · cases h
    · split at h <;> cases h
  · intro h
    exact if_pos h

/-- An entry that is named like a class file is no directory. -/
theorem ArchiveEntry.isDirectory_eq_false {entry : ArchiveEntry}
    (h : FileKind.ofName entry.name = .classFile) : entry.isDirectory = false := by
  obtain ⟨front, hfront⟩ := FileKind.ofName_eq_classFile_iff.mp h
  have hlast : entry.name.toList.getLast?.map Char.toLower = some 's' := by
    rw [← List.getLast?_map, ← hfront]
    simp
  obtain ⟨last, hlast, hlower⟩ := Option.map_eq_some_iff.mp hlast
  unfold ArchiveEntry.isDirectory
  rw [hlast]
  split
  · rename_i hslash
    rw [Option.some.inj hslash] at hlower
    exact absurd hlower (by decide)
  · rename_i hslash
    rw [Option.some.inj hslash] at hlower
    exact absurd hlower (by decide)
  · rfl

/-- The name of an entry that holds what belongs at a path: that entry itself or a version of it. -/
def IsEntryFor (path name : String) : Prop := name = path ∨ ∃ release, IsVersion release path name

namespace IsEntryFor

variable {path name : String}

theorem isSuffix (h : IsEntryFor path name) : path.toList <:+ name.toList := by
  rcases h with rfl | ⟨release, number, -, hname⟩
  · exact List.suffix_refl _
  · rw [hname]
    refine List.IsSuffix.trans ?_ (List.suffix_append _ _)
    exact List.IsSuffix.trans (List.suffix_cons _ _) (List.suffix_append _ _)

theorem ofName_eq_classFile (h : IsEntryFor path name)
    (hkind : FileKind.ofName path = .classFile) : FileKind.ofName name = .classFile := by
  rw [FileKind.ofName_eq_classFile_iff] at hkind ⊢
  exact hkind.trans (h.isSuffix.map _)

theorem not_isClassPath (h : IsEntryFor path name) (hpath : ¬ IsClassPath path) :
    ¬ IsClassPath name := by
  rcases h with rfl | ⟨release, hversion⟩
  · exact hpath
  · exact fun hname => hpath (hversion.isClassPath hname)

end IsEntryFor

/-! ## Versions that are decoded -/

section Select

variable {names : List String} {path : String}

/-- No two of the entries selected for a class belong at the same path. -/
theorem pairwise_selectEntries (hnames : names.Nodup) (target : Option Nat)
    (hclass : IsClassPath path) (hbase : IsBase path) :
    (selectEntries names true target).Pairwise fun first second =>
      ¬ (StandsFor names path first ∧ StandsFor names path second) := by
  refine (nodup_selectEntries hnames target).pairwise_of_forall_ne ?_
  rintro first hfirst second hsecond hne ⟨hstands, hstands'⟩
  refine hne ?_
  -- Either is the version used for the path or, without one, the path itself.
  rcases selected_of_standsFor hclass hbase hfirst hstands with hbest | ⟨hnone, hpath⟩ <;>
    rcases selected_of_standsFor hclass hbase hsecond hstands' with hbest' | ⟨hnone', hpath'⟩
  · exact Option.some.inj (hbest.symm.trans hbest')
  · rw [hbest] at hnone'
    cases hnone'
  · rw [hbest'] at hnone
    cases hnone
  · have hlength := (List.getElem?_eq_some_iff.mp hpath).1
    exact (List.getElem?_inj hlength hnames).mp (hpath.trans hpath'.symm)

/-- What is not written like a class is selected as it is, if it is a version of one or not. -/
theorem mem_selectEntries_of_not_isClassPath {target : Option Nat} {position : Nat} {name : String}
    (hname : names[position]? = some name) (h : ¬ IsClassPath name) :
    position ∈ selectEntries names true target := by
  refine mem_selectEntries_of_plain hname ?_ ?_
  · rintro ⟨release, inner, hversion, hclass⟩
    exact h (hclass.trans (IsEntryFor.isSuffix (.inr ⟨release, hversion⟩)))
  · rcases bestVersion?_spec names target name with ⟨-, -, -, hclass, -⟩ | ⟨hnone, -⟩
    · exact absurd hclass h
    · exact hnone

end Select

section Load

variable {entries : List ArchiveEntry} {path : String}

theorem pairwise_loadedEntries (hnames : (entries.map ArchiveEntry.name).Nodup)
    (target : Option Nat) (hclass : IsClassPath path) (hbase : IsBase path) :
    (loadedEntries target true entries).Pairwise fun first second =>
      ¬ (IsEntryFor path first.name ∧ IsEntryFor path second.name) := by
  have hfiles : ((entries.filter fun entry => !entry.isDirectory).map ArchiveEntry.name).Nodup :=
    hnames.sublist (List.filter_sublist.map _)
  refine List.pairwise_filterMap.mpr ((pairwise_selectEntries hfiles target hclass hbase).imp ?_)
  intro position position' hone first hfirst second hsecond hboth
  refine hone ⟨⟨first.name, ?_, hboth.1⟩, ⟨second.name, ?_, hboth.2⟩⟩
  · rw [List.getElem?_map, hfirst]
    rfl
  · rw [List.getElem?_map, hsecond]
    rfl

theorem mem_loadedEntries {target : Option Nat} {entry : ArchiveEntry} (hentry : entry ∈ entries)
    (hfile : entry.isDirectory = false) (h : ¬ IsClassPath entry.name) :
    entry ∈ loadedEntries target true entries := by
  have hmem : entry ∈ entries.filter fun entry => !entry.isDirectory :=
    List.mem_filter.mpr ⟨hentry, by simp [hfile]⟩
  obtain ⟨position, hposition⟩ := List.mem_iff_getElem?.mp hmem
  refine List.mem_filterMap.mpr ⟨position, ?_, hposition⟩
  refine mem_selectEntries_of_not_isClassPath ?_ h
  rw [List.getElem?_map, hposition]
  rfl

end Load

/-- From a jar that asks for multi-release handling at most one version of a class is decoded, if
its path ends in `.class` as it is written.  Of a class whose path ends so only in another case
every version that can be read is decoded. -/
theorem decodedFrom_one_version (loader : Loader) (name : String) (entries : List ArchiveEntry)
    (path : String) (hnames : (entries.map ArchiveEntry.name).Nodup)
    (hasks : asksMultiRelease entries = .ok true) (hbase : IsBase path)
    (hkind : FileKind.ofName path = .classFile) :
    (IsClassPath path → (loader.decodedFrom name true (.archive entries)).Pairwise
      fun first second => ¬ (IsEntryFor path first ∧ IsEntryFor path second))
    ∧ (¬ IsClassPath path → (loader.loadArchive name true (.archive entries)).1 = .ok () →
      ∀ entry ∈ entries, entry.state = .sound → IsEntryFor path entry.name →
        entry.name ∈ loader.decodedFrom name true (.archive entries)) := by
  rcases loader.decodedFrom_eq name true entries with ⟨multiRelease, hasked, heq⟩ | ⟨herror, hnil⟩
  · obtain rfl : true = multiRelease := Except.ok.inj (hasks.symm.trans hasked)
    rw [heq]
    constructor
    · intro hclass
      -- An entry is begun at most once, and two entries are not both for the path.
      refine List.pairwise_flatMap.mpr ⟨fun entry _ => ?_, ?_⟩
      · unfold entryClassFiles asClassFile
        split
        · exact .nil
        · split <;> simp
      · refine (pairwise_loadedEntries hnames loader.target hclass hbase).imp ?_
        intro first second hone file hfile other hother
        rw [(mem_entryClassFiles.mp hfile).2.2, (mem_entryClassFiles.mp hother).2.2]
        exact hone
    · intro hpath _ entry hentry hsound hfor
      have hfile := hfor.ofName_eq_classFile hkind
      have hloaded : entry ∈ loadedEntries loader.target true entries :=
        mem_loadedEntries hentry (ArchiveEntry.isDirectory_eq_false hfile)
          (hfor.not_isClassPath hpath)
      exact List.mem_flatMap.mpr
        ⟨entry, hloaded, mem_entryClassFiles.mpr ⟨by simp [hsound], hfile, rfl⟩⟩
  · rw [hnil]
    refine ⟨fun _ => .nil, fun _ hok => ?_⟩
    obtain ⟨cause, hcause⟩ := herror
    rw [hcause] at hok
    cases hok

theorem isBase_of_versioned? {path : String} (h : versioned? path = none) : IsBase path := by
  intro release inner hinner hversion
  have hsome := versioned?_eq_some_iff.mpr ⟨hversion, hinner⟩
  rw [h] at hsome
  cases hsome

/-- A jar that asks for multi-release handling and has an entry and a version of it. -/
def versionedJar (path : String) : List ArchiveEntry :=
  [⟨manifestPath, .sound, .plain "Multi-Release: true".toUTF8.toList⟩, ⟨path, .sound, .plain []⟩,
    ⟨versionsFolder ++ "9/" ++ path, .sound, .plain []⟩]

theorem decodedFrom_one_version_newest :
    ((versionedJar "a/B.class").map ArchiveEntry.name).Nodup
      ∧ asksMultiRelease (versionedJar "a/B.class") = .ok true
      ∧ IsBase "a/B.class" ∧ FileKind.ofName "a/B.class" = .classFile ∧ IsClassPath "a/B.class"
      ∧ ({} : Loader).decodedFrom "m.jar" true (.archive (versionedJar "a/B.class"))
        = ["META-INF/versions/9/a/B.class"]
      ∧ (({} : Loader).decodedFrom "m.jar" true (.archive (versionedJar "a/B.class"))).Pairwise
          fun first second => ¬ (IsEntryFor "a/B.class" first ∧ IsEntryFor "a/B.class" second) := by
  have hnames : ((versionedJar "a/B.class").map ArchiveEntry.name).Nodup := by decide +kernel
  have hasks : asksMultiRelease (versionedJar "a/B.class") = .ok true := by decide +kernel
  have hbase : IsBase "a/B.class" := isBase_of_versioned? (by decide +kernel)
  have hkind : FileKind.ofName "a/B.class" = .classFile := by decide +kernel
  have hclass : IsClassPath "a/B.class" := by
    rw [IsClassPath, ← List.isSuffixOf_iff_suffix]
    decide +kernel
  have h := decodedFrom_one_version {} "m.jar" (versionedJar "a/B.class") "a/B.class" hnames hasks
    hbase hkind
  exact ⟨hnames, hasks, hbase, hkind, hclass, by decide +kernel, h.1 hclass⟩

/-- Two versions of one class are decoded where its path is written in capitals. -/
theorem two_versions_decoded :
    ((versionedJar "a/B.CLASS").map ArchiveEntry.name).Nodup
      ∧ asksMultiRelease (versionedJar "a/B.CLASS") = .ok true
      ∧ IsBase "a/B.CLASS" ∧ FileKind.ofName "a/B.CLASS" = .classFile
      ∧ IsVersion 9 "a/B.CLASS" "META-INF/versions/9/a/B.CLASS"
      ∧ ({} : Loader).decodedFrom "m.jar" true (.archive (versionedJar "a/B.CLASS"))
        = ["a/B.CLASS", "META-INF/versions/9/a/B.CLASS"] := by
  refine ⟨by decide +kernel, by decide +kernel, isBase_of_versioned? (by decide +kernel),
    by decide +kernel, ?_, by decide +kernel⟩
  exact (versioned?_eq_some_iff.mp (by decide +kernel)).1

end ClassFormat.Loading
