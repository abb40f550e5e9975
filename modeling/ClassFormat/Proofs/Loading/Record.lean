/-
# ClassFormat.Proofs.Loading.Record: a loader keeps the latest class of each name

Whatever a loader is asked to load, and however often, the classes it has are those that its log
reports as decoded, each under its own name, and of each name the latest.  Nothing else changes
them: what cannot be read or decoded is passed over.
-/
import ClassFormat.Proofs.Loading.Course

namespace ClassFormat

/-! ## Repositories -/

namespace Repository

theorem findEntry?_cons (entries : List (String × ClassFile)) (held : ClassFile)
    (key name : String) :
    (((key, held) :: entries).find? fun entry => entry.1 == name).map Prod.snd
      = if name = key then some held
        else (entries.find? fun entry => entry.1 == name).map Prod.snd := by
  by_cases h : name = key
  · simp [h]
  · have hkey : (key == name) = false := beq_eq_false_iff_ne.mpr (Ne.symm h)
    simp [hkey, h]

theorem find?_insert (repository : Repository) (name other : String) (file : ClassFile) :
    (repository.insert name file).find? other
      = if other = name then some file else repository.find? other := by
  simp only [insert, find?]
  fun_induction insertEntry name file repository.entries with
  | case1 => rw [findEntry?_cons]
  | case2 key held entries hlt => rw [findEntry?_cons]
  | case3 held entries hlt =>
    rw [findEntry?_cons, findEntry?_cons]
    split <;> rfl
  | case4 key held entries hlt hne ih =>
    rw [findEntry?_cons, findEntry?_cons, ih]
    by_cases hkey : other = key
    · rw [if_pos hkey, if_pos hkey, if_neg (fun h => hne (h.symm.trans hkey))]
    · rw [if_neg hkey, if_neg hkey]

/-- Since the names increase, each of them leads to the class file that stands with it. -/
theorem map_find? (repository : Repository) :
    repository.names.map repository.find? = repository.files.map some := by
  obtain ⟨entries, increasing⟩ := repository
  unfold names files find?
  dsimp only
  induction entries with
  | nil => rfl
  | cons entry entries ih =>
    obtain ⟨key, held⟩ := entry
    obtain ⟨hbelow, hrest⟩ := List.pairwise_cons.mp increasing
    have hothers : (entries.map Prod.fst).map (fun name =>
          (((key, held) :: entries).find? fun entry => entry.1 == name).map Prod.snd)
        = (entries.map Prod.fst).map fun name =>
          (entries.find? fun entry => entry.1 == name).map Prod.snd := by
      refine List.map_congr_left fun name hname => ?_
      have hne : name ≠ key := by
        rintro rfl
        exact String.lt_irrefl _ (hbelow _ hname)
      rw [findEntry?_cons, if_neg hne]
    simp only [List.map_cons, hothers, ih hrest]
    rw [findEntry?_cons, if_pos rfl]

end Repository

namespace Loading

/-! ## Records -/

/-- The classes are a record of the latest class of each name. -/
def IsRecord (classes : Repository) (reported : List ClassFile) : Prop :=
  ∀ name, classes.find? name = reported.reverse.find? fun file => file.name = .ok name

namespace IsRecord

variable {classes : Repository} {reported : List ClassFile}

theorem empty : IsRecord .empty [] := fun _ => rfl

/-- What one more class changes. -/
theorem keepOwn (h : IsRecord classes reported) (file : ClassFile) :
    IsRecord (keepOwn classes file) (reported ++ [file]) := by
  intro name
  unfold Loading.keepOwn
  cases hname : file.name with
  | error cause =>
    -- A class without a name would be found under no name.
    rw [h]
    simp [hname]
  | ok own =>
    rw [Repository.find?_insert, h]
    by_cases hown : name = own
    · simp [hname, hown]
    · simp [hname, hown, Ne.symm hown]

theorem foldl (h : IsRecord classes reported) (more : List ClassFile) :
    IsRecord (more.foldl Loading.keepOwn classes) (reported ++ more) := by
  induction more generalizing classes reported with
  | nil => simpa using h
  | cons file more ih => simpa using ih (h.keepOwn file)

/-- A class is kept under its own name. -/
theorem name_eq (h : IsRecord classes reported) {name : String} {file : ClassFile}
    (hfile : classes.find? name = some file) : file.name = .ok name := by
  rw [h] at hfile
  simpa using List.find?_some hfile

end IsRecord

/-! ## Requests -/

/-- What a loader can be asked to load. -/
inductive Request where
  | session (files : FileLookup) (paths : List String)
  | path (files : FileLookup) (path : String)
  | archive (name : String) (jar : Bool) (contents : Contents)

namespace Loader

/-- The loader after a request, and what it reported. -/
def serve (loader : Loader) : Request → Loader × List LogEntry
  | .session files paths => loader.load files paths
  | .path files path => loader.loadPath files path
  | .archive name jar contents => (loader.loadArchive name jar contents).2

/-- The loader after some requests, and what it reported in all of them. -/
def serveAll (loader : Loader) : List Request → Loader × List LogEntry
  | [] => (loader, [])
  | request :: requests =>
    let (next, log) := loader.serve request
    let (last, more) := next.serveAll requests
    (last, log ++ more)

theorem serve_classes (loader : Loader) (request : Request) :
    (loader.serve request).1.classes
      = (reportedClasses (loader.serve request).2).foldl keepOwn loader.classes := by
  cases request with
  | session files paths => rw [serve, load_eq]
  | path files path => rw [serve, loadPath_eq]
  | archive name jar contents => rw [serve, loadArchive_eq]

theorem serveAll_classes (loader : Loader) (requests : List Request) :
    (loader.serveAll requests).1.classes
      = (reportedClasses (loader.serveAll requests).2).foldl keepOwn loader.classes := by
  induction requests generalizing loader with
  | nil => rfl
  | cons request requests ih =>
    rw [serveAll, reportedClasses_append, List.foldl_append, ← serve_classes]
    exact ih (loader.serve request).1

end Loader

/-- A class that is reported has been decoded from some bytes. -/
theorem decoded_of_mem_logOf {acts : List Act} {file : ClassFile}
    (h : file ∈ reportedClasses (logOf acts)) : ∃ bytes, ClassFile.decode bytes = .ok file := by
  obtain ⟨entry, hentry, hfile⟩ := List.mem_filterMap.mp h
  obtain ⟨act, -, hact⟩ := List.mem_flatMap.mp hentry
  cases act with
  | decode group name bytes =>
    refine ⟨bytes, ?_⟩
    rcases List.mem_cons.mp hact with rfl | hverdict
    · cases hfile
    · rw [List.mem_singleton.mp hverdict, verdict] at hfile
      split at hfile
      case h_1 decoded hdecoded =>
        cases hfile
        exact hdecoded
      case h_2 => cases hfile
  | _ =>
    rw [List.mem_singleton.mp hact] at hfile
    cases hfile

theorem reportedClasses_sessionLog (target : Option Nat) (files : FileLookup)
    (paths : List String) :
    reportedClasses (sessionLog target files paths)
      = reportedClasses (logOf (paths.flatMap (pathActs target files))) := by
  exact reportedClasses_between rfl rfl _

namespace Loader

theorem decoded_of_mem_serve {loader : Loader} {request : Request} {file : ClassFile}
    (h : file ∈ reportedClasses (loader.serve request).2) :
    ∃ bytes, ClassFile.decode bytes = .ok file := by
  cases request with
  | session files paths =>
    rw [serve, load_eq, reportedClasses_sessionLog] at h
    exact decoded_of_mem_logOf h
  | path files path =>
    rw [serve, loadPath_eq] at h
    exact decoded_of_mem_logOf h
  | archive name jar contents =>
    rw [serve, loadArchive_eq] at h
    exact decoded_of_mem_logOf h

theorem decoded_of_mem_serveAll {loader : Loader} {requests : List Request} {file : ClassFile}
    (h : file ∈ reportedClasses (loader.serveAll requests).2) :
    ∃ bytes, ClassFile.decode bytes = .ok file := by
  induction requests generalizing loader with
  | nil => cases h
  | cons request requests ih =>
    rw [serveAll, reportedClasses_append] at h
    rcases List.mem_append.mp h with hfirst | hlater
    · exact decoded_of_mem_serve hfirst
    · exact ih hlater

end Loader

/-! ## Failures -/

/-- The step leaves the classes of every loader as they are. -/
def KeepsClasses {α : Type} (step : LoadM α) : Prop :=
  ∀ progress : Progress, (step.run progress).2.classes = progress.classes

theorem KeepsClasses.of_logs {α : Type} {step : LoadM α} {a : α} {log : String → List LogEntry}
    (h : ∀ group, Logs group step a (log group))
    (hlog : ∀ group, reportedClasses (log group) = []) : KeepsClasses step := by
  intro progress
  rw [h progress.currentGroup progress rfl]
  show (reportedClasses (log progress.currentGroup)).foldl keepOwn progress.classes = _
  rw [hlog]
  rfl

/-- Whatever cannot be read or decoded leaves the classes as they are. -/
structure PassesOverFailures (target : Option Nat) : Prop where
  undecodable : ∀ name bytes cause, ClassFile.decode bytes = .error cause →
    KeepsClasses (loadClassFile name bytes)
  corruptEntry : ∀ archive entry, entry.state = .corrupt →
    KeepsClasses (loadEntry target archive entry)
  unreadableFile : ∀ name, KeepsClasses (loadFound target name none)
  /-- There is neither a file that can be read at the path nor a directory. -/
  unreadablePath : ∀ files path, FileLookup.contents? files path = none →
    (∀ children, files path ≠ some (.directory children)) →
    KeepsClasses (loadPath target files path)
  badArchive : ∀ name jar contents cause (progress : Progress),
    ((loadArchive target name jar contents).run progress).1 = .error cause →
    ((loadArchive target name jar contents).run progress).2.classes = progress.classes

theorem reportedClasses_fileAtActs {target : Option Nat} {files : FileLookup} {path : String}
    (h : files.contents? path = none) :
    reportedClasses (logOf (fileAtActs target files path)) = [] := by
  unfold fileAtActs classFileAtActs archiveAtActs
  rw [h]
  cases FileKind.ofName path <;> rfl

theorem passesOverFailures (target : Option Nat) : PassesOverFailures target where
  undecodable name bytes cause h := by
    refine .of_logs (fun group => logs_loadClassFile group name bytes) fun group => ?_
    simp [Act.log, verdict, h, reportedClasses, LogEntry.decoded?]
  corruptEntry archive entry h := by
    cases entry with
    | mk name state contents =>
      rw [loadEntry, if_pos h]
      exact .of_logs (fun _ => .warn _) fun _ => rfl
  unreadableFile name := by
    refine .of_logs (fun group => logs_loadFound target group name none) fun group => ?_
    unfold foundActs
    split
    case isTrue hother =>
      simp [fileActs, byNameActs, insideActs, hother, Act.log, reportedClasses, LogEntry.decoded?]
    case isFalse => rfl
  unreadablePath files path h hdirectory := by
    refine .of_logs (fun group => logs_loadPath target files group path) fun group => ?_
    unfold pathActs
    split
    case h_1 children hchildren => exact absurd hchildren (hdirectory children)
    case h_2 => exact reportedClasses_fileAtActs h
  badArchive name jar contents cause progress h := by
    have hrun := logs_loadArchive target _ name jar contents progress rfl
    rw [hrun] at h ⊢
    cases hcourse : contentsActs target name jar contents with
    | ok acts =>
      rw [hcourse] at h
      cases h
    | error cause => rfl

/-! ## The classes of a loader -/

/-- After any requests the classes of a loader are those that it has reported as decoded, one after
the other put under its own name: of each name the latest.  Every class that can be decoded has a
name, and what cannot be read or decoded changes nothing.  The names are in increasing order, and
the class files stand in the order of their names. -/
theorem serveAll_isRecord (target : Option Nat) (requests : List Request) :
    ∃ loader log, ({ target } : Loader).serveAll requests = (loader, log)
      ∧ loader.classes = (reportedClasses log).foldl keepOwn .empty
      ∧ (∀ name, loader.classes.find? name
          = (reportedClasses log).reverse.find? fun file => file.name = .ok name)
      ∧ (∀ name file, loader.classes.find? name = some file → file.name = .ok name)
      ∧ (∀ file ∈ reportedClasses log, ∃ bytes, ClassFile.decode bytes = .ok file)
      ∧ (∀ bytes file, ClassFile.decode bytes = .ok file → ∃ name, file.name = .ok name)
      ∧ PassesOverFailures target
      ∧ loader.classes.names.Pairwise (· < ·)
      ∧ loader.classes.names.map loader.classes.find? = loader.classes.files.map some
      ∧ loader.classes.size = loader.classes.names.length := by
  refine ⟨_, _, rfl, ?_⟩
  have hclasses := Loader.serveAll_classes { target } requests
  have hrecord := IsRecord.empty.foldl
    (reportedClasses (({ target } : Loader).serveAll requests).2)
  rw [List.nil_append] at hrecord
  refine ⟨hclasses, ?_⟩
  rw [hclasses]
  exact ⟨hrecord, fun _ _ => hrecord.name_eq, fun _ => Loader.decoded_of_mem_serveAll,
    fun _ _ => ClassFile.exists_name_of_decode, passesOverFailures target,
    Repository.increasing _, Repository.map_find? _, (List.length_map _).symm⟩

end Loading

end ClassFormat
