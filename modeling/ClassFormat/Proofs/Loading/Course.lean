/-
# ClassFormat.Proofs.Loading.Course: the course of a load

A load reads files, opens and closes groups and hands class files over to be decoded; what it does
next never depends on what was decoded before.  Its course can be told from the files alone, as a
list of acts, each of which stands for a piece of the log.

`Logs` says of a step of a load what it reports in which group, and that it leaves everything else
alone: the groups that are open are the same as before, and the classes have changed only by those
that the log reports as decoded.  Every step of a load logs its course.
-/
import ClassFormat.Loading.Loader
import ClassFormat.Proofs.Outcome
import Mathlib.Data.List.Basic

namespace ClassFormat

/-! ## Names of decoded classes -/

theorem ClassFile.reader_ensures_name :
    ClassFile.reader.Ensures fun file => ∃ name, file.name = .ok name := by
  refine .skip fun _ => .skip fun _ => .skip fun _ => .skip fun _ => .skip fun _ => ?_
  refine .bind (.lift fun _ hname => hname) fun name hname => ?_
  refine .skip fun _ => .skip fun _ => .skip fun _ => .skip fun _ => .skip fun _ => ?_
  exact .pure ⟨name, hname⟩

/-- A class file that was read has a name: it was resolved on the way. -/
theorem ClassFile.exists_name_of_decode {bytes : List UInt8} {file : ClassFile}
    (h : ClassFile.decode bytes = .ok file) : ∃ name, file.name = .ok name := by
  obtain ⟨⟨read, left⟩, hread, rfl⟩ := map_eq_ok_iff.mp h
  exact ClassFile.reader_ensures_name { bytes } read left hread

namespace Loading

/-! ## Contents of contents -/

mutual

/-- What holds of plain bytes, and of an archive once it holds of all that is in it, holds of every
contents. -/
@[elab_as_elim]
theorem Contents.induction {motive : Contents → Prop} (plain : ∀ bytes, motive (.plain bytes))
    (archive : ∀ entries, (∀ entry ∈ entries, motive entry.contents) → motive (.archive entries)) :
    (contents : Contents) → motive contents
  | .plain bytes => plain bytes
  | .archive entries => archive entries (ArchiveEntry.forall_contents plain archive entries)

theorem ArchiveEntry.forall_contents {motive : Contents → Prop}
    (plain : ∀ bytes, motive (.plain bytes))
    (archive : ∀ entries, (∀ entry ∈ entries, motive entry.contents) → motive (.archive entries)) :
    (entries : List ArchiveEntry) → ∀ entry ∈ entries, motive entry.contents
  | [] => fun _ h => nomatch h
  | ⟨_, _, contents⟩ :: others => List.forall_mem_cons.mpr
    ⟨Contents.induction plain archive contents,
      ArchiveEntry.forall_contents plain archive others⟩

end

/-! ## Acts -/

/-- What a load does next. -/
inductive Act where
  | beginGroup (name : String) (size : Nat)
  | endGroup (name : String)
  | beginFile (group file : String)
  | endFile (group file : String)
  /-- A class file is handed over to be decoded. -/
  | decode (group file : String) (bytes : List UInt8)
  | warn (warning : Warning)

/-- What is reported of a class file right behind its beginning. -/
def verdict (group file : String) (bytes : List UInt8) : LogEntry :=
  match ClassFile.decode bytes with
  | .ok decoded => .event (.endClassFile group file decoded)
  | .error cause => .warning (.classNotLoaded file cause)

/-- What is reported of an act. -/
def Act.log : Act → List LogEntry
  | beginGroup name size => [.event (.beginGroup name size)]
  | endGroup name => [.event (.endGroup name)]
  | beginFile group file => [.event (.beginFile group file)]
  | endFile group file => [.event (.endFile group file)]
  | decode group file bytes => [.event (.beginClassFile group file), verdict group file bytes]
  | warn warning => [.warning warning]

/-- What is reported of some acts. -/
def logOf (acts : List Act) : List LogEntry := acts.flatMap Act.log

@[simp]
theorem logOf_nil : logOf [] = [] := rfl

@[simp]
theorem logOf_cons (act : Act) (acts : List Act) : logOf (act :: acts) = act.log ++ logOf acts :=
  List.flatMap_cons

@[simp]
theorem logOf_append (acts others : List Act) :
    logOf (acts ++ others) = logOf acts ++ logOf others :=
  List.flatMap_append

theorem logOf_flatMap {α : Type} (xs : List α) (acts : α → List Act) :
    logOf (xs.flatMap acts) = xs.flatMap fun x => logOf (acts x) :=
  List.flatMap_assoc

theorem logOf_flatten (parts : List (List Act)) : logOf parts.flatten = parts.flatMap logOf := by
  rw [← List.flatMap_id, logOf_flatMap]
  rfl

/-! ## Steps that log -/

/-- The class that an entry of a log reports as decoded. -/
def LogEntry.decoded? : LogEntry → Option ClassFile
  | .event (.endClassFile _ _ decoded) => some decoded
  | _ => none

/-- The classes that a log reports as decoded, in order. -/
def reportedClasses (log : List LogEntry) : List ClassFile := log.filterMap LogEntry.decoded?

@[simp]
theorem reportedClasses_append (log more : List LogEntry) :
    reportedClasses (log ++ more) = reportedClasses log ++ reportedClasses more :=
  List.filterMap_append

/-- What stands around a log adds no class to it, if it is not about a class itself. -/
theorem reportedClasses_between {first last : LogEntry} (hfirst : first.decoded? = none)
    (hlast : last.decoded? = none) (log : List LogEntry) :
    reportedClasses (first :: (log ++ [last])) = reportedClasses log := by
  simp [reportedClasses, hfirst, hlast]

/-- The classes with one more under its own name, in place of any other of that name. -/
def keepOwn (classes : Repository) (file : ClassFile) : Repository :=
  match file.name with
  | .ok name => classes.insert name file
  | .error _ => classes

/-- A loader that has reported some more, and has kept the classes that it has reported. -/
def Progress.after (progress : Progress) (log : List LogEntry) : Progress :=
  { progress with
    classes := (reportedClasses log).foldl keepOwn progress.classes
    log := progress.log ++ log }

namespace Progress

@[simp]
theorem after_nil (progress : Progress) : progress.after [] = progress := by
  simp [after, reportedClasses]

@[simp]
theorem after_after (progress : Progress) (log more : List LogEntry) :
    (progress.after log).after more = progress.after (log ++ more) := by
  have hlog : progress.log ++ log ++ more = progress.log ++ (log ++ more) :=
    Array.ext' (by simp)
  simp [after, hlog]

end Progress

/-- In a group of this name the step gives this result and reports this log, and does nothing else
than to keep the classes that the log reports as decoded. -/
def Logs {α : Type} (group : String) (step : LoadM α) (result : α) (log : List LogEntry) : Prop :=
  ∀ progress : Progress, progress.currentGroup = group →
    step.run progress = (result, progress.after log)

namespace Logs

variable {α β : Type} {group : String} {step : LoadM α} {a : α} {log : List LogEntry}

theorem pure (a : α) : Logs group (Pure.pure a) a [] := by
  intro progress _
  rw [Progress.after_nil]
  rfl

theorem bind {next : α → LoadM β} {b : β} {more : List LogEntry} (h : Logs group step a log)
    (hnext : Logs group (next a) b more) : Logs group (step >>= next) b (log ++ more) := by
  intro progress hgroup
  rw [StateT.run_bind, h progress hgroup]
  have hrest := hnext (progress.after log) hgroup
  rw [Progress.after_after] at hrest
  exact hrest

/-- A step that reports nothing before another one. -/
theorem pass {next : α → LoadM β} {b : β} (h : Logs group step a [])
    (hnext : Logs group (next a) b log) : Logs group (step >>= next) b log :=
  h.bind hnext

/-- A step that reports nothing behind another one. -/
theorem andThen {next : α → LoadM β} {b : β} (h : Logs group step a log)
    (hnext : Logs group (next a) b []) : Logs group (step >>= next) b log := by
  have hboth := h.bind hnext
  rwa [List.append_nil] at hboth

/-- A step that asks for the name of the current group. -/
theorem asking {next : Progress → LoadM β} {b : β}
    (h : ∀ progress : Progress, progress.currentGroup = group → Logs group (next progress) b log) :
    Logs group (get >>= next) b log := by
  intro progress hgroup
  exact h progress hgroup progress hgroup

/-- An entry that is not about a decoded class is only added to the log. -/
theorem report {entry : LogEntry} (h : entry.decoded? = none) :
    Logs group (Loading.report entry) () [entry] := by
  intro progress _
  have hafter : progress.after [entry] = { progress with log := progress.log.push entry } := by
    simp [Progress.after, reportedClasses, h]
  rw [hafter]
  rfl

/-- An event that is not about a decoded class, and what comes behind it. -/
theorem announced {event : Event} {next : Unit → LoadM β} {b : β}
    (h : LogEntry.decoded? (.event event) = none)
    (hnext : Logs group (next ()) b log) :
    Logs group (announce event >>= next) b (.event event :: log) :=
  (report h).bind hnext

theorem warn (warning : Warning) : Logs group (Loading.warn warning) () [.warning warning] :=
  report rfl

/-- A group is closed again by the end that belongs to it, whatever groups are open around it. -/
theorem inGroup {name : String} {size : Nat} (h : Logs name step a log) :
    Logs group (Loading.inGroup name size step) a
      (.event (.beginGroup name size) :: (log ++ [.event (.endGroup name)])) := by
  intro progress _
  -- The steps of the group run with its name on top of those that were open before.
  let opened : Progress :=
    { progress with
      groups := name :: progress.groups
      log := progress.log.push (.event (.beginGroup name size)) }
  have hrun : (Loading.inGroup name size step).run progress
      = (a, { opened.after log with
          groups := progress.groups
          log := (opened.after log).log.push (.event (.endGroup name)) }) := by
    have hsteps := h opened rfl
    show ((do let result ← step; endGroup; return result : LoadM α)).run opened = _
    rw [StateT.run_bind, hsteps]
    rfl
  have hlog : (opened.log ++ log).push (.event (.endGroup name))
      = progress.log ++ (.event (.beginGroup name size) :: (log ++ [.event (.endGroup name)])) :=
    Array.ext' (by simp [opened])
  have hclasses : reportedClasses
      (.event (.beginGroup name size) :: (log ++ [.event (.endGroup name)]))
      = reportedClasses log := reportedClasses_between rfl rfl log
  rw [hrun]
  simp only [Progress.after, hlog, hclasses]
  rfl

theorem forM {xs : List β} {each : β → LoadM Unit} {logs : β → List LogEntry}
    (h : ∀ x ∈ xs, Logs group (each x) () (logs x)) :
    Logs group (xs.forM each) () (xs.flatMap logs) := by
  induction xs with
  | nil => exact pure ()
  | cons x xs ih =>
    rw [List.flatMap_cons]
    exact (h x List.mem_cons_self).bind (ih fun y hy => h y (List.mem_cons_of_mem x hy))

end Logs

/-! ## Entries to load -/

/-- The entries to load are those selected among the files, by their names. -/
theorem entriesToLoad_eq_ok {target : Option Nat} {jar : Bool} {entries : List ArchiveEntry}
    {selected : List Nat} (h : entriesToLoad target jar entries = .ok selected) :
    ∃ multiRelease, isMultiRelease jar entries = .ok multiRelease
      ∧ selected = selectedPositions target multiRelease entries := by
  obtain ⟨multiRelease, hasked, h⟩ := bind_eq_ok_iff.mp h
  split at h
  · cases h
  · exact ⟨multiRelease, hasked, (Except.ok.inj h).symm⟩

/-- The entries of an archive that are loaded, in the order they are loaded. -/
def loadedEntries (target : Option Nat) (multiRelease : Bool) (entries : List ArchiveEntry) :
    List ArchiveEntry :=
  let files := entries.filter fun entry => !entry.isDirectory
  (selectEntries (files.map ArchiveEntry.name) multiRelease target).filterMap (files[·]?)

theorem map_fst_fileEntries (entries : List ArchiveEntry) :
    (fileEntries entries).map Prod.fst = entries.filter fun entry => !entry.isDirectory := by
  have hmap := List.filter_map (f := Prod.fst) (p := fun entry => !entry.isDirectory)
    (l := entries.zipIdx)
  rw [List.zipIdx_map_fst] at hmap
  exact hmap.symm

theorem getElem?_of_mem_fileEntries {entries : List ArchiveEntry} {entry : ArchiveEntry}
    {position : Nat} (h : (entry, position) ∈ fileEntries entries) :
    entries[position]? = some entry :=
  List.mem_zipIdx_iff_getElem?.mp (List.mem_filter.mp h).1

theorem mem_of_mem_loadedEntries {target : Option Nat} {multiRelease : Bool}
    {entries : List ArchiveEntry} {entry : ArchiveEntry}
    (h : entry ∈ loadedEntries target multiRelease entries) : entry ∈ entries := by
  obtain ⟨place, -, hplace⟩ := List.mem_filterMap.mp h
  exact (List.mem_filter.mp (List.mem_of_getElem? hplace)).1

/-- Taking something for each selected position is taking it for each entry that is loaded. -/
theorem map_selectedPositions {α : Type} (target : Option Nat) (multiRelease : Bool)
    (entries : List ArchiveEntry) (take : ArchiveEntry → α) (missing : α) :
    (selectedPositions target multiRelease entries).map (fun position =>
        (entries.map take).getD position missing)
      = (loadedEntries target multiRelease entries).map take := by
  dsimp only [selectedPositions, loadedEntries]
  rw [← map_fst_fileEntries, List.map_map, List.map_filterMap, List.map_filterMap]
  refine List.filterMap_congr fun place _ => ?_
  rw [List.getElem?_map]
  cases hplace : (fileEntries entries)[place]? with
  | none => rfl
  | some found =>
    have hentry := getElem?_of_mem_fileEntries (List.mem_of_getElem? hplace)
    simp [hentry]

/-! ## The course of each step -/

/-- The course of a group, given that of each of its files. -/
def groupActs (name : String) (files : List (List Act)) : List Act :=
  .beginGroup name files.length :: (files.flatten ++ [.endGroup name])

theorem logOf_groupActs (name : String) (files : List (List Act)) :
    logOf (groupActs name files)
      = .event (.beginGroup name files.length)
        :: (files.flatMap logOf ++ [.event (.endGroup name)]) := by
  simp [groupActs, logOf_flatten, Act.log]

/-- The course of an archive that can be opened, given that of each of its entries. -/
def archiveActs (target : Option Nat) (name : String) (jar : Bool) (entries : List ArchiveEntry)
    (acts : List (List Act)) : Except LoadError (List Act) :=
  (entriesToLoad target jar entries).map fun selected =>
    groupActs name (selected.map fun position => acts.getD position [])

/-- The course of something that may not be there to be opened. -/
def openedActs : Except LoadError (List Act) → List Act
  | .ok acts => acts
  | .error _ => []

/-- The course of something that may not be there to be opened, which is then reported. -/
def openedOr (warning : LoadError → Warning) : Except LoadError (List Act) → List Act
  | .ok acts => acts
  | .error cause => [.warn (warning cause)]

/-- What is done between the two ends of a file, given the course of opening it as an archive. -/
def insideActs (group name : String) (bytes : List UInt8)
    (asArchive : (jar : Bool) → Except LoadError (List Act)) : List Act :=
  match FileKind.ofName name with
  | .classFile => [.decode group name bytes]
  | .jar => openedOr (.nestedArchiveNotLoaded name) (asArchive true)
  | .zip => openedOr (.nestedArchiveNotLoaded name) (asArchive false)
  | .other => []

/-- The course of one file of a group, given that of opening it as an archive. -/
def byNameActs (group name : String) (bytes : List UInt8)
    (asArchive : (jar : Bool) → Except LoadError (List Act)) : List Act :=
  .beginFile group name :: (insideActs group name bytes asArchive ++ [.endFile group name])

mutual

/-- The course of one file of a group. -/
def fileActs (target : Option Nat) (group name : String) : Contents → List Act
  | .plain bytes => byNameActs group name bytes fun _ => .error .badArchive
  | .archive entries =>
    byNameActs group name (Contents.archive entries).front fun jar =>
      archiveActs target name jar entries (allEntryActs target name entries)

/-- The course of each entry of an archive. -/
def allEntryActs (target : Option Nat) (archive : String) : List ArchiveEntry → List (List Act)
  | [] => []
  | entry :: others => entryActs target archive entry :: allEntryActs target archive others

/-- The course of one entry of an archive. -/
def entryActs (target : Option Nat) (archive : String) : ArchiveEntry → List Act
  | ⟨name, state, contents⟩ =>
    if state = .corrupt then [.warn (.entryNotRead name archive)]
    else fileActs target archive name contents

end

theorem entryActs_eq (target : Option Nat) (archive : String) (entry : ArchiveEntry) :
    entryActs target archive entry
      = if entry.state = .corrupt then [.warn (.entryNotRead entry.name archive)]
        else fileActs target archive entry.name entry.contents := by
  cases entry
  rw [entryActs]

theorem allEntryActs_eq_map (target : Option Nat) (archive : String)
    (entries : List ArchiveEntry) :
    allEntryActs target archive entries = entries.map (entryActs target archive) := by
  induction entries with
  | nil => rw [allEntryActs, List.map_nil]
  | cons entry others ih => rw [allEntryActs, ih, List.map_cons]

/-- Opening an archive takes its entries that are loaded one after the other. -/
theorem archiveActs_eq_ok {target : Option Nat} {name : String} {jar : Bool}
    {entries : List ArchiveEntry} {course : List Act}
    (h : archiveActs target name jar entries (allEntryActs target name entries) = .ok course) :
    ∃ multiRelease, isMultiRelease jar entries = .ok multiRelease
      ∧ course = groupActs name
          ((loadedEntries target multiRelease entries).map (entryActs target name)) := by
  obtain ⟨selected, hselected, rfl⟩ := map_eq_ok_iff.mp h
  obtain ⟨multiRelease, hasked, rfl⟩ := entriesToLoad_eq_ok hselected
  refine ⟨multiRelease, hasked, ?_⟩
  rw [allEntryActs_eq_map, map_selectedPositions]

/-- The course of a file found in a directory. -/
def foundActs (target : Option Nat) (group name : String) (contents : Option Contents) : List Act :=
  if FileKind.ofName name = .other then fileActs target group name (.plain [])
  else
    match contents with
    | some contents => fileActs target group name contents
    | none => [.warn (.fileNotRead name)]

/-- The files that a walk has met. -/
def walkedFiles (items : List WalkItem) : List (String × Option Contents) :=
  items.filterMap fun
    | .file file contents => some (file, contents)
    | .skipped => none

/-- What is reported of a walk before its files are loaded. -/
def skippedActs (path : String) : WalkItem → List Act
  | .skipped => [.warn (.entrySkipped path)]
  | .file _ _ => []

/-- The course of a directory. -/
def directoryActs (target : Option Nat) (path : String) (node : FileNode) : List Act :=
  (node.walk path).flatMap (skippedActs path)
    ++ groupActs path ((walkedFiles (node.walk path)).map fun found =>
        foundActs target path found.1 found.2)

/-- The course of an archive by itself. -/
def contentsActs (target : Option Nat) (name : String) (jar : Bool) :
    Contents → Except LoadError (List Act)
  | .plain _ => .error .badArchive
  | .archive entries => archiveActs target name jar entries (allEntryActs target name entries)

/-- The course of the archive at a path. -/
def archiveAtActs (target : Option Nat) (files : FileLookup) (path : String) (jar : Bool) :
    Except LoadError (List Act) :=
  match files.contents? path with
  | none => .error .unreadable
  | some contents => contentsActs target path jar contents

/-- The course of the class file at a path. -/
def classFileAtActs (target : Option Nat) (files : FileLookup) (path : String) : List Act :=
  match files.contents? path with
  | some contents => groupActs path [fileActs target path path contents]
  | none => [.beginGroup path 1, .endGroup path, .warn (.pathNotLoaded path .unreadable)]

/-- The course of the file at a path. -/
def fileAtActs (target : Option Nat) (files : FileLookup) (path : String) : List Act :=
  match FileKind.ofName path with
  | .classFile => classFileAtActs target files path
  | .jar => openedOr (.pathNotLoaded path) (archiveAtActs target files path true)
  | .zip => openedOr (.pathNotLoaded path) (archiveAtActs target files path false)
  | .other => []

/-- The course of what is at a path. -/
def pathActs (target : Option Nat) (files : FileLookup) (path : String) : List Act :=
  match files path with
  | some (.directory children) => directoryActs target path (.directory children)
  | _ => fileAtActs target files path

/-! ## Every step logs its course -/

theorem logs_loadClassFile (group name : String) (bytes : List UInt8) :
    Logs group (loadClassFile name bytes) () (logOf [.decode group name bytes]) := by
  refine .asking fun progress hgroup => ?_
  rw [hgroup, logOf_cons, logOf_nil, List.append_nil, Act.log]
  refine .announced rfl ?_
  unfold verdict
  cases hdecode : ClassFile.decode bytes with
  | error cause => exact .warn _
  | ok file =>
    obtain ⟨className, hname⟩ := ClassFile.exists_name_of_decode hdecode
    have hdecoded : (do
        let file ← (.ok file : Except Error ClassFile)
        return (← file.name, file)) = Except.ok (className, file) := by
      show (file.name >>= fun name => .ok (name, file)) = _
      rw [hname]
      rfl
    rw [hdecoded]
    -- The class is kept right behind the entry that reports it.
    intro progress _
    have hkeep : keepOwn progress.classes file = progress.classes.insert className file := by
      rw [keepOwn, hname]
    show _ = ((), { progress with
      classes := keepOwn progress.classes file
      log := progress.log ++ [LogEntry.event (.endClassFile group name file)] })
    rw [hkeep]
    rfl

theorem logs_loadEntries {target : Option Nat} {group name : String} {jar : Bool}
    {entries : List ArchiveEntry} {loads : List (LoadM Unit)} {acts : List (List Act)}
    (h : ∀ position, Logs name (loads.getD position (return)) () (logOf (acts.getD position []))) :
    Logs group (loadEntries target name jar entries loads)
      ((archiveActs target name jar entries acts).map fun _ => ())
      (logOf (openedActs (archiveActs target name jar entries acts))) := by
  unfold loadEntries archiveActs
  cases entriesToLoad target jar entries with
  | error cause => exact .pure _
  | ok selected =>
    have hfiles := Logs.forM fun position (_ : position ∈ selected) => h position
    have hgroup : Logs group (inGroup name selected.length
        (selected.forM fun position => loads.getD position (return))) ()
        (logOf (groupActs name (selected.map fun position => acts.getD position []))) := by
      rw [logOf_groupActs, List.length_map, List.flatMap_map]
      exact .inGroup hfiles
    exact hgroup.andThen (.pure _)

theorem logs_orWarn {group : String} {warning : LoadError → Warning}
    {step : LoadM (Except LoadError Unit)} {course : Except LoadError (List Act)}
    (h : Logs group step (course.map fun _ => ()) (logOf (openedActs course))) :
    Logs group (orWarn warning step) () (logOf (openedOr warning course)) := by
  cases course with
  | ok acts => exact h.andThen (.pure ())
  | error cause => exact h.pass (.warn _)

theorem logs_loadByName {group name : String} {bytes : List UInt8}
    {asArchive : (jar : Bool) → LoadM (Except LoadError Unit)}
    {course : (jar : Bool) → Except LoadError (List Act)}
    (h : ∀ jar, Logs group (asArchive jar) ((course jar).map fun _ => ())
      (logOf (openedActs (course jar)))) :
    Logs group (loadByName name bytes asArchive) ()
      (logOf (byNameActs group name bytes course)) := by
  unfold loadByName byNameActs insideActs
  -- The group is asked for once, before the file is begun; its end is reported under the same name.
  refine .asking fun progress hgroup => ?_
  rw [hgroup, logOf_cons, logOf_append]
  refine .announced rfl ?_
  have hend : Logs group (announce (.endFile group name)) () (logOf [.endFile group name]) :=
    .report rfl
  cases FileKind.ofName name with
  | classFile => exact (logs_loadClassFile group name bytes).bind hend
  | jar => exact (logs_orWarn (h true)).bind hend
  | zip => exact (logs_orWarn (h false)).bind hend
  | other => exact hend

theorem entryLoads_eq_map (target : Option Nat) (archive : String) (entries : List ArchiveEntry) :
    entryLoads target archive entries = entries.map (loadEntry target archive) := by
  induction entries with
  | nil => rw [entryLoads, List.map_nil]
  | cons entry others ih => rw [entryLoads, ih, List.map_cons]

/-- Entries log their courses wherever they stand, if all of them do. -/
theorem logs_entryLoads {target : Option Nat} {archive : String} {entries : List ArchiveEntry}
    (h : ∀ entry ∈ entries,
      Logs archive (loadEntry target archive entry) () (logOf (entryActs target archive entry)))
    (position : Nat) :
    Logs archive ((entryLoads target archive entries).getD position (return)) ()
      (logOf ((allEntryActs target archive entries).getD position [])) := by
  rw [entryLoads_eq_map, allEntryActs_eq_map, List.getD_eq_getElem?_getD,
    List.getD_eq_getElem?_getD, List.getElem?_map, List.getElem?_map]
  cases hentry : entries[position]? with
  -- Behind the last entry both sides do nothing.
  | none => exact .pure ()
  | some entry => exact h entry (List.mem_of_getElem? hentry)

theorem logs_loadEntry {target : Option Nat} {archive : String} {entry : ArchiveEntry}
    (h : Logs archive (loadFile target entry.name entry.contents) ()
      (logOf (fileActs target archive entry.name entry.contents))) :
    Logs archive (loadEntry target archive entry) () (logOf (entryActs target archive entry)) := by
  cases entry with
  | mk name state contents =>
    rw [loadEntry, entryActs]
    by_cases hcorrupt : state = .corrupt
    · rw [if_pos hcorrupt, if_pos hcorrupt]
      exact .warn _
    · rw [if_neg hcorrupt, if_neg hcorrupt]
      exact h

theorem logs_loadFile (target : Option Nat) (group name : String) (contents : Contents) :
    Logs group (loadFile target name contents) ()
      (logOf (fileActs target group name contents)) := by
  induction contents using Contents.induction generalizing group name with
  | plain bytes =>
    rw [loadFile, fileActs]
    exact logs_loadByName fun _ => .pure _
  | archive entries ih =>
    rw [loadFile, fileActs]
    -- The entries stand in a group that has the name of the file, not in the one of the file.
    exact logs_loadByName fun _ => logs_loadEntries
      (logs_entryLoads fun entry hentry => logs_loadEntry (ih entry hentry name entry.name))

theorem logs_loadArchive (target : Option Nat) (group name : String) (jar : Bool)
    (contents : Contents) :
    Logs group (loadArchive target name jar contents)
      ((contentsActs target name jar contents).map fun _ => ())
      (logOf (openedActs (contentsActs target name jar contents))) := by
  cases contents with
  | plain bytes => exact .pure _
  | archive entries =>
    exact logs_loadEntries (logs_entryLoads fun entry _ => logs_loadEntry (logs_loadFile _ _ _ _))

theorem logs_loadFound (target : Option Nat) (group name : String) (contents : Option Contents) :
    Logs group (loadFound target name contents) ()
      (logOf (foundActs target group name contents)) := by
  unfold loadFound foundActs
  by_cases hother : FileKind.ofName name = .other
  · rw [if_pos hother, if_pos hother]
    exact logs_loadFile target group name (.plain [])
  · rw [if_neg hother, if_neg hother]
    cases contents with
    | none => exact .warn _
    | some contents => exact logs_loadFile target group name contents

theorem logs_loadDirectory (target : Option Nat) (group path : String) (node : FileNode) :
    Logs group (loadDirectory target path node) () (logOf (directoryActs target path node)) := by
  have hskipped : Logs group ((node.walk path).forM fun
      | .skipped => warn (.entrySkipped path)
      | .file _ _ => return) ()
      ((node.walk path).flatMap fun item => logOf (skippedActs path item)) := by
    refine .forM fun item _ => ?_
    cases item with
    | skipped => exact .warn _
    | file file contents => exact .pure ()
  have hfiles : Logs group (inGroup path (walkedFiles (node.walk path)).length
      ((walkedFiles (node.walk path)).forM fun found => loadFound target found.1 found.2)) ()
      (logOf (groupActs path ((walkedFiles (node.walk path)).map fun found =>
        foundActs target path found.1 found.2))) := by
    rw [logOf_groupActs, List.length_map, List.flatMap_map]
    exact .inGroup (.forM fun found _ => logs_loadFound target path found.1 found.2)
  rw [directoryActs, logOf_append, logOf_flatMap]
  exact hskipped.bind hfiles

theorem logs_loadArchiveAt (target : Option Nat) (files : FileLookup) (group path : String)
    (jar : Bool) :
    Logs group (loadArchiveAt target files path jar)
      ((archiveAtActs target files path jar).map fun _ => ())
      (logOf (openedActs (archiveAtActs target files path jar))) := by
  unfold loadArchiveAt archiveAtActs
  cases files.contents? path with
  | none => exact .pure _
  | some contents => exact logs_loadArchive target group path jar contents

theorem logs_loadClassFileAt (target : Option Nat) (files : FileLookup) (group path : String) :
    Logs group (orWarn (.pathNotLoaded path) (loadClassFileAt target files path)) ()
      (logOf (classFileAtActs target files path)) := by
  unfold loadClassFileAt classFileAtActs
  cases files.contents? path with
  | none =>
    have hgroup : Logs group (inGroup path 1 (return Except.error LoadError.unreadable))
        (.error .unreadable : Except LoadError Unit)
        [.event (.beginGroup path 1), .event (.endGroup path)] := .inGroup (.pure _)
    exact hgroup.bind (.warn _)
  | some contents =>
    have hfile : Logs path (do
        loadFile target path contents
        return Except.ok ()) (.ok () : Except LoadError Unit)
        (logOf (fileActs target path path contents)) :=
      (logs_loadFile target path path contents).andThen (.pure _)
    rw [logOf_groupActs, List.flatMap_singleton]
    exact (Logs.inGroup hfile).andThen (.pure ())

theorem logs_loadFileAt (target : Option Nat) (files : FileLookup) (group path : String) :
    Logs group (orWarn (.pathNotLoaded path) (loadFileAt target files path)) ()
      (logOf (fileAtActs target files path)) := by
  unfold loadFileAt fileAtActs
  cases FileKind.ofName path with
  | classFile => exact logs_loadClassFileAt target files group path
  | jar => exact logs_orWarn (logs_loadArchiveAt target files group path true)
  | zip => exact logs_orWarn (logs_loadArchiveAt target files group path false)
  | other =>
    have hnothing : Logs group (return Except.ok ()) (.ok () : Except LoadError Unit) [] := .pure _
    exact hnothing.andThen (.pure ())

theorem logs_loadPath (target : Option Nat) (files : FileLookup) (group path : String) :
    Logs group (loadPath target files path) () (logOf (pathActs target files path)) := by
  unfold loadPath loadPlace pathActs
  cases files path with
  | none => exact logs_loadFileAt target files group path
  | some node =>
    cases node with
    | directory children =>
      have hdirectory : Logs group (do
          loadDirectory target path (.directory children)
          return Except.ok ()) (.ok () : Except LoadError Unit)
          (logOf (directoryActs target path (.directory children))) :=
        (logs_loadDirectory target group path _).andThen (.pure _)
      exact hdirectory.andThen (.pure ())
    | file | unreadableFile | danglingLink => exact logs_loadFileAt target files group path

/-- What is reported in a session. -/
def sessionLog (target : Option Nat) (files : FileLookup) (paths : List String) : List LogEntry :=
  .event .beginSession
    :: (logOf (paths.flatMap (pathActs target files)) ++ [.event .endSession])

theorem logs_loadSession (target : Option Nat) (files : FileLookup) (group : String)
    (paths : List String) :
    Logs group (loadSession target files paths) () (sessionLog target files paths) := by
  unfold loadSession sessionLog
  rw [logOf_flatMap]
  refine .announced rfl (.bind (.forM fun path _ => ?_) (.report rfl))
  exact logs_loadPath target files group path

/-! ## What a loader makes of its course -/

namespace Loader

/-- A loader that does a step which logs something has reported just that, has kept the classes
reported as decoded, and has the same groups open as before. -/
theorem perform_eq_of_logs {α : Type} {loader : Loader} {step : LoadM α} {result : α}
    {log : List LogEntry} (h : ∀ group, Logs group step result log) :
    loader.perform step
      = (result,
          { loader with classes := (reportedClasses log).foldl keepOwn loader.classes }, log) := by
  have hrun := h _ { loader with } rfl
  rw [perform, hrun]
  simp [Progress.after]

theorem load_eq (loader : Loader) (files : FileLookup) (paths : List String) :
    loader.load files paths
      = ({ loader with
            classes := (reportedClasses (sessionLog loader.target files paths)).foldl keepOwn
              loader.classes },
          sessionLog loader.target files paths) := by
  rw [load, perform_eq_of_logs fun group => logs_loadSession loader.target files group paths]

theorem loadPath_eq (loader : Loader) (files : FileLookup) (path : String) :
    loader.loadPath files path
      = ({ loader with
            classes := (reportedClasses (logOf (pathActs loader.target files path))).foldl keepOwn
              loader.classes },
          logOf (pathActs loader.target files path)) := by
  rw [loadPath, perform_eq_of_logs fun group => logs_loadPath loader.target files group path]

/-- An archive that cannot be opened leaves the loader as it was. -/
theorem loadArchive_eq (loader : Loader) (name : String) (jar : Bool) (contents : Contents) :
    loader.loadArchive name jar contents
      = ((contentsActs loader.target name jar contents).map fun _ => (),
          { loader with
            classes := (reportedClasses
              (logOf (openedActs (contentsActs loader.target name jar contents)))).foldl keepOwn
              loader.classes },
          logOf (openedActs (contentsActs loader.target name jar contents))) := by
  rw [loadArchive,
    perform_eq_of_logs fun group => logs_loadArchive loader.target group name jar contents]

end Loader

end Loading

end ClassFormat
