/-
# ClassFormat.Proofs.Loading.Brackets: the log of a load is well-bracketed

Whoever follows a log keeps what is open on a stack: groups, files in groups, class files that are
being decoded.  `Watch.Step` lists the entries that may come next and what they do to the stack.  It
knows nothing about files or loaders; every name in an entry is compared with what is open, and a
class file that has been begun has to be ended, or given up, by the very next entry.

A group is counted while it is open: how many files were begun directly in it, and how many were
reported as unreadable.  In the log of a session the two always add up to the size it was announced
with.
-/
import ClassFormat.Proofs.Loading.Course

namespace ClassFormat.Loading

/-! ## Following a log -/

/-- A group with the number of files it was announced with, those begun directly in it, and those
that could not be read. -/
structure Tally where
  name : String
  size : Nat
  files : Nat := 0
  unread : Nat := 0

namespace Tally

def withFile (tally : Tally) : Tally := { tally with files := tally.files + 1 }

def withUnread (tally : Tally) : Tally := { tally with unread := tally.unread + 1 }

/-- Every file of the group was either begun or reported as unreadable. -/
def Complete (tally : Tally) : Prop := tally.files + tally.unread = tally.size

end Tally

/-- What can be open at a point of a log. -/
inductive Open where
  | group (tally : Tally)
  | file (name : String)
  /-- The file right below is being decoded. -/
  | decoding

/-- What is open, innermost first, and the groups that have been closed, latest first. -/
structure Watch where
  stack : List Open := []
  closed : List Tally := []

namespace Watch

/-- What an entry may come upon, and what it leaves.  The group that an entry about a file names is
the innermost one that is open. -/
inductive Step : Watch → LogEntry → Watch → Prop
  /-- A group for a path stands in no other group. -/
  | beginGroup {name : String} {size : Nat} {closed : List Tally} :
      Step ⟨[], closed⟩ (.event (.beginGroup name size)) ⟨[.group { name, size }], closed⟩
  /-- A group for an archive inside another stands between the two ends of its file. -/
  | beginNested {name : String} {size : Nat} {outer : List Open} {closed : List Tally} :
      Step ⟨.file name :: outer, closed⟩ (.event (.beginGroup name size))
        ⟨.group { name, size } :: .file name :: outer, closed⟩
  | endGroup {tally : Tally} {outer : List Open} {closed : List Tally} :
      Step ⟨.group tally :: outer, closed⟩ (.event (.endGroup tally.name)) ⟨outer, tally :: closed⟩
  | beginFile {tally : Tally} {name : String} {outer : List Open} {closed : List Tally} :
      Step ⟨.group tally :: outer, closed⟩ (.event (.beginFile tally.name name))
        ⟨.file name :: .group tally.withFile :: outer, closed⟩
  | endFile {tally : Tally} {name : String} {outer : List Open} {closed : List Tally} :
      Step ⟨.file name :: .group tally :: outer, closed⟩ (.event (.endFile tally.name name))
        ⟨.group tally :: outer, closed⟩
  | beginClassFile {tally : Tally} {name : String} {outer : List Open} {closed : List Tally} :
      Step ⟨.file name :: .group tally :: outer, closed⟩ (.event (.beginClassFile tally.name name))
        ⟨.decoding :: .file name :: .group tally :: outer, closed⟩
  | endClassFile {tally : Tally} {name : String} {decoded : ClassFile} {outer : List Open}
      {closed : List Tally} :
      Step ⟨.decoding :: .file name :: .group tally :: outer, closed⟩
        (.event (.endClassFile tally.name name decoded))
        ⟨.file name :: .group tally :: outer, closed⟩
  | classNotLoaded {name : String} {cause : Error} {outer : List Open} {closed : List Tally} :
      Step ⟨.decoding :: .file name :: outer, closed⟩ (.warning (.classNotLoaded name cause))
        ⟨.file name :: outer, closed⟩
  | nestedNotLoaded {name : String} {cause : LoadError} {outer : List Open} {closed : List Tally} :
      Step ⟨.file name :: outer, closed⟩ (.warning (.nestedArchiveNotLoaded name cause))
        ⟨.file name :: outer, closed⟩
  | entryNotRead {tally : Tally} {entry : String} {outer : List Open} {closed : List Tally} :
      Step ⟨.group tally :: outer, closed⟩ (.warning (.entryNotRead entry tally.name))
        ⟨.group tally.withUnread :: outer, closed⟩
  | fileNotRead {tally : Tally} {file : String} {outer : List Open} {closed : List Tally} :
      Step ⟨.group tally :: outer, closed⟩ (.warning (.fileNotRead file))
        ⟨.group tally.withUnread :: outer, closed⟩
  | entrySkipped {path : String} {closed : List Tally} :
      Step ⟨[], closed⟩ (.warning (.entrySkipped path)) ⟨[], closed⟩
  /-- What is reported about a path behind its group counts for the group. -/
  | pathNotRead {tally : Tally} {cause : LoadError} {closed : List Tally} :
      Step ⟨[], tally :: closed⟩ (.warning (.pathNotLoaded tally.name cause))
        ⟨[], tally.withUnread :: closed⟩
  | pathNotLoaded {path : String} {cause : LoadError} {closed : List Tally}
      (h : ∀ tally ∈ closed.head?, tally.name ≠ path) :
      Step ⟨[], closed⟩ (.warning (.pathNotLoaded path cause)) ⟨[], closed⟩

/-- A log that can be followed from one watch to another. -/
inductive Run : Watch → List LogEntry → Watch → Prop
  | nil (watch : Watch) : Run watch [] watch
  | cons {watch next last : Watch} {entry : LogEntry} {log : List LogEntry}
      (h : Step watch entry next) (hrest : Run next log last) : Run watch (entry :: log) last

namespace Run

variable {watch next last : Watch} {entry : LogEntry} {log more : List LogEntry}

theorem single (h : Step watch entry next) : Run watch [entry] next := .cons h (.nil next)

theorem append (h : Run watch log next) (hmore : Run next more last) :
    Run watch (log ++ more) last := by
  induction h with
  | nil => exact hmore
  | cons hstep _ ih => exact .cons hstep (ih hmore)

end Run

end Watch

open Watch

/-! ## Files and groups -/

/-- The acts are those of one file of a group: they leave what is open as it is, count as one file
of the group, and complete every group that they open. -/
def IsItem (name : String) (acts : List Act) : Prop :=
  ∀ (tally : Tally) (outer : List Open) (closed : List Tally), tally.name = name →
    ∃ next more, (next = tally.withFile ∨ next = tally.withUnread)
      ∧ (∀ inner ∈ more, inner.Complete)
      ∧ Run ⟨.group tally :: outer, closed⟩ (logOf acts) ⟨.group next :: outer, more ++ closed⟩

/-- A group of this name may be begun here. -/
def Admits (name : String) (stack : List Open) : Prop :=
  stack = [] ∨ ∃ outer, stack = .file name :: outer

/-- The acts are those of a group: they leave what is open as it is, and complete the group and
every group inside it. -/
def IsGroup (name : String) (acts : List Act) : Prop :=
  ∀ (stack : List Open) (closed : List Tally), Admits name stack →
    ∃ tally more, tally.name = name ∧ (∀ inner ∈ tally :: more, inner.Complete)
      ∧ Run ⟨stack, closed⟩ (logOf acts) ⟨stack, (tally :: more) ++ closed⟩

/-- Files one after the other are counted one after the other. -/
theorem run_items {name : String} {items : List (List Act)} (h : ∀ acts ∈ items, IsItem name acts)
    (tally : Tally) (outer : List Open) (closed : List Tally) (htally : tally.name = name) :
    ∃ next more, next.name = name ∧ next.size = tally.size
      ∧ next.files + next.unread = tally.files + tally.unread + items.length
      ∧ (∀ inner ∈ more, inner.Complete)
      ∧ Run ⟨.group tally :: outer, closed⟩ (items.flatMap logOf)
          ⟨.group next :: outer, more ++ closed⟩ := by
  -- The count so far and the groups closed so far change from one file to the next.
  induction items generalizing tally closed with
  | nil => exact ⟨tally, [], htally, rfl, rfl, by simp, .nil _⟩
  | cons acts items ih =>
    obtain ⟨hacts, hitems⟩ := List.forall_mem_cons.mp h
    obtain ⟨first, before, hfirst, hbefore, hrun⟩ := hacts tally outer closed htally
    have hsame : first.name = name ∧ first.size = tally.size
        ∧ first.files + first.unread = tally.files + tally.unread + 1 := by
      rcases hfirst with rfl | rfl
      · exact ⟨htally, rfl, by simp [Tally.withFile]; omega⟩
      · exact ⟨htally, rfl, by simp [Tally.withUnread]; omega⟩
    obtain ⟨hname, hsize, hcount⟩ := hsame
    obtain ⟨next, more, hnext, hsize', hcount', hmore, hrest⟩ :=
      ih hitems first (before ++ closed) hname
    refine ⟨next, more ++ before, hnext, hsize'.trans hsize, ?_, ?_, ?_⟩
    · rw [hcount', hcount, List.length_cons]
      omega
    · exact List.forall_mem_append.mpr ⟨hmore, hbefore⟩
    · rw [List.flatMap_cons, List.append_assoc]
      exact hrun.append hrest

/-- A group of files is a group. -/
theorem isGroup_groupActs {name : String} {items : List (List Act)}
    (h : ∀ acts ∈ items, IsItem name acts) : IsGroup name (groupActs name items) := by
  intro stack closed hstack
  have hbegin : Step ⟨stack, closed⟩ (.event (.beginGroup name items.length))
      ⟨.group { name, size := items.length } :: stack, closed⟩ := by
    rcases hstack with rfl | ⟨outer, rfl⟩
    · exact .beginGroup
    · exact .beginNested
  obtain ⟨tally, more, htally, hsize, hcount, hmore, hrun⟩ :=
    run_items h { name, size := items.length } stack closed rfl
  refine ⟨tally, more, htally, List.forall_mem_cons.mpr ⟨?_, hmore⟩, ?_⟩
  · rw [Tally.Complete, hcount, hsize]
    simp
  · rw [logOf_groupActs]
    refine .cons hbegin (hrun.append ?_)
    rw [← htally]
    exact .single .endGroup

/-- Whatever is done between the two ends of a file leaves what is open as it is. -/
theorem run_insideActs {name : String} {bytes : List UInt8}
    {course : (jar : Bool) → Except LoadError (List Act)}
    (h : ∀ jar acts, course jar = .ok acts → IsGroup name acts) (tally : Tally) (outer : List Open)
    (closed : List Tally) :
    ∃ more, (∀ inner ∈ more, Tally.Complete inner)
      ∧ Run ⟨.file name :: .group tally :: outer, closed⟩
          (logOf (insideActs tally.name name bytes course))
          ⟨.file name :: .group tally :: outer, more ++ closed⟩ := by
  have hnested : ∀ jar, ∃ more, (∀ inner ∈ more, Tally.Complete inner)
      ∧ Run ⟨.file name :: .group tally :: outer, closed⟩
          (logOf (openedOr (.nestedArchiveNotLoaded name) (course jar)))
          ⟨.file name :: .group tally :: outer, more ++ closed⟩ := by
    intro jar
    cases hcourse : course jar with
    | error cause => exact ⟨[], by simp, .single .nestedNotLoaded⟩
    | ok acts =>
      obtain ⟨inner, more, -, hcomplete, hrun⟩ :=
        h jar acts hcourse (.file name :: .group tally :: outer) closed (.inr ⟨_, rfl⟩)
      exact ⟨inner :: more, hcomplete, hrun⟩
  unfold insideActs
  cases FileKind.ofName name with
  | classFile =>
    refine ⟨[], by simp, ?_⟩
    rw [logOf_cons, logOf_nil, List.append_nil, Act.log, verdict]
    cases ClassFile.decode bytes with
    | ok decoded => exact .cons .beginClassFile (.single .endClassFile)
    | error cause => exact .cons .beginClassFile (.single .classNotLoaded)
  | jar => exact hnested true
  | zip => exact hnested false
  | other => exact ⟨[], by simp, .nil _⟩

/-- A file is counted in its group, whatever there is in it. -/
theorem isItem_byNameActs {group name : String} {bytes : List UInt8}
    {course : (jar : Bool) → Except LoadError (List Act)}
    (h : ∀ jar acts, course jar = .ok acts → IsGroup name acts) :
    IsItem group (byNameActs group name bytes course) := by
  rintro tally outer closed rfl
  -- The file is counted where it is begun, so its inside is run on the new count.
  obtain ⟨more, hmore, hrun⟩ := run_insideActs h tally.withFile outer closed
  refine ⟨tally.withFile, more, .inl rfl, hmore, ?_⟩
  rw [byNameActs, logOf_cons, logOf_append]
  exact .cons .beginFile (hrun.append (.single .endFile))

/-! ## Archives -/

theorem isItem_entryActs {target : Option Nat} {archive : String} {entry : ArchiveEntry}
    (h : IsItem archive (fileActs target archive entry.name entry.contents)) :
    IsItem archive (entryActs target archive entry) := by
  rw [entryActs_eq]
  by_cases hcorrupt : entry.state = .corrupt
  · rw [if_pos hcorrupt]
    rintro tally outer closed rfl
    exact ⟨tally.withUnread, [], .inr rfl, by simp, .single .entryNotRead⟩
  · rw [if_neg hcorrupt]
    exact h

/-- Opening an archive gives a group, if each of its entries is a file of the group. -/
theorem isGroup_archiveActs {target : Option Nat} {name : String} {jar : Bool}
    {entries : List ArchiveEntry} {course : List Act}
    (h : ∀ entry ∈ entries, IsItem name (fileActs target name entry.name entry.contents))
    (hcourse : archiveActs target name jar entries (allEntryActs target name entries)
      = .ok course) : IsGroup name course := by
  obtain ⟨multiRelease, -, rfl⟩ := archiveActs_eq_ok hcourse
  refine isGroup_groupActs fun item hitem => ?_
  obtain ⟨entry, hentry, rfl⟩ := List.mem_map.mp hitem
  exact isItem_entryActs (h entry (mem_of_mem_loadedEntries hentry))

theorem isItem_fileActs (target : Option Nat) (group name : String) (contents : Contents) :
    IsItem group (fileActs target group name contents) := by
  induction contents using Contents.induction generalizing group name with
  | plain bytes =>
    rw [fileActs]
    refine isItem_byNameActs fun jar acts h => ?_
    cases h
  | archive entries ih =>
    rw [fileActs]
    exact isItem_byNameActs fun _ _ h =>
      isGroup_archiveActs (fun entry hentry => ih entry hentry name entry.name) h

theorem isGroup_contentsActs {target : Option Nat} {name : String} {jar : Bool}
    {contents : Contents} {course : List Act}
    (h : contentsActs target name jar contents = .ok course) : IsGroup name course := by
  cases contents with
  | plain bytes => cases h
  | archive entries =>
    exact isGroup_archiveActs (fun entry _ => isItem_fileActs target name entry.name _) h

/-! ## Paths -/

theorem isItem_foundActs (target : Option Nat) (group name : String) (contents : Option Contents) :
    IsItem group (foundActs target group name contents) := by
  unfold foundActs
  by_cases hother : FileKind.ofName name = .other
  · rw [if_pos hother]
    exact isItem_fileActs target group name (.plain [])
  · rw [if_neg hother]
    cases contents with
    | some contents => exact isItem_fileActs target group name contents
    | none =>
      rintro tally outer closed rfl
      exact ⟨tally.withUnread, [], .inr rfl, by simp, .single .fileNotRead⟩

/-- The acts are those of a path that is not refused: they close what they open and complete it, and
the last group they close, if there is one, is that of the path. -/
def IsPlace (path : String) (acts : List Act) : Prop :=
  ∀ closed : List Tally, ∃ more, (∀ tally ∈ more, Tally.Complete tally)
    ∧ (∀ tally ∈ more.head?, tally.name = path)
    ∧ Run ⟨[], closed⟩ (logOf acts) ⟨[], more ++ closed⟩

theorem IsGroup.isPlace {path : String} {acts : List Act} (h : IsGroup path acts) :
    IsPlace path acts := by
  intro closed
  obtain ⟨tally, more, hname, hcomplete, hrun⟩ := h [] closed (.inl rfl)
  exact ⟨tally :: more, hcomplete, by simpa using hname, hrun⟩

/-- A path is refused when it does not even begin a group. -/
def Refused (path : String) (acts : List Act) : Prop :=
  ∃ cause, acts = [.warn (.pathNotLoaded path cause)]

theorem run_skippedActs (path : String) (items : List WalkItem) (closed : List Tally) :
    Run ⟨[], closed⟩ (logOf (items.flatMap (skippedActs path))) ⟨[], closed⟩ := by
  induction items with
  | nil => exact .nil _
  | cons item items ih =>
    rw [List.flatMap_cons, logOf_append]
    cases item with
    | skipped => exact .cons .entrySkipped ih
    | file file contents => exact ih

theorem isPlace_directoryActs (target : Option Nat) (path : String) (node : FileNode) :
    IsPlace path (directoryActs target path node) := by
  intro closed
  have hfiles : IsGroup path (groupActs path ((walkedFiles (node.walk path)).map fun found =>
      foundActs target path found.1 found.2)) := by
    refine isGroup_groupActs fun item hitem => ?_
    obtain ⟨found, -, rfl⟩ := List.mem_map.mp hitem
    exact isItem_foundActs target path found.1 found.2
  obtain ⟨more, hcomplete, hname, hrun⟩ := hfiles.isPlace closed
  refine ⟨more, hcomplete, hname, ?_⟩
  rw [directoryActs, logOf_append]
  exact (run_skippedActs path _ closed).append hrun

theorem isPlace_classFileAtActs (target : Option Nat) (files : FileLookup) (path : String) :
    IsPlace path (classFileAtActs target files path) := by
  unfold classFileAtActs
  cases files.contents? path with
  | some contents =>
    refine (isGroup_groupActs fun item hitem => ?_).isPlace
    rw [List.mem_singleton.mp hitem]
    exact isItem_fileActs target path path contents
  | none =>
    -- The group is closed without its only file, which is then reported as unreadable.
    intro closed
    let unread : Tally := { name := path, size := 1, unread := 1 }
    refine ⟨[unread], by simp [unread, Tally.Complete], by simp [unread], ?_⟩
    exact .cons .beginGroup (.cons .endGroup (.single .pathNotRead))

theorem isPlace_or_refused_openedOr {path : String} {course : Except LoadError (List Act)}
    (h : ∀ acts, course = .ok acts → IsGroup path acts) :
    IsPlace path (openedOr (.pathNotLoaded path) course)
      ∨ Refused path (openedOr (.pathNotLoaded path) course) := by
  cases course with
  | ok acts => exact .inl (h acts rfl).isPlace
  | error cause => exact .inr ⟨cause, rfl⟩

theorem isGroup_archiveAtActs {target : Option Nat} {files : FileLookup} {path : String}
    {jar : Bool} {course : List Act} (h : archiveAtActs target files path jar = .ok course) :
    IsGroup path course := by
  unfold archiveAtActs at h
  cases hcontents : files.contents? path with
  | none =>
    rw [hcontents] at h
    cases h
  | some contents =>
    rw [hcontents] at h
    exact isGroup_contentsActs h

theorem isPlace_or_refused_fileAtActs (target : Option Nat) (files : FileLookup) (path : String) :
    IsPlace path (fileAtActs target files path) ∨ Refused path (fileAtActs target files path) := by
  unfold fileAtActs
  cases FileKind.ofName path with
  | classFile => exact .inl (isPlace_classFileAtActs target files path)
  | jar => exact isPlace_or_refused_openedOr fun _ => isGroup_archiveAtActs
  | zip => exact isPlace_or_refused_openedOr fun _ => isGroup_archiveAtActs
  | other => exact .inl fun closed => ⟨[], by simp, by simp, .nil _⟩

theorem isPlace_or_refused (target : Option Nat) (files : FileLookup) (path : String) :
    IsPlace path (pathActs target files path) ∨ Refused path (pathActs target files path) := by
  unfold pathActs
  cases files path with
  | none => exact isPlace_or_refused_fileAtActs target files path
  | some node =>
    cases node with
    | directory children => exact .inl (isPlace_directoryActs target path _)
    | file | unreadableFile | danglingLink => exact isPlace_or_refused_fileAtActs target files path

/-- Paths one after the other.  The group closed last is that of a path which is not refused, so
that no report of a refused path can be taken for one about that group. -/
theorem run_paths (target : Option Nat) (files : FileLookup) (paths : List String)
    (closed : List Tally)
    (h : ∀ tally ∈ closed.head?, ¬Refused tally.name (pathActs target files tally.name)) :
    ∃ more, (∀ tally ∈ more, Tally.Complete tally)
      ∧ Run ⟨[], closed⟩ (logOf (paths.flatMap (pathActs target files))) ⟨[], more ++ closed⟩ := by
  induction paths generalizing closed with
  | nil => exact ⟨[], by simp, .nil _⟩
  | cons path paths ih =>
    rw [List.flatMap_cons, logOf_append]
    by_cases hrefused : Refused path (pathActs target files path)
    · obtain ⟨more, hmore, hrun⟩ := ih closed h
      refine ⟨more, hmore, ?_⟩
      obtain ⟨cause, hcause⟩ := hrefused
      rw [hcause]
      refine .cons (.pathNotLoaded fun tally htally hname => ?_) hrun
      exact h tally htally ⟨cause, by rw [hname, hcause]⟩
    · obtain ⟨first, hfirst, hname, hrun⟩ :=
        (isPlace_or_refused target files path).resolve_right hrefused closed
      obtain ⟨more, hmore, hrest⟩ := ih (first ++ closed) <| by
        cases first with
        | nil => exact h
        | cons tally first =>
          -- The path has just closed its own group, and it was not refused.
          have htally : tally.name = path := hname tally rfl
          simpa [htally] using hrefused
      refine ⟨more ++ first, List.forall_mem_append.mpr ⟨hmore, hfirst⟩, ?_⟩
      rw [List.append_assoc]
      exact hrun.append hrest

/-! ## What is decoded -/

/-- A file, by its group, name and contents, that can be reached from a path: one at the path or
below it, or an entry of an archive that can be reached. -/
inductive Reached (files : FileLookup) (path : String) : String → String → Contents → Prop
  | found {node : FileNode} {name : String} {contents : Contents} (h : files path = some node)
      (hfile : .file name (some contents) ∈ node.walk path) : Reached files path path name contents
  | entry {group name : String} {entries : List ArchiveEntry} {entry : ArchiveEntry}
      (h : Reached files path group name (.archive entries)) (hentry : entry ∈ entries) :
      Reached files path name entry.name entry.contents

/-- The bytes that the acts hand over to be decoded are those of files that can be reached. -/
def DecodesReached (files : FileLookup) (path : String) (acts : List Act) : Prop :=
  ∀ group file bytes, .decode group file bytes ∈ acts →
    ∃ contents, Reached files path group file contents ∧ contents.front = bytes

theorem decodesReached_groupActs {files : FileLookup} {path name : String}
    {items : List (List Act)} (h : ∀ acts ∈ items, DecodesReached files path acts) :
    DecodesReached files path (groupActs name items) := by
  intro group file bytes hmem
  obtain ⟨acts, hacts, hdecode⟩ : ∃ acts ∈ items, .decode group file bytes ∈ acts := by
    simpa [groupActs] using hmem
  exact h acts hacts group file bytes hdecode

theorem decodesReached_openedOr {files : FileLookup} {path : String}
    {warning : LoadError → Warning} {course : Except LoadError (List Act)}
    (h : ∀ acts, course = .ok acts → DecodesReached files path acts) :
    DecodesReached files path (openedOr warning course) := by
  cases course with
  | ok acts => exact h acts rfl
  | error cause => simp [DecodesReached, openedOr]

theorem decodesReached_byNameActs {files : FileLookup} {path group name : String}
    {contents : Contents} {course : (jar : Bool) → Except LoadError (List Act)}
    (hfile : Reached files path group name contents)
    (h : ∀ jar acts, course jar = .ok acts → DecodesReached files path acts) :
    DecodesReached files path (byNameActs group name contents.front course) := by
  have hinside : DecodesReached files path (insideActs group name contents.front course) := by
    unfold insideActs
    cases FileKind.ofName name with
    | classFile =>
      intro _ _ _ hmem
      cases List.mem_singleton.mp hmem
      exact ⟨contents, hfile, rfl⟩
    | jar => exact decodesReached_openedOr (h true)
    | zip => exact decodesReached_openedOr (h false)
    | other => simp [DecodesReached]
  intro group' file bytes hmem
  refine hinside group' file bytes ?_
  simpa [byNameActs] using hmem

theorem decodesReached_archiveActs {files : FileLookup} {path : String} {target : Option Nat}
    {name : String} {jar : Bool} {entries : List ArchiveEntry} {course : List Act}
    (h : ∀ entry ∈ entries,
      DecodesReached files path (fileActs target name entry.name entry.contents))
    (hcourse : archiveActs target name jar entries (allEntryActs target name entries)
      = .ok course) : DecodesReached files path course := by
  obtain ⟨multiRelease, -, rfl⟩ := archiveActs_eq_ok hcourse
  refine decodesReached_groupActs fun acts hacts => ?_
  obtain ⟨entry, hentry, rfl⟩ := List.mem_map.mp hacts
  rw [entryActs_eq]
  split
  · simp [DecodesReached]
  · exact h entry (mem_of_mem_loadedEntries hentry)

theorem decodesReached_fileActs {files : FileLookup} {path : String} (target : Option Nat)
    (group name : String) (contents : Contents) (h : Reached files path group name contents) :
    DecodesReached files path (fileActs target group name contents) := by
  induction contents using Contents.induction generalizing group name with
  | plain bytes =>
    rw [fileActs]
    refine decodesReached_byNameActs h fun jar acts hcourse => ?_
    cases hcourse
  | archive entries ih =>
    rw [fileActs]
    exact decodesReached_byNameActs h fun _ _ hcourse =>
      decodesReached_archiveActs
        (fun entry hentry => ih entry hentry name entry.name (h.entry hentry)) hcourse

theorem decodesReached_foundActs {files : FileLookup} {path : String} (target : Option Nat)
    (group name : String) (contents : Option Contents)
    (h : ∀ held ∈ contents, Reached files path group name held) :
    DecodesReached files path (foundActs target group name contents) := by
  unfold foundActs
  split
  case isTrue hother => simp [DecodesReached, fileActs, byNameActs, insideActs, hother]
  case isFalse =>
    cases contents with
    | none => simp [DecodesReached]
    | some held => exact decodesReached_fileActs target group name held (h held rfl)

theorem decodesReached_directoryActs {files : FileLookup} {path : String} {node : FileNode}
    (target : Option Nat) (h : files path = some node) :
    DecodesReached files path (directoryActs target path node) := by
  have hfiles : DecodesReached files path (groupActs path ((walkedFiles (node.walk path)).map
      fun found => foundActs target path found.1 found.2)) := by
    refine decodesReached_groupActs fun acts hacts => ?_
    obtain ⟨⟨file, contents⟩, hwalked, rfl⟩ := List.mem_map.mp hacts
    refine decodesReached_foundActs target path file contents fun held hheld => ?_
    obtain ⟨item, hitem, hsome⟩ := List.mem_filterMap.mp hwalked
    cases item with
    | skipped => cases hsome
    | file =>
      cases hsome
      cases hheld
      exact .found h hitem
  intro group file bytes hmem
  rcases List.mem_append.mp hmem with hskipped | hgroup
  · obtain ⟨item, -, hitem⟩ := List.mem_flatMap.mp hskipped
    cases item <;> simp [skippedActs] at hitem
  · exact hfiles group file bytes hgroup

theorem reached_of_contents? {files : FileLookup} {path : String} {contents : Contents}
    (h : files.contents? path = some contents) : Reached files path path path contents := by
  have hnode : files path = some (.file contents) := by
    unfold FileLookup.contents? at h
    split at h
    · rwa [← Option.some.inj h]
    · cases h
  refine .found hnode ?_
  rw [FileNode.walk]
  exact List.mem_singleton_self _

theorem decodesReached_fileAtActs (target : Option Nat) (files : FileLookup) (path : String) :
    DecodesReached files path (fileAtActs target files path) := by
  have harchive : ∀ jar acts, archiveAtActs target files path jar = .ok acts →
      DecodesReached files path acts := by
    intro jar acts hacts
    unfold archiveAtActs at hacts
    split at hacts
    case h_1 => cases hacts
    case h_2 contents hcontents =>
      cases contents with
      | plain bytes => cases hacts
      | archive entries =>
        refine decodesReached_archiveActs (fun entry hentry => ?_) hacts
        exact decodesReached_fileActs _ _ _ _ ((reached_of_contents? hcontents).entry hentry)
  unfold fileAtActs
  cases FileKind.ofName path with
  | classFile =>
    show DecodesReached files path (classFileAtActs target files path)
    unfold classFileAtActs
    split
    case h_1 contents hcontents =>
      refine decodesReached_groupActs fun acts hacts => ?_
      rw [List.mem_singleton.mp hacts]
      exact decodesReached_fileActs target path path contents (reached_of_contents? hcontents)
    case h_2 => simp [DecodesReached]
  | jar => exact decodesReached_openedOr (harchive true)
  | zip => exact decodesReached_openedOr (harchive false)
  | other => simp [DecodesReached]

theorem decodesReached_pathActs (target : Option Nat) (files : FileLookup) (path : String) :
    DecodesReached files path (pathActs target files path) := by
  unfold pathActs
  split
  case h_1 children hdirectory => exact decodesReached_directoryActs target hdirectory
  case h_2 => exact decodesReached_fileAtActs target files path

/-- Only handing over a class file is reported by its beginning. -/
theorem Act.eq_decode_of_log {act : Act} {group file : String} {before after : List LogEntry}
    (h : act.log = before ++ .event (.beginClassFile group file) :: after) :
    ∃ bytes, act = .decode group file bytes ∧ after = [verdict group file bytes] := by
  cases act with
  | decode group' file' bytes =>
    have hverdict : .event (.beginClassFile group file) ≠ verdict group' file' bytes := by
      unfold verdict
      split <;> simp
    obtain ⟨-, ⟨rfl, rfl⟩, rfl⟩ : before = [] ∧ (group = group' ∧ file = file')
        ∧ after = [verdict group' file' bytes] := by
      simpa [Act.log, List.cons_eq_append_iff, hverdict] using h
    exact ⟨bytes, rfl, rfl⟩
  | _ => simp [Act.log, List.cons_eq_append_iff] at h

/-- Behind the beginning of a class file comes what became of it. -/
theorem exists_decode_of_logOf {acts : List Act} {group file : String}
    {before after : List LogEntry}
    (h : logOf acts = before ++ .event (.beginClassFile group file) :: after) :
    ∃ bytes rest, .decode group file bytes ∈ acts ∧ after = verdict group file bytes :: rest := by
  induction acts generalizing before with
  | nil => simp at h
  | cons act acts ih =>
    rw [logOf_cons] at h
    -- The entry stands in a later act, right at the front of the later acts, or in this one.
    rcases List.append_eq_append_iff.mp h with ⟨between, -, hlater⟩ | ⟨tail, hact, htail⟩
    · obtain ⟨bytes, rest, hmem, hafter⟩ := ih hlater
      exact ⟨bytes, rest, List.mem_cons_of_mem act hmem, hafter⟩
    · cases tail with
      | nil =>
        have hhere : logOf acts = [] ++ .event (.beginClassFile group file) :: after := htail.symm
        obtain ⟨bytes, rest, hmem, hafter⟩ := ih hhere
        exact ⟨bytes, rest, List.mem_cons_of_mem act hmem, hafter⟩
      | cons entry tail =>
        cases htail
        obtain ⟨bytes, rfl, rfl⟩ := Act.eq_decode_of_log hact
        exact ⟨bytes, logOf acts, List.mem_cons_self, rfl⟩

/-! ## Sessions -/

theorem Tally.Complete.files_le {tally : Tally} (h : tally.Complete) :
    tally.files ≤ tally.size ∧ (tally.files = tally.size ↔ tally.unread = 0) := by
  unfold Tally.Complete at h
  omega

/-- The log of a session is well-bracketed, and the groups that were open before it are open again
behind it.  A group has at most as many files as it was announced with, and as many exactly if none
of them was reported as unreadable.  The entry behind the beginning of a class file tells whether
its bytes could be decoded. -/
theorem load_wellBracketed (loader : Loader) (files : FileLookup) (paths : List String) :
    ∃ (inner : List LogEntry) (closed : List Tally),
      (loader.load files paths).2 = .event .beginSession :: (inner ++ [.event .endSession])
      ∧ Run {} inner { closed }
      ∧ (∀ tally ∈ closed,
          tally.files ≤ tally.size ∧ (tally.files = tally.size ↔ tally.unread = 0))
      ∧ (∀ before group file after,
          inner = before ++ .event (.beginClassFile group file) :: after →
          ∃ path ∈ paths, ∃ contents rest, Reached files path group file contents
            ∧ after = verdict group file contents.front :: rest)
      ∧ (loader.load files paths).1.groups = loader.groups := by
  obtain ⟨closed, hcomplete, hrun⟩ := run_paths loader.target files paths [] (by simp)
  rw [List.append_nil] at hrun
  refine ⟨logOf (paths.flatMap (pathActs loader.target files)), closed, ?_, hrun, ?_, ?_, ?_⟩
  · rw [Loader.load_eq]
    rfl
  · exact fun tally htally => (hcomplete tally htally).files_le
  · intro before group file after hinner
    obtain ⟨bytes, rest, hmem, rfl⟩ := exists_decode_of_logOf hinner
    obtain ⟨path, hpath, hdecode⟩ := List.mem_flatMap.mp hmem
    obtain ⟨contents, hreached, rfl⟩ :=
      decodesReached_pathActs loader.target files path group file bytes hdecode
    exact ⟨path, hpath, contents, rest, hreached, rfl⟩
  · rw [Loader.load_eq]

end ClassFormat.Loading
