/-
# ClassFormat.Proofs.Loading.Isolation: a class file affects nothing but itself

Take a tree of files in which the contents of one class file are left open, be it in a directory or
in an archive inside others.  Whatever is put there, a session takes the same course: the log is one
template with the same entries at the same places, except that right behind each beginning of the
open file there stands what became of it.  So two sessions on two versions of a class file differ in
what they report of that file, and in the classes under the names it decodes to, and nowhere else.

The template is found by following the course of a load.  What is opened, selected and listed on the
way depends on names, on what can be opened and on manifests, none of which is left open.
-/
import ClassFormat.Proofs.Loading.Record
import ClassFormat.Proofs.Loading.Versions

namespace ClassFormat.Loading

/-! ## Trees with an open file -/

/-- Contents in which the contents of one file are left open. -/
inductive OpenContents where
  /-- The file itself. -/
  | own
  /-- A file inside an entry of an archive, or that entry. -/
  | entry (before : List ArchiveEntry) (name : String) (state : EntryState) (inside : OpenContents)
      (after : List ArchiveEntry)

/-- A tree of files in which the contents of one file are left open. -/
inductive OpenNode where
  | file (held : OpenContents)
  | directory (before : List (String × FileNode)) (name : String) (node : OpenNode)
      (after : List (String × FileNode))

namespace OpenContents

/-- Puts some contents where they were left open. -/
def fill : OpenContents → Contents → Contents
  | own, contents => contents
  | entry before name state inside after, contents =>
    .archive (before ++ ⟨name, state, inside.fill contents⟩ :: after)

/-- The name of the open file, if what it is in has this one. -/
def ownName : OpenContents → String → String
  | own, name => name
  | entry _ name _ inside _, _ => inside.ownName name

end OpenContents

namespace OpenNode

def fill : OpenNode → Contents → FileNode
  | file held, contents => .file (held.fill contents)
  | directory before name node after, contents =>
    .directory (before ++ (name, node.fill contents) :: after)

def ownName : OpenNode → String → String
  | file held, name => held.ownName name
  | directory _ name node _, _ => node.ownName name

end OpenNode

/-- A longer name for what the open file is in can only lengthen its own. -/
theorem OpenContents.ownName_isSuffix (held : OpenContents) {name longer : String}
    (h : name.toList <:+ longer.toList) :
    (held.ownName name).toList <:+ (held.ownName longer).toList := by
  cases held with
  | own => exact h
  | entry => exact List.suffix_rfl

theorem OpenNode.ownName_isSuffix (node : OpenNode) {name longer : String}
    (h : name.toList <:+ longer.toList) :
    (node.ownName name).toList <:+ (node.ownName longer).toList := by
  cases node with
  | file held => exact held.ownName_isSuffix h
  | directory => exact List.suffix_rfl

theorem FileKind.ofName_of_isSuffix {name longer : String} (hclass : ofName name = .classFile)
    (h : name.toList <:+ longer.toList) : ofName longer = .classFile := by
  rw [ofName_eq_classFile_iff] at hclass ⊢
  exact hclass.trans (h.map Char.toLower)

/-! ## Templates -/

/-- A place in a log: a known entry, or the decoding of the open file. -/
inductive Slot where
  | known (entry : LogEntry)
  | own (group file : String)

/-- What stands at a place, for the bytes of the open file. -/
def Slot.log (bytes : List UInt8) : Slot → List LogEntry
  | known entry => [entry]
  | own group file => [.event (.beginClassFile group file), verdict group file bytes]

/-- The logs, one for each contents of the open file, are one template.  The file stands in it under
names that end in the one it has in its directory or archive. -/
def Isolated (name : String) (log : Contents → List LogEntry) : Prop :=
  ∃ template : List Slot,
    (∀ group file, .own group file ∈ template → name.toList <:+ file.toList)
    ∧ ∀ contents, log contents = template.flatMap (Slot.log contents.front)

namespace Isolated

variable {name : String} {log more : Contents → List LogEntry}

theorem const (log : List LogEntry) : Isolated name fun _ => log := by
  refine ⟨log.map .known, by simp, fun contents => ?_⟩
  rw [List.flatMap_map]
  exact (List.flatMap_singleton' log).symm

/-- Logs that are all the same are a template without open places. -/
theorem of_forall_eq (h : ∀ contents, log contents = log default) : Isolated name log := by
  rw [funext h]
  exact const (log default)

theorem decode {group file : String} (h : name.toList <:+ file.toList) :
    Isolated name fun contents => logOf [.decode group file contents.front] := by
  refine ⟨[.own group file], fun other named hmem => ?_, fun contents => rfl⟩
  cases List.mem_singleton.mp hmem
  exact h

theorem append (h : Isolated name log) (hmore : Isolated name more) :
    Isolated name fun contents => log contents ++ more contents := by
  obtain ⟨template, hnamed, hlog⟩ := h
  obtain ⟨others, hothers, hrest⟩ := hmore
  refine ⟨template ++ others, fun group file hmem => ?_, fun contents => ?_⟩
  · rcases List.mem_append.mp hmem with hfirst | hsecond
    · exact hnamed group file hfirst
    · exact hothers group file hsecond
  · simp only [hlog, hrest, List.flatMap_append]

/-- What stands around an isolated log is the same for all contents. -/
theorem between (first last : List LogEntry) (h : Isolated name log) :
    Isolated name fun contents => first ++ (log contents ++ last) :=
  (const first).append (h.append (const last))

theorem flatMap {α : Type} {xs : List α} {logs : α → Contents → List LogEntry}
    (h : ∀ x ∈ xs, Isolated name (logs x)) :
    Isolated name fun contents => xs.flatMap fun x => logs x contents := by
  induction xs with
  | nil => exact const []
  | cons x xs ih =>
    simp only [List.flatMap_cons]
    exact (h x List.mem_cons_self).append (ih fun y hy => h y (List.mem_cons_of_mem x hy))

/-- A group is isolated if each of its files is. -/
theorem group {group : String} {α : Type} {files : List α} {acts : α → Contents → List Act}
    (h : ∀ file ∈ files, Isolated name fun contents => logOf (acts file contents)) :
    Isolated name fun contents =>
      logOf (groupActs group (files.map fun file => acts file contents)) := by
  simp only [logOf_groupActs, List.length_map, List.flatMap_map]
  exact between [_] _ (flatMap h)

/-- A group is isolated if it differs in one file, and that is. -/
theorem groupAround {group : String} {acts : Contents → List Act} (before after : List (List Act))
    (h : Isolated name fun contents => logOf (acts contents)) :
    Isolated name fun contents => logOf (groupActs group (before ++ acts contents :: after)) := by
  simp only [logOf_groupActs, List.length_append, List.length_cons, List.flatMap_append,
    List.flatMap_cons, List.append_assoc]
  exact between (_ :: before.flatMap logOf) (after.flatMap logOf ++ [_]) h

/-- Of courses that differ in one, which keeps its position, each is isolated if that one is. -/
theorem getD {acts : Contents → List Act} (before after : List (List Act))
    (h : Isolated name fun contents => logOf (acts contents)) (position : Nat) :
    Isolated name fun contents => logOf ((before ++ acts contents :: after).getD position []) := by
  simp only [List.getD_eq_getElem?_getD]
  rcases Nat.lt_or_ge position before.length with hlt | hge
  · simp only [List.getElem?_append_left hlt]
    exact const _
  · simp only [List.getElem?_append_right hge]
    cases position - before.length with
    | zero => exact h
    | succ later =>
      simp only [List.getElem?_cons_succ]
      exact const _

end Isolated

/-! ## Opening archives -/

/-- A look-up finds the last entry of a name. -/
theorem findEntry?_middle (before : List ArchiveEntry) (entry : ArchiveEntry)
    (after : List ArchiveEntry) (name : String) :
    findEntry? (before ++ entry :: after) name
      = match findEntry? after name with
        | some found => some found
        | none => if entry.name = name then some entry else findEntry? before name := by
  unfold findEntry?
  rw [List.reverse_append, List.reverse_cons, List.append_assoc, List.find?_append]
  cases after.reverse.find? fun found => found.name == name with
  | some found => rfl
  | none => by_cases hname : entry.name = name <;> simp [hname]

/-- Which entries are no directories depends on the names of all. -/
theorem map_name_fileEntries (entries : List ArchiveEntry) :
    (fileEntries entries).map (Prod.map ArchiveEntry.name id)
      = (entries.map ArchiveEntry.name).zipIdx.filter fun found =>
          !(ArchiveEntry.mk found.1 .sound default).isDirectory := by
  rw [List.zipIdx_map, List.filter_map]
  rfl

theorem selectedPositions_eq (target : Option Nat) (multiRelease : Bool)
    (entries : List ArchiveEntry) :
    selectedPositions target multiRelease entries
      = (selectEntries (((fileEntries entries).map (Prod.map ArchiveEntry.name id)).map Prod.fst)
          multiRelease target).filterMap fun position =>
            ((fileEntries entries).map (Prod.map ArchiveEntry.name id))[position]?.map
              Prod.snd := by
  simp only [selectedPositions, List.map_map, List.getElem?_map, Option.map_map]
  rfl

/-- Which entries are selected depends on their names. -/
theorem selectedPositions_congr {entries others : List ArchiveEntry} (target : Option Nat)
    (multiRelease : Bool)
    (h : entries.map ArchiveEntry.name = others.map ArchiveEntry.name) :
    selectedPositions target multiRelease entries
      = selectedPositions target multiRelease others := by
  rw [selectedPositions_eq, selectedPositions_eq, map_name_fileEntries, map_name_fileEntries, h]

/-- Two entries that an archive may hold in the same place without being opened differently. -/
structure SameEntry (entry other : ArchiveEntry) : Prop where
  name : entry.name = other.name
  state : entry.state = other.state
  manifest : entry.name = manifestPath → entry.contents.text? = other.contents.text?

theorem asksMultiRelease_congr {entry other : ArchiveEntry} (h : SameEntry entry other)
    (before after : List ArchiveEntry) :
    asksMultiRelease (before ++ entry :: after) = asksMultiRelease (before ++ other :: after) := by
  unfold asksMultiRelease
  rw [findEntry?_middle, findEntry?_middle, ← h.name]
  cases findEntry? after manifestPath with
  | some found => rfl
  | none =>
    by_cases hmanifest : entry.name = manifestPath
    · simp only [if_pos hmanifest, h.state, h.manifest hmanifest]
    · simp only [if_neg hmanifest]

/-- The entries to load are selected alike. -/
theorem entriesToLoad_congr {entry other : ArchiveEntry} (h : SameEntry entry other)
    (target : Option Nat) (jar : Bool) (before after : List ArchiveEntry) :
    entriesToLoad target jar (before ++ entry :: after)
      = entriesToLoad target jar (before ++ other :: after) := by
  have hasks : isMultiRelease jar (before ++ entry :: after)
      = isMultiRelease jar (before ++ other :: after) := by
    unfold isMultiRelease
    rw [asksMultiRelease_congr h]
  have hstates : (before ++ entry :: after).any (fun entry => entry.state = .unsupported)
      = (before ++ other :: after).any fun entry => entry.state = .unsupported := by
    simp only [List.any_append, List.any_cons, h.state]
  have hselected : ∀ multiRelease, selectedPositions target multiRelease (before ++ entry :: after)
      = selectedPositions target multiRelease (before ++ other :: after) := fun multiRelease =>
    selectedPositions_congr target multiRelease (by simp [h.name])
  simp only [entriesToLoad, hasks, hstates, hselected]

/-! ## Files and archives -/

theorem FileKind.ofName_manifestPath : ofName manifestPath ≠ .classFile := by
  decide +kernel

/-- An archive with entries looks the same from outside, whatever is in them. -/
theorem Contents.front_archive (before : List ArchiveEntry) (entry : ArchiveEntry)
    (after : List ArchiveEntry) :
    (Contents.archive (before ++ entry :: after)).front = [0x50, 0x4B, 0x03, 0x04] := by
  cases before <;> rfl

theorem Contents.text?_archive (before : List ArchiveEntry) (entry : ArchiveEntry)
    (after : List ArchiveEntry) : (Contents.archive (before ++ entry :: after)).text? = none := by
  cases before <;> rfl

/-- The entry with the open file in it is opened in one way: it is no manifest, or no text. -/
theorem OpenContents.sameEntry (inside : OpenContents) {name : String} (state : EntryState)
    (h : FileKind.ofName (inside.ownName name) = .classFile) (old new : Contents) :
    SameEntry ⟨name, state, inside.fill old⟩ ⟨name, state, inside.fill new⟩ where
  name := rfl
  state := rfl
  manifest hmanifest := by
    cases inside with
    | own =>
      have hname : name = manifestPath := hmanifest
      rw [ownName, hname] at h
      exact absurd h FileKind.ofName_manifestPath
    | entry before inner state inside after =>
      simp only [fill, Contents.text?_archive]

/-- A class file is decoded between its two ends. -/
theorem fileActs_of_classFile (target : Option Nat) (group : String) {name : String}
    (h : FileKind.ofName name = .classFile) (contents : Contents) :
    fileActs target group name contents
      = [.beginFile group name, .decode group name contents.front, .endFile group name] := by
  cases contents with
  | plain bytes => simp [fileActs, byNameActs, insideActs, h, Contents.front]
  | archive entries => simp [fileActs, byNameActs, insideActs, h]

section Courses

variable {own : String} (hclass : FileKind.ofName own = .classFile) (target : Option Nat)

include hclass

/-- An archive is isolated if what is in the entry with the open file is. -/
theorem isolated_archive (name : String) (jar : Bool) (warning : LoadError → Warning)
    (before : List ArchiveEntry) (entry : String) (state : EntryState) (inside : OpenContents)
    (after : List ArchiveEntry) (hown : own.toList <:+ (inside.ownName entry).toList)
    (h : Isolated own fun contents => logOf (fileActs target name entry (inside.fill contents))) :
    Isolated own fun contents => logOf (openedOr warning
      (contentsActs target name jar
        ((OpenContents.entry before entry state inside after).fill contents))) := by
  have hentry : Isolated own fun contents =>
      logOf (entryActs target name ⟨entry, state, inside.fill contents⟩) := by
    simp only [entryActs_eq]
    by_cases hcorrupt : state = .corrupt
    · simp only [if_pos hcorrupt]
      exact .const _
    · simp only [if_neg hcorrupt]
      exact h
  have hsame : ∀ contents, entriesToLoad target jar
        (before ++ ⟨entry, state, inside.fill contents⟩ :: after)
      = entriesToLoad target jar (before ++ ⟨entry, state, inside.fill default⟩ :: after) :=
    fun contents => entriesToLoad_congr
      (inside.sameEntry state (FileKind.ofName_of_isSuffix hclass hown) contents default) ..
  simp only [OpenContents.fill, contentsActs, archiveActs, hsame, allEntryActs_eq_map,
    List.map_append, List.map_cons]
  cases entriesToLoad target jar (before ++ ⟨entry, state, inside.fill default⟩ :: after) with
  | error cause => exact .const _
  | ok selected => exact .group fun position _ => .getD _ _ hentry position

/-- A file is isolated, be it the open file or an archive that it is in. -/
theorem isolated_file (held : OpenContents) (group name : String)
    (hown : own.toList <:+ (held.ownName name).toList) :
    Isolated own fun contents => logOf (fileActs target group name (held.fill contents)) := by
  induction held generalizing group name with
  | own =>
    have hname : FileKind.ofName name = .classFile := FileKind.ofName_of_isSuffix hclass hown
    simp only [OpenContents.fill, fileActs_of_classFile target group hname]
    exact .between [_] [_] (.decode hown)
  | entry before entry state inside after ih =>
    have harchive : ∀ jar warning, Isolated own fun contents => logOf (openedOr warning
        (contentsActs target name jar
          ((OpenContents.entry before entry state inside after).fill contents))) :=
      fun jar warning => isolated_archive hclass target name jar warning before entry state inside
        after hown (ih name entry hown)
    simp only [OpenContents.fill, fileActs, byNameActs, insideActs, Contents.front_archive]
    simp only [OpenContents.fill, contentsActs] at harchive
    simp only [logOf_cons, logOf_append]
    refine .between _ _ ?_
    cases FileKind.ofName name with
    | classFile => exact .const _
    | jar => exact harchive true _
    | zip => exact harchive false _
    | other => exact .const _

theorem isolated_found (held : OpenContents) (group name : String)
    (hown : own.toList <:+ (held.ownName name).toList) :
    Isolated own fun contents =>
      logOf (foundActs target group name (some (held.fill contents))) := by
  unfold foundActs
  split
  · exact .const _
  · exact isolated_file hclass target held group name hown

end Courses

/-! ## Directories -/

theorem walkChildren_append (path : String) (children others : List (String × FileNode)) :
    walkChildren path (children ++ others)
      = walkChildren path children ++ walkChildren path others := by
  induction children with
  | nil => rw [walkChildren, List.nil_append, List.nil_append]
  | cons child children ih =>
    simp only [List.cons_append, walkChildren, ih, List.append_assoc]

theorem isSuffix_joinPath (path name : String) : name.toList <:+ (joinPath path name).toList := by
  unfold joinPath
  split <;> rw [String.toList_append] <;> exact List.suffix_append _ _

/-- A walk meets the file with the open file in it, at the same point among the same others. -/
theorem OpenNode.walk_fill (node : OpenNode) (path : String) :
    ∃ before file held after,
      (node.ownName path).toList <:+ (OpenContents.ownName held file).toList
      ∧ ∀ contents, (node.fill contents).walk path
          = before ++ .file file (some (held.fill contents)) :: after := by
  induction node generalizing path with
  | file held => exact ⟨[], path, held, [], List.suffix_rfl, fun _ => by simp [fill, FileNode.walk]⟩
  | directory before name node after ih =>
    obtain ⟨first, file, held, last, hown, hwalk⟩ := ih (joinPath path name)
    refine ⟨walkChildren path before ++ first, file, held, last ++ walkChildren path after,
      (node.ownName_isSuffix (isSuffix_joinPath path name)).trans hown, fun contents => ?_⟩
    simp only [fill, FileNode.walk, walkChildren_append, walkChildren, hwalk, List.append_assoc,
      List.cons_append]

theorem isolated_directory {own : String} (hclass : FileKind.ofName own = .classFile)
    (target : Option Nat) (node : OpenNode) (path : String)
    (hown : own.toList <:+ (node.ownName path).toList) :
    Isolated own fun contents => logOf (directoryActs target path (node.fill contents)) := by
  obtain ⟨before, file, held, after, hsuffix, hwalk⟩ := node.walk_fill path
  have hfound := isolated_found hclass target held path file (hown.trans hsuffix)
  have hfiles : ∀ contents, walkedFiles (before ++ .file file (some (held.fill contents)) :: after)
      = walkedFiles before ++ (file, some (held.fill contents)) :: walkedFiles after := by
    simp [walkedFiles]
  simp only [directoryActs, hwalk, hfiles, logOf_append, List.map_append, List.map_cons]
  refine .append ?_ (.groupAround _ _ hfound)
  -- The open file is not passed over, so nothing is reported of it outside the group.
  simp only [List.flatMap_append, List.flatMap_cons, skippedActs]
  exact .const _

/-! ## Paths -/

/-- What a path can lead to: a place without the open file, or one with it. -/
inductive Place where
  | known (node : FileNode)
  | holding (node : OpenNode)

namespace Place

def fill (contents : Contents) : Place → FileNode
  | known node => node
  | holding node => node.fill contents

/-- At a place of this name the open file has a name that ends in its own. -/
def Fits (own name : String) : Place → Prop
  | known _ => True
  | holding node => own.toList <:+ (node.ownName name).toList

/-- What is the same for all contents is a known place, or none. -/
theorem exists_known (own step : String) (found : Option FileNode) :
    ∃ place : Option Place, (∀ below ∈ place, below.Fits own step)
      ∧ ∀ contents, found = place.map (fill contents) := by
  cases found with
  | none => exact ⟨none, by simp, fun _ => rfl⟩
  | some node => exact ⟨some (known node), by simp [Fits], fun _ => rfl⟩

/-- The place that a name leads to in a directory with the open file in it. -/
theorem lookup_fill {own : String} (before : List (String × FileNode)) (name : String)
    (node : OpenNode) (after : List (String × FileNode))
    (hown : own.toList <:+ (node.ownName name).toList) (step : String) :
    ∃ found : Option Place, (∀ below ∈ found, below.Fits own step)
      ∧ ∀ contents, (before ++ (name, node.fill contents) :: after).lookup step
          = found.map (fill contents) := by
  simp only [List.lookup_append, List.lookup_cons]
  cases before.lookup step with
  | some node => exact exists_known own step (some node)
  | none =>
    by_cases hstep : step = name
    · refine ⟨some (holding node), ?_, fun contents => by simp [hstep, fill]⟩
      rintro _ ⟨⟩
      rwa [hstep]
    · simp only [beq_eq_false_iff_ne.mpr hstep, Option.none_or]
      exact exists_known own step (after.lookup step)

/-- A step leads on from directories only, and to a place that is known or has the open file in
it. -/
theorem step {place : Place} {own name : String} (h : place.Fits own name) :
    (∀ contents, (place.fill contents).isDirectory = false)
      ∨ ∃ children : Contents → List (String × FileNode),
        (∀ contents, place.fill contents = .directory (children contents))
        ∧ (∀ name, place.Fits own name)
        ∧ ∀ step, ∃ found : Option Place, (∀ below ∈ found, below.Fits own step)
          ∧ ∀ contents, (children contents).lookup step = found.map (fill contents) := by
  match place with
  | known (.directory children) =>
    exact .inr ⟨fun _ => children, fun _ => rfl, fun _ => trivial,
      fun step => exists_known own step (children.lookup step)⟩
  | known (.file _) | known .unreadableFile | known .danglingLink | holding (.file _) =>
    exact .inl fun _ => rfl
  | holding (.directory before name node after) =>
    exact .inr ⟨_, fun contents => rfl, fun _ => h, lookup_fill before name node after h⟩

end Place

namespace FileNode

theorem follow?_of_not_isDirectory {node : FileNode} (h : node.isDirectory = false) (step : String)
    (steps : List String) (outer : List FileNode) :
    follow? (step :: steps) (node :: outer) = none := by
  cases node with
  | directory children => cases h
  | file contents => rfl
  | unreadableFile => rfl
  | danglingLink => rfl

/-- Steps that start from places without the open file, or with it, lead to such a place.  A file is
reached by the last step, so that is its name; the name of a directory does not matter. -/
theorem follow?_fill {own : String} (steps : List String) {name : String} {here : Place}
    {outer : List Place} (hhere : here.Fits own name)
    (houter : ∀ place ∈ outer, ∀ name, place.Fits own name) :
    ∃ found : Option Place, (∀ place ∈ found, place.Fits own (steps.getLastD name))
      ∧ ∀ contents, follow? steps ((here :: outer).map (Place.fill contents))
          = found.map (Place.fill contents) := by
  induction steps generalizing name here outer with
  | nil =>
    refine ⟨some here, ?_, fun contents => rfl⟩
    rintro _ ⟨⟩
    exact hhere
  | cons step steps ih =>
    rw [List.getLastD_cons]
    rcases Place.step hhere with hfile | ⟨children, hchildren, hany, hbelow⟩
    · refine ⟨none, by simp, fun contents => ?_⟩
      exact follow?_of_not_isDirectory (hfile contents) step steps _
    · simp only [List.map_cons, hchildren, follow?]
      by_cases hstay : step = "" ∨ step = "."
      · simp only [if_pos hstay]
        simpa only [List.map_cons, hchildren] using ih (hany step) houter
      · simp only [if_neg hstay]
        by_cases hback : step = ".."
        · simp only [if_pos hback]
          cases outer with
          | nil => exact ⟨none, by simp, fun contents => rfl⟩
          | cons place outer =>
            obtain ⟨hplace, hrest⟩ := List.forall_mem_cons.mp houter
            simpa using ih (hplace step) hrest
        · simp only [if_neg hback]
          obtain ⟨found, hfound, hlookup⟩ := hbelow step
          simp only [hlookup]
          cases found with
          | none => exact ⟨none, by simp, fun contents => rfl⟩
          | some below =>
            have hnext := ih (hfound below rfl) (List.forall_mem_cons.mpr ⟨hany, houter⟩)
            simpa only [List.map_cons, hchildren, Option.map_some] using hnext

/-- The last piece is the end of the text, or all of it. -/
theorem splitAll_eq_append_singleton (mark : Char) (cs : List Char) :
    ∃ pieces last, Text.splitAll mark cs = pieces ++ [last] ∧ last <:+ cs
      ∧ (pieces = [] → last = cs) := by
  induction cs with
  | nil => exact ⟨[], [], rfl, List.suffix_rfl, fun _ => rfl⟩
  | cons c cs ih =>
    obtain ⟨pieces, last, hsplit, hsuffix, hwhole⟩ := ih
    simp only [Text.splitAll, hsplit]
    split
    · exact ⟨[] :: pieces, last, rfl, hsuffix.trans (List.suffix_cons c cs), by simp⟩
    · cases pieces with
      | nil => exact ⟨[], c :: last, rfl, by rw [hwhole rfl], fun _ => by rw [hwhole rfl]⟩
      | cons piece pieces =>
        exact ⟨(c :: piece) :: pieces, last, rfl, hsuffix.trans (List.suffix_cons c cs), by simp⟩

theorem getLastD_steps_isSuffix (path name : String) :
    ((steps path).getLastD name).toList <:+ path.toList := by
  obtain ⟨pieces, last, hsplit, hsuffix, -⟩ := splitAll_eq_append_singleton '/' path.toList
  simpa [steps, hsplit] using hsuffix

end FileNode

theorem Place.Fits.of_isSuffix {place : Place} {own name longer : String}
    (h : place.Fits own name) (hlonger : name.toList <:+ longer.toList) :
    place.Fits own longer := by
  cases place with
  | known node => trivial
  | holding node => exact List.IsSuffix.trans h (node.ownName_isSuffix hlonger)

/-- What is at a path is the same for all contents, or has the open file in it. -/
theorem OpenNode.at?_fill (root : OpenNode) (path : String) :
    ∃ found : Option Place, (∀ place ∈ found, place.Fits (root.ownName "") path)
      ∧ ∀ contents, (root.fill contents).at? path = found.map (Place.fill contents) := by
  unfold FileNode.at?
  split
  · exact Place.exists_known _ path none
  · have hroot : (Place.holding root).Fits (root.ownName "") "" := List.suffix_rfl
    obtain ⟨found, hfound, hfollow⟩ :=
      FileNode.follow?_fill (FileNode.steps path) hroot (List.forall_mem_nil _)
    exact ⟨found, fun place hplace =>
      (hfound place hplace).of_isSuffix (FileNode.getLastD_steps_isSuffix path ""), hfollow⟩

/-! ## Sessions -/

theorem pathActs_congr {target : Option Nat} {files others : FileLookup} {path : String}
    (h : files path = others path) : pathActs target files path = pathActs target others path := by
  simp only [pathActs, fileAtActs, classFileAtActs, archiveAtActs, FileLookup.contents?, h]

section Paths

variable {own : String} (hclass : FileKind.ofName own = .classFile) (target : Option Nat)

include hclass

/-- The open file is no archive, so an archive at a path is one that it is in. -/
theorem isolated_archiveAt (held : OpenContents) (path : String) (jar : Bool)
    (hown : own.toList <:+ (held.ownName path).toList) (hpath : FileKind.ofName path ≠ .classFile) :
    Isolated own fun contents => logOf (openedOr (.pathNotLoaded path)
      (contentsActs target path jar (held.fill contents))) := by
  cases held with
  | own => exact absurd (FileKind.ofName_of_isSuffix hclass hown) hpath
  | entry before entry state inside after =>
    exact isolated_archive hclass target path jar _ before entry state inside after hown
      (isolated_file hclass target inside path entry hown)

theorem isolated_fileAt (held : OpenContents) (files : Contents → FileLookup) (path : String)
    (hown : own.toList <:+ (held.ownName path).toList)
    (h : ∀ contents, (files contents).contents? path = some (held.fill contents)) :
    Isolated own fun contents => logOf (fileAtActs target (files contents) path) := by
  simp only [fileAtActs, classFileAtActs, archiveAtActs, h]
  cases hkind : FileKind.ofName path with
  | classFile =>
    exact .groupAround [] [] (isolated_file hclass target held path path hown)
  | jar => exact isolated_archiveAt hclass target held path true hown (by rw [hkind]; decide)
  | zip => exact isolated_archiveAt hclass target held path false hown (by rw [hkind]; decide)
  | other => exact .const _

/-- What is at a path is isolated, whether the open file is there or not. -/
theorem isolated_path (files : Contents → FileLookup) (path : String) {found : Option Place}
    (hfound : ∀ place ∈ found, place.Fits own path)
    (h : ∀ contents, files contents path = found.map (Place.fill contents)) :
    Isolated own fun contents => logOf (pathActs target (files contents) path) := by
  match found with
  | none | some (.known _) =>
    have hsame : ∀ contents, files contents path = files default path :=
      fun contents => (h contents).trans (h default).symm
    exact .of_forall_eq fun contents => congrArg logOf (pathActs_congr (hsame contents))
  | some (.holding (.file held)) =>
    have hfile := isolated_fileAt hclass target held files path (hfound _ rfl)
      (by simp [FileLookup.contents?, h, Place.fill, OpenNode.fill])
    simpa only [pathActs, h, Option.map_some, Place.fill, OpenNode.fill] using hfile
  | some (.holding (.directory before name node after)) =>
    have hdirectory := isolated_directory hclass target (.directory before name node after) path
      (hfound _ rfl)
    simpa only [pathActs, h, Option.map_some, Place.fill, OpenNode.fill] using hdirectory

end Paths

theorem isolated_session (target : Option Nat) (root : OpenNode) (paths : List String)
    (hclass : FileKind.ofName (root.ownName "") = .classFile) :
    Isolated (root.ownName "") fun contents =>
      sessionLog target (root.fill contents).at? paths := by
  have hpath : ∀ path ∈ paths, Isolated (root.ownName "") fun contents =>
      logOf (pathActs target (root.fill contents).at? path) := by
    intro path _
    obtain ⟨found, hfound, hat⟩ := root.at?_fill path
    exact isolated_path hclass target (fun contents => (root.fill contents).at?) path hfound hat
  simp only [sessionLog, logOf_flatMap]
  exact .between [_] [_] (.flatMap hpath)

/-! ## Classes -/

/-- At this place a class of this name is decoded from the open file. -/
def Slot.DecodesTo (bytes : List UInt8) (className : String) : Slot → Prop
  | known _ => False
  | own _ _ => ∃ file, ClassFile.decode bytes = .ok file ∧ file.name = .ok className

theorem find?_keepOwn (classes : Repository) (file : ClassFile) (className : String) :
    (keepOwn classes file).find? className
      = if file.name = .ok className then some file else classes.find? className := by
  unfold keepOwn
  cases file.name with
  | error cause => simp
  | ok name => simp [Repository.find?_insert, eq_comm]

theorem find?_foldl_keepOwn_congr {classes others : Repository} {className : String}
    (h : classes.find? className = others.find? className) (reported : List ClassFile) :
    (reported.foldl keepOwn classes).find? className
      = (reported.foldl keepOwn others).find? className := by
  induction reported generalizing classes others with
  | nil => exact h
  | cons file reported ih =>
    exact ih (by rw [find?_keepOwn, find?_keepOwn, h])

namespace Slot

/-- The open file changes nothing under a name that it is not decoded to. -/
theorem find?_own {group file className : String} {bytes : List UInt8}
    (h : ¬ (own group file).DecodesTo bytes className) (classes : Repository) :
    ((reportedClasses ((own group file).log bytes)).foldl keepOwn classes).find? className
      = classes.find? className := by
  unfold log verdict
  cases hdecode : ClassFile.decode bytes with
  | error cause => rfl
  | ok decoded =>
    show (keepOwn classes decoded).find? className = classes.find? className
    rw [find?_keepOwn, if_neg fun hname => h ⟨decoded, hdecode, hname⟩]

variable {classes others : Repository} {className : String} {old new : List UInt8}

/-- What stands at one place keeps two records alike under a name. -/
theorem find?_log {slot : Slot} (h : classes.find? className = others.find? className)
    (hold : ¬ slot.DecodesTo old className) (hnew : ¬ slot.DecodesTo new className) :
    ((reportedClasses (slot.log old)).foldl keepOwn classes).find? className
      = ((reportedClasses (slot.log new)).foldl keepOwn others).find? className := by
  cases slot with
  | known entry => exact find?_foldl_keepOwn_congr h _
  | own group file => rw [find?_own hold, find?_own hnew, h]

theorem find?_flatMap_log {template : List Slot}
    (h : classes.find? className = others.find? className)
    (hold : ∀ slot ∈ template, ¬ slot.DecodesTo old className)
    (hnew : ∀ slot ∈ template, ¬ slot.DecodesTo new className) :
    ((reportedClasses (template.flatMap (log old))).foldl keepOwn classes).find? className
      = ((reportedClasses (template.flatMap (log new))).foldl keepOwn others).find? className := by
  induction template generalizing classes others with
  | nil => exact h
  | cons slot template ih =>
    obtain ⟨holdHere, hold⟩ := List.forall_mem_cons.mp hold
    obtain ⟨hnewHere, hnew⟩ := List.forall_mem_cons.mp hnew
    simp only [List.flatMap_cons, reportedClasses_append, List.foldl_append]
    exact ih (find?_log h holdHere hnewHere) hold hnew

end Slot

/-- Sessions that differ in what is in one class file, wherever it is in the directories and
archives, report the same in the same order, but for what became of that file right behind its
beginning.  The classes they end with are the same under every name that the file is not decoded to
in either. -/
theorem load_isolates_class_file (loader : Loader) (root : OpenNode) (paths : List String)
    (hclass : FileKind.ofName (root.ownName "") = .classFile) :
    ∃ template : List Slot,
      (∀ group file, .own group file ∈ template → (root.ownName "").toList <:+ file.toList)
      ∧ (∀ contents, (loader.load (root.fill contents).at? paths).2
          = template.flatMap (Slot.log contents.front))
      ∧ ∀ old new className,
          (∀ slot ∈ template, ¬ slot.DecodesTo old.front className) →
          (∀ slot ∈ template, ¬ slot.DecodesTo new.front className) →
          (loader.load (root.fill old).at? paths).1.classes.find? className
            = (loader.load (root.fill new).at? paths).1.classes.find? className := by
  obtain ⟨template, hnamed, hlog⟩ := isolated_session loader.target root paths hclass
  refine ⟨template, hnamed, fun contents => ?_, fun old new className hold hnew => ?_⟩
  · rw [Loader.load_eq]
    exact hlog contents
  · simp only [Loader.load_eq, hlog]
    exact Slot.find?_flatMap_log rfl hold hnew

/-- A class file in a jar in a multi-release jar in a directory, with other files around it. -/
def nestedClassFile : OpenNode :=
  .directory [] "lib"
    (.directory [("a.txt", .file (.plain []))] "m.jar"
      (.file (.entry [⟨manifestPath, .sound, .plain "Multi-Release: true".toUTF8.toList⟩] "n.jar"
        .sound (.entry [] "a/B.class" .sound .own [⟨"c/D.class", .sound, .plain []⟩]) []))
      [])
    []

theorem load_isolates_nested_class_file :
    FileKind.ofName (nestedClassFile.ownName "") = .classFile
      ∧ ((({} : Loader).load (nestedClassFile.fill (.plain [])).at? ["lib"]).2.filterMap fun
          | .event (.beginClassFile group file) => some (group, file)
          | _ => none) = [("n.jar", "a/B.class"), ("n.jar", "c/D.class")]
      ∧ ∃ template : List Slot,
        (∀ group file, .own group file ∈ template → "a/B.class".toList <:+ file.toList)
        ∧ (∀ contents, (({} : Loader).load (nestedClassFile.fill contents).at? ["lib"]).2
            = template.flatMap (Slot.log contents.front))
        ∧ ∀ old new className,
            (∀ slot ∈ template, ¬ slot.DecodesTo old.front className) →
            (∀ slot ∈ template, ¬ slot.DecodesTo new.front className) →
            (({} : Loader).load (nestedClassFile.fill old).at? ["lib"]).1.classes.find? className
              = (({} : Loader).load (nestedClassFile.fill new).at? ["lib"]).1.classes.find?
                  className := by
  have hclass : FileKind.ofName (nestedClassFile.ownName "") = .classFile := by decide +kernel
  exact ⟨hclass, by decide +kernel, load_isolates_class_file {} nestedClassFile ["lib"] hclass⟩

end ClassFormat.Loading
