/-
# ClassFormat.Loading.MultiRelease: choosing among versions of a class

An archive can hold, beside an entry `p`, versions of it for newer platform releases under
`META-INF/versions/N/p`.  If its manifest asks for that, only one version of each class is loaded:
the one for the newest release that is not newer than the target, or else the entry `p` itself.
-/
import ClassFormat.Text.Blank
import ClassFormat.Text.Split

namespace ClassFormat.Loading

/-! ## Manifests -/

/-- The path of the manifest in an archive. -/
def manifestPath : String := "META-INF/MANIFEST.MF"

/-- What the path of a versioned entry starts with. -/
def versionsFolder : String := "META-INF/versions/"

/-- Whether a manifest line is `Multi-Release: true`, in any case and with any space around the
two words. -/
def isMultiReleaseLine (line : List Char) : Bool :=
  match Text.splitFirst? ':' line with
  | some (key, value) =>
    Text.sameIgnoringCase (Text.trim key) "Multi-Release".toList
      && Text.sameIgnoringCase (Text.trim value) "true".toList
  | none => false

/-- Whether the main section of a manifest, which ends at the first blank line, asks for
multi-release handling. -/
def declaresMultiRelease (manifest : List Char) : Bool :=
  ((Text.splitAll '\n' manifest).takeWhile fun line => !(Text.trim line).isEmpty).any
    isMultiReleaseLine

/-! ## Versioned entries -/

/-- The value of a decimal number with one more digit behind it. -/
def appendDigit? (value : Nat) (c : Char) : Option Nat :=
  if c.isDigit then some (value * 10 + (c.toNat - '0'.toNat)) else none

/-- The value of a run of decimal digits. -/
def digitsValue? (digits : List Char) : Option Nat :=
  if digits.isEmpty then none else digits.foldlM appendDigit? 0

/-- A 16-bit number in decimal, with at most a plus sign in front. -/
def word16? (text : List Char) : Option Nat :=
  let digits := match text with
    | '+' :: digits => digits
    | digits => digits
  (digitsValue? digits).filter (· < 65536)

/-- The text behind `front`, if the text starts with it. -/
def after? (front text : List Char) : Option (List Char) :=
  if front.isPrefixOf text then some (text.drop front.length) else none

/-- The release and the path of an entry under the versions folder. -/
def versioned? (name : String) : Option (Nat × String) := do
  let rest ← after? versionsFolder.toList name.toList
  let (release, path) ← Text.splitFirst? '/' rest
  let release ← word16? release
  if path.isEmpty then none else some (release, String.ofList path)

/-- The release and the path of a versioned class. -/
def versionedClass? (name : String) : Option (Nat × String) :=
  (versioned? name).filter fun (_, path) => ".class".toList.isSuffixOf path.toList

/-! ## Choosing -/

/-- Whether a release may be used for a target; without a target all may. -/
def qualifies (target : Option Nat) (release : Nat) : Bool := target.all (release ≤ ·)

/-- The release of an entry that may be chosen for a path. -/
def candidate? (target : Option Nat) (path name : String) : Option Nat :=
  match versionedClass? name with
  | some (release, versionOf) =>
    if versionOf = path ∧ qualifies target release then some release else none
  | none => none

/-- The newer of two releases with their positions, the first of equal ones. -/
def newer (best : Option (Nat × Nat)) (release position : Nat) : Option (Nat × Nat) :=
  match best with
  | none => some (release, position)
  | some (held, at_) => if held < release then some (release, position) else some (held, at_)

/-- The position of the entry to use for a path, if there is a version of it. -/
def bestVersion? (names : List String) (target : Option Nat) (path : String) : Option Nat :=
  (names.zipIdx.foldl (fun best (name, position) =>
    match candidate? target path name with
    | some release => newer best release position
    | none => best) none).map Prod.snd

/-- The position of the entry that is loaded in place of one entry, if any is. -/
def replacement? (names : List String) (target : Option Nat) (name : String) (position : Nat) :
    Option Nat :=
  match versionedClass? name with
  | some (_, path) =>
    if bestVersion? names target path = some position ∧ !names.contains path then some position
    else none
  | none => some ((bestVersion? names target name).getD position)

/-- The positions of the entries to load, in the order to load them.  A chosen version takes the
place of the entry it is a version of, or keeps its own when there is no such entry. -/
def selectEntries (names : List String) (multiRelease : Bool) (target : Option Nat) : List Nat :=
  if multiRelease then
    names.zipIdx.filterMap fun (name, position) => replacement? names target name position
  else List.range names.length

end ClassFormat.Loading
