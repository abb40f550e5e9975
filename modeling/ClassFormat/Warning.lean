/-
# ClassFormat.Warning: what is reported without stopping

A warning says what was left out of an answer and why.
-/
import ClassFormat.Error

namespace ClassFormat

/-- Why a path or an archive could not be loaded. -/
inductive LoadError where
  /-- Its bytes could not be read. -/
  | unreadable
  /-- It is not an archive that can be opened. -/
  | badArchive
  deriving DecidableEq

def LoadError.message : LoadError → String
  | unreadable => "I/O error"
  | badArchive => "bad archive"

/-- What is reported without stopping. -/
inductive Warning where
  /-- The instructions behind this one were left out. -/
  | undecodable (cause : Error)
  /-- A class is among its own supertypes. -/
  | cyclicHierarchy (name : String)
  | pathNotLoaded (path : String) (cause : LoadError)
  | nestedArchiveNotLoaded (name : String) (cause : LoadError)
  | classNotLoaded (name : String) (cause : Error)
  | entryNotRead (entry archive : String)
  | fileNotRead (file : String)
  /-- A name in a directory leads nowhere. -/
  | entrySkipped (root : String)
  deriving DecidableEq

/-- The wording of a warning. -/
def Warning.message : Warning → String
  | undecodable cause => s!"Stopping instruction decoding: {cause.message}"
  | cyclicHierarchy name => s!"Class hierarchy of {name} is cyclic"
  | pathNotLoaded path cause => s!"Cannot load '{path}': {cause.message}"
  | nestedArchiveNotLoaded name cause => s!"Cannot load nested archive '{name}': {cause.message}"
  | classNotLoaded name cause => s!"Cannot load class from '{name}': {cause.message}"
  | entryNotRead entry archive => s!"Cannot read '{entry}' in '{archive}'"
  | fileNotRead file => s!"Cannot read '{file}'"
  | entrySkipped root => s!"Skipping unreadable entry under '{root}'"

end ClassFormat
