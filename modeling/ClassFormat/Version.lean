/-
# ClassFormat.Version: class file versions

A version is a major and a minor number, ordered by the major first.  The file stores the minor
number first.
-/
import ClassFormat.Reader

namespace ClassFormat

structure Version where
  major : UInt16
  minor : UInt16
  deriving DecidableEq

namespace Version

/-- The version of release 8 of the platform. -/
def java8 : Version := ⟨52, 0⟩

/-- The version of release 17 of the platform. -/
def java17 : Version := ⟨61, 0⟩

def reader : Reader Version := do
  let minor ← Reader.u16
  let major ← Reader.u16
  return ⟨major, minor⟩

/-- By major number, then by minor number. -/
instance : Ord Version where
  compare version other :=
    (compare version.major other.major).then (compare version.minor other.minor)

/-- The platform release that introduced the version; there is none before release 2. -/
def release? (version : Version) : Option Nat :=
  if 46 ≤ version.major.toNat then some (version.major.toNat - 44) else none

/-- The major and the minor number with a point between them. -/
def render (version : Version) : String := s!"{version.major}.{version.minor}"

end Version

end ClassFormat
