import Siteworks.Data.Basic

/-!
# Archives

An archive is a list of named files. It carries no times of its own, so that equal lists make equal
archives.
-/

namespace Siteworks

/-- A file in an archive. -/
structure ArchiveEntry where
  /-- The path of the file below the archive's root, its names joined by slashes. -/
  name : String
  /-- What the file holds. -/
  data : Data
  deriving DecidableEq, Repr

/-- Files in the order in which they are stored. -/
structure Archive where
  /-- The files. -/
  entries : List ArchiveEntry
  deriving DecidableEq, Repr

namespace ArchiveEntry

/-- How the bytes of an entry are stored. -/
def method : String := "Deflated"

/-- The kind and the permissions of an entry: a file that its owner may write and all may read. -/
def mode : Nat := 0o100644

/-- The time at which every entry was changed, for all an archive tells: the first it can tell. -/
def modified : String := "1980-01-01 00:00:00"

end ArchiveEntry

end Siteworks
