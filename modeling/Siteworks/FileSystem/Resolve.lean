import Siteworks.Error
import Siteworks.FileSystem.Basic

/-!
# Where a path leads

Following a path segment by segment ends at something, or at a free name in a directory, or
nowhere. Symbolic links are followed, at most forty on one way. Only directories can be passed
through: a path with a segment behind the name of a file leads nowhere, even if that segment is
empty.
-/

namespace Siteworks.FileSystem

/-- How far the segments of a path lead without following a link. -/
inductive Reach where
  /-- There is something at the end. -/
  | found (place : Place)
  /-- The last name is free in a directory; `slashed` says that slashes follow it. -/
  | free (parent : Place) (name : String) (slashed : Bool)
  /-- The way is blocked. -/
  | blocked (fault : IoFault)
  /-- A link in a directory stands before the rest of the way. -/
  | linked (parent : Place) (target : Path) (rest : List String)

/-- Follow segments from a directory up to the first link. -/
def follow (fs : FileSystem) (place : Place) : List String → Reach
  | [] => .found place
  | segment :: rest =>
    if segment = "" ∨ segment = "." then follow fs place rest
    else if segment = ".." then follow fs place.dropLast rest
    else match fs.get? (place ++ [segment]) with
      | none =>
        if rest.all (· = "") then .free place segment (!rest.isEmpty) else .blocked .notFound
      | some .directory => follow fs (place ++ [segment]) rest
      | some (.file _) =>
        if rest.isEmpty then .found (place ++ [segment]) else .blocked .notDirectory
      | some (.link target) => .linked place target rest

/-- Follow segments from a directory, and a number of links on the way. -/
def followLinks (fs : FileSystem) : Nat → Place → List String → Reach
  | 0, place, segments =>
    match follow fs place segments with
    | .linked _ _ _ => .blocked .tooManyLinks
    | reach => reach
  | links + 1, place, segments =>
    match follow fs place segments with
    | .linked parent target rest =>
      followLinks fs links (if target.isAbsolute then [] else parent) (target.segments ++ rest)
    | reach => reach

/-- The number of links that are followed on one way. -/
def maxLinks : Nat := 40

/-- Where a path starts. -/
def start (fs : FileSystem) (path : Path) : Place :=
  if path.isAbsolute then [] else fs.workingDirectory

/-- Where a path leads; the empty path leads nowhere. -/
def reach (fs : FileSystem) (path : Path) : Reach :=
  if path.isEmpty then .blocked .notFound
  else followLinks fs maxLinks (fs.start path) path.segments

/-- The place to which a path leads. -/
def locate (fs : FileSystem) (path : Path) : Except IoFault Place :=
  match fs.reach path with
  | .found place => .ok place
  | .free _ _ _ => .error .notFound
  | .blocked fault => .error fault
  | .linked _ _ _ => .error .tooManyLinks

/-- What a path leads to. -/
def nodeAt? (fs : FileSystem) (path : Path) : Option Node :=
  match fs.locate path with
  | .ok place => fs.get? place
  | .error _ => none

/-- The path leads to a directory. -/
def isDirectory (fs : FileSystem) (path : Path) : Bool := fs.nodeAt? path = some .directory

/-- The path leads to a file. -/
def isFile (fs : FileSystem) (path : Path) : Bool :=
  match fs.nodeAt? path with
  | some (.file _) => true
  | _ => false

/-- The directory that the segments of a path lead to from where the path starts. -/
def directoryOf (fs : FileSystem) (path : Path) (segments : List String) : Except IoFault Place :=
  match followLinks fs maxLinks (fs.start path) segments with
  | .found place => if fs.get? place = some .directory then .ok place else .error .notDirectory
  | .free _ _ _ => .error .notFound
  | .blocked fault => .error fault
  | .linked _ _ _ => .error .tooManyLinks

/-- The place that a path names, without following a link at that place. The last segment must be
the name of something in a directory, whether or not it is there. -/
def placeOf (fs : FileSystem) (path : Path) : Except IoFault Place :=
  match path.segments.getLast? with
  | none => .error .notFound
  | some name =>
    if name = "" ∨ name = "." ∨ name = ".." then .error .notFound
    else match fs.directoryOf path path.segments.dropLast with
      | .error fault => .error fault
      | .ok parent => .ok (parent ++ [name])

/-- The path names a link. -/
def isLink (fs : FileSystem) (path : Path) : Bool :=
  match fs.placeOf path with
  | .error _ => false
  | .ok place =>
    match fs.get? place with
    | some (.link _) => true
    | _ => false

end Siteworks.FileSystem
