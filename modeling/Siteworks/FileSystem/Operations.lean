import Siteworks.FileSystem.Resolve

/-!
# Reading and changing files

Operations on what a path leads to. One that fails leaves the file system as it was, but for
`createDirectories`, which may have made some of the directories before it fails.
-/

namespace Siteworks.FileSystem

/-- What the file at the end of a path holds. -/
def read (fs : FileSystem) (path : Path) : Except IoFault Content :=
  match fs.locate path with
  | .error fault => .error fault
  | .ok place =>
    match fs.get? place with
    | some (.file content) => .ok content
    | some .directory => .error .isDirectory
    | _ => .error .notFound

/-- The text that the file at the end of a path holds. -/
def readText (fs : FileSystem) (path : Path) : Except IoFault String :=
  match fs.read path with
  | .error fault => .error fault
  | .ok content =>
    match content.data.text? with
    | some text => .ok text
    | none => .error .notText

/-- Give the file at the end of a path a content; it is made if its name is free. -/
def write (fs : FileSystem) (path : Path) (content : Content) : Except IoFault FileSystem :=
  match fs.reach path with
  | .found place =>
    if fs.get? place = some .directory then .error .isDirectory
    else .ok (fs.put place (.file content))
  | .free parent name slashed =>
    if slashed then .error .isDirectory else .ok (fs.put (parent ++ [name]) (.file content))
  | .blocked fault => .error fault
  | .linked _ _ _ => .error .tooManyLinks

/-- Make the directory that a path names in an existing one. -/
def makeDirectory (fs : FileSystem) (path : Path) : Except IoFault FileSystem :=
  let segments := (path.segments.reverse.dropWhile (· = "")).reverse
  match segments.getLast? with
  | none => .error (if path.isAbsolute then .alreadyExists else .notFound)
  | some name =>
    match fs.directoryOf path segments.dropLast with
    | .error fault => .error fault
    | .ok parent =>
      if name = "." ∨ name = ".." then .error .alreadyExists
      else if (fs.get? (parent ++ [name])).isSome then .error .alreadyExists
      else .ok (fs.put (parent ++ [name]) .directory)

/-- Make the directory that a path names in an existing one, unless it is there. -/
def ensureDirectory (fs : FileSystem) (path : Path) : Except IoFault Unit × FileSystem :=
  match fs.makeDirectory path with
  | .ok fs => (.ok (), fs)
  | .error fault => (if fs.isDirectory path then .ok () else .error fault, fs)

/-- Make a directory and the missing ones on the way to it, in a number of steps upwards. -/
def createWithin : Nat → FileSystem → Path → Except IoFault Unit × FileSystem
  | 0, fs, _ => (.error .nameTooLong, fs)
  | steps + 1, fs, path =>
    if path.isEmpty then (.ok (), fs)
    else match fs.makeDirectory path, path.parent? with
      | .error .notFound, some parent =>
        match createWithin steps fs parent with
        | (.error fault, fs) => (.error fault, fs)
        | (.ok _, fs) => fs.ensureDirectory path
      | _, _ => fs.ensureDirectory path

/-- Make a directory and the missing ones on the way to it; an existing one is left alone. -/
def createDirectories (fs : FileSystem) (path : Path) : Except IoFault Unit × FileSystem :=
  createWithin (path.segments.length + 1) fs path

/-- The two paths lead to one place. -/
def sameFile (fs : FileSystem) (path other : Path) : Bool :=
  match fs.locate path, fs.locate other with
  | .ok place, .ok place' => place = place'
  | _, _ => false

/-- Copy the file at the end of a path. The target is emptied first, so that a file copied onto
itself loses its content. -/
def copyFile (fs : FileSystem) (source target : Path) : Except IoFault FileSystem :=
  match fs.read source with
  | .error fault => .error fault
  | .ok content => fs.write target (if fs.sameFile source target then .empty else content)

end Siteworks.FileSystem
