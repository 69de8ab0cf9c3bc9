import Siteworks.FileSystem.Operations

/-!
# Copying a scaffold

A scaffold is copied directory by directory. Version control, build caches, installed dependencies
and the dependency lock file are left behind at any depth, and so are symbolic links; what is in the
target already stays unless a file of the scaffold replaces it.

The entries of a directory are listed when the copy reaches the directory, so that a target inside
the source meets what has been copied before.
-/

namespace Siteworks.Scaffold

/-- Names that are neither copied nor packed. -/
def excludedNames : List String := [".git", ".next", ".turbo", "node_modules", "package-lock.json"]

/-- Something below a root that is neither copied nor packed. -/
def isExcluded (names : Place) : Bool := names.any fun name => excludedNames.contains name

/-- What a directory below a root holds that is to be copied, by the names that lead there. -/
def entriesIn (fs : FileSystem) (root names : Place) : List (Place × Node) :=
  ((fs.children (root ++ names)).filter fun (name, _) => !excludedNames.contains name).map
    fun (name, node) => (names ++ [name], node)

/-- Copy one file, and answer with the changed file system. -/
def copyEntry (fs : FileSystem) (source target : Path) : Except GenerationError Unit × FileSystem :=
  let copy (fs : FileSystem) : Except GenerationError Unit × FileSystem :=
    match fs.copyFile source target with
    | .error fault => (.error (.io source fault), fs)
    | .ok fs => (.ok (), fs)
  match target.parent? with
  | none => copy fs
  | some parent =>
    match fs.createDirectories parent with
    | (.error fault, fs) => (.error (.io parent fault), fs)
    | (.ok _, fs) => copy fs

/-- Copy the entries on a list and what they contain, in a number of steps; answers the number of
files copied. The root of the source is at a place. -/
def copyEntries (root : Place) (source target : Path) :
    Nat → FileSystem → List (Place × Node) → Nat → Except GenerationError Nat × FileSystem
  | _, fs, [], count => (.ok count, fs)
  | 0, fs, _ :: _, _ => (.error (.io source .nameTooLong), fs)
  | steps + 1, fs, (names, node) :: rest, count =>
    match node with
    | .directory =>
      let inside := entriesIn fs root names
      match fs.createDirectories (target.join (.ofNames names)) with
      | (.error fault, fs) => (.error (.io (target.join (.ofNames names)) fault), fs)
      | (.ok _, fs) => copyEntries root source target steps fs (inside ++ rest) count
    | .file _ =>
      match copyEntry fs (source.join (.ofNames names)) (target.join (.ofNames names)) with
      | (.error e, fs) => (.error e, fs)
      | (.ok _, fs) => copyEntries root source target steps fs rest (count + 1)
    | .link _ => copyEntries root source target steps fs rest count

/-- Copy what is below a directory to another one, which is made if it is missing; answers the
number of files copied. Apart from copies into themselves, a copy takes at most one step for
everything in the file system. -/
def copyTree (fs : FileSystem) (source target : Path) : Except GenerationError Nat × FileSystem :=
  match fs.locate source with
  | .error _ => (.error (.io source .scaffoldMissing), fs)
  | .ok root =>
    if fs.get? root = some .directory then
      let entries := if fs.isLink source then entriesIn fs root [] else [([], .directory)]
      let steps := (fs.nodes.size + 2) * (fs.nodes.size + 2)
      copyEntries root source target steps fs entries 0
    else (.error (.io source .scaffoldMissing), fs)

end Siteworks.Scaffold
