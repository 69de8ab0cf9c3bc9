import Siteworks.Scaffold

/-!
# Packing a tree

Every file below a directory becomes an entry, in the order of the names that lead to it, except for
what scaffolds leave behind. The archive is made before the tree is listed; if there is no tree to
list, it stays without entries.
-/

namespace Siteworks.Archive

/-- The entry for a file below the root of a tree. -/
def entryOf (names : Place) (content : Content) : ArchiveEntry :=
  ⟨"/".intercalate names, content.data⟩

/-- The files on a list and those that a walk finds in what it contains, in a number of steps; the
root of the walk is at a place. Each directory is listed when the walk reaches it, without what is
left behind. -/
def walk (fs : FileSystem) (root : Place) : Nat → List (Place × Node) → List (Place × Content)
  | _, [] => []
  | 0, _ :: _ => []
  | steps + 1, (names, node) :: rest =>
    match node with
    | .directory => walk fs root steps (Scaffold.entriesIn fs root names ++ rest)
    | .file content => (names, content) :: walk fs root steps rest
    | .link _ => walk fs root steps rest

/-- The entries for a tree; a link to a file is no tree. A walk takes at most one step for
everything in the file system. -/
def entriesOf (fs : FileSystem) (source : Path) (root : Place) : List ArchiveEntry :=
  match fs.get? root with
  | none => []
  | some node =>
    if fs.isLink source && node ≠ .directory then []
    else (walk fs root fs.nodes.size [([], node)]).map fun file => entryOf file.1 file.2

/-- Pack the tree at a path into an archive; answers the number of entries. -/
def packTree (fs : FileSystem) (source archive : Path) :
    Except GenerationError Nat × FileSystem :=
  let store (fs : FileSystem) (entries : List ArchiveEntry) (answer : Except GenerationError Nat) :
      Except GenerationError Nat × FileSystem :=
    match fs.write archive (.archive ⟨entries⟩) with
    | .error fault => (.error (.io archive fault), fs)
    | .ok fs => (answer, fs)
  match fs.write archive .empty with
  | .error fault => (.error (.io archive fault), fs)
  | .ok fs =>
    match fs.locate source with
    | .error fault => store fs [] (.error (.io source fault))
    | .ok root =>
      let entries := entriesOf fs source root
      store fs entries (.ok entries.length)

end Siteworks.Archive
