import Siteworks.Archive.Zip
import Siteworks.FileSystem.Path
import Std.Data.ExtTreeMap

/-!
# File systems

A file system is a finite map from places to what is there: directories, files and symbolic links.
A place is the list of names that leads to it from the root. The root is a directory, and so are the
one from which relative paths start and everything that contains something. Two file systems are
equal if they agree at every place.

Not kept are permission bits, hard links, times, the lengths that the machine allows for names and
paths, and the room that is left. So what can be read can be written, a change at one place shows at
no other one, a name is refused for its form only, and a copied file is its content. What is said of
copies, of reruns and of what a run can reach is said of such file systems.
-/

namespace Siteworks

/-- The names that lead from the root to something. -/
abbrev Place := List String

/-- What a file holds; an archive is kept as the list of its entries. -/
inductive Content where
  | plain (data : Data)
  | archive (archive : Archive)
  deriving DecidableEq, Repr

namespace Content

/-- The content of a text file. -/
def ofText (text : String) : Content := .plain (.ofText text)

/-- No content. -/
def empty : Content := .plain .empty

/-- What a file with the content holds. -/
def data : Content → Data
  | .plain data => data
  | .archive packed => ⟨packed.bytes⟩

end Content

/-- What is at a place. -/
inductive Node where
  | directory
  | file (content : Content)
  /-- A symbolic link to a path seen from the directory that holds it. -/
  | link (target : Path)
  deriving DecidableEq, Repr

/-- The text can name something in a directory. -/
def IsName (name : String) : Prop := name ≠ "" ∧ name ≠ "." ∧ name ≠ ".."

instance (name : String) : Decidable (IsName name) := inferInstanceAs (Decidable (_ ∧ _ ∧ _))

/-- A file system and the directory from which relative paths start. -/
structure FileSystem where
  /-- What is where. -/
  nodes : Std.ExtTreeMap Place Node
  /-- Where relative paths start. -/
  workingDirectory : Place
  /-- The root is a directory. -/
  root : nodes[([] : Place)]? = some .directory
  /-- What contains something is a directory. -/
  closed : ∀ (parent : Place) (name : String),
    (nodes[parent ++ [name]]?).isSome → nodes[parent]? = some .directory
  /-- What is in a directory has a name. -/
  named : ∀ (parent : Place) (name : String), (nodes[parent ++ [name]]?).isSome → IsName name
  /-- Relative paths start at a directory. -/
  home : nodes[workingDirectory]? = some .directory

namespace FileSystem

/-- What is at a place. -/
def get? (fs : FileSystem) (place : Place) : Option Node := fs.nodes[place]?

/-- There is nothing but the root. -/
def empty : FileSystem where
  nodes := (∅ : Std.ExtTreeMap Place Node).insert [] .directory
  workingDirectory := []
  root := by simp
  closed := by
    intro parent name h
    rw [Std.ExtTreeMap.getElem?_insert] at h
    simp at h
  named := by
    intro parent name h
    rw [Std.ExtTreeMap.getElem?_insert] at h
    simp at h
  home := by simp

/-- An empty file system has nothing below the root. -/
theorem get?_empty (place : Place) :
    empty.get? place = if [] = place then some .directory else none := by
  simp [get?, empty, Std.ExtTreeMap.getElem?_insert]

/-- File systems that agree at every place and start relative paths at one place are equal. -/
theorem ext_get? {a b : FileSystem} (working : a.workingDirectory = b.workingDirectory)
    (agree : ∀ place, a.get? place = b.get? place) : a = b := by
  obtain ⟨nodes, start, _, _, _, _⟩ := a
  obtain ⟨nodes', start', _, _, _, _⟩ := b
  obtain rfl : start = start' := working
  obtain rfl : nodes = nodes' := Std.ExtTreeMap.ext_getElem? agree
  rfl

/-- Something can be put at a place: it would have a name in a directory, and it would not replace
a directory. -/
def Admits (fs : FileSystem) (place : Place) : Prop :=
  (∃ name ∈ place.getLast?, IsName name) ∧
    fs.get? place.dropLast = some .directory ∧ fs.get? place ≠ some .directory

instance (fs : FileSystem) (place : Place) : Decidable (fs.Admits place) :=
  inferInstanceAs (Decidable (_ ∧ _ ∧ _))

private theorem get?_insert (nodes : Std.ExtTreeMap Place Node) (place other : Place)
    (node : Node) :
    (nodes.insert place node)[other]? = if place = other then some node else nodes[other]? := by
  simp [Std.ExtTreeMap.getElem?_insert]

/-- Put something at a place that admits it; otherwise nothing changes. -/
def put (fs : FileSystem) (place : Place) (node : Node) : FileSystem :=
  if h : fs.Admits place then
    { fs with
      nodes := fs.nodes.insert place node
      root := by
        rw [get?_insert, if_neg]
        · exact fs.root
        · rintro rfl
          exact absurd h.1 nofun
      closed := by
        intro parent name held
        rw [get?_insert] at held ⊢
        have contained : fs.nodes[parent]? = some .directory := by
          split at held
          · next eq => subst eq; simpa [get?] using h.2.1
          · exact fs.closed parent name held
        split
        · next eq => subst eq; exact absurd contained h.2.2
        · exact contained
      named := by
        intro parent name held
        rw [get?_insert] at held
        split at held
        · next eq =>
          obtain ⟨last, found, fits⟩ := h.1
          rw [eq, List.getLast?_concat] at found
          exact Option.some.inj found ▸ fits
        · exact fs.named parent name held
      home := by
        rw [get?_insert]
        split
        · next eq => exact absurd (eq ▸ fs.home) h.2.2
        · exact fs.home }
  else fs

/-- What is where after something was put at a place that admits it. -/
theorem get?_put {fs : FileSystem} {place : Place} (admits : fs.Admits place) (node : Node)
    (other : Place) :
    (fs.put place node).get? other = if place = other then some node else fs.get? other := by
  rw [put, dif_pos admits]
  exact get?_insert _ _ _ _

/-- Putting something does not move the start of relative paths. -/
@[simp]
theorem workingDirectory_put (fs : FileSystem) (place : Place) (node : Node) :
    (fs.put place node).workingDirectory = fs.workingDirectory := by
  unfold put
  split <;> rfl

/-- Take away what is at a place and below it, unless relative paths start there. -/
def remove (fs : FileSystem) (place : Place) : FileSystem :=
  if h : place <+: fs.workingDirectory then fs
  else
    { fs with
      nodes := fs.nodes.filter fun other _ => decide (¬ place <+: other)
      root := by
        rw [Std.ExtTreeMap.getElem?_filter', fs.root]
        cases place <;> simp_all
      closed := by
        intro parent name held
        rw [Std.ExtTreeMap.getElem?_filter'] at held ⊢
        cases found : fs.nodes[parent ++ [name]]? with
        | none => simp [found] at held
        | some node =>
          have kept : ¬ place <+: parent ++ [name] := by simpa [found] using held
          have kept' : ¬ place <+: parent := fun pre => kept (pre.trans (List.prefix_append _ _))
          rw [fs.closed parent name (by simp [found])]
          simpa using kept'
      named := by
        intro parent name held
        rw [Std.ExtTreeMap.getElem?_filter'] at held
        cases found : fs.nodes[parent ++ [name]]? with
        | none => simp [found] at held
        | some node => exact fs.named parent name (by simp [found])
      home := by
        rw [Std.ExtTreeMap.getElem?_filter', fs.home]
        simpa using h }

/-- What is where after a place was taken away. -/
theorem get?_remove (fs : FileSystem) {place : Place} (away : ¬ place <+: fs.workingDirectory)
    (other : Place) :
    (fs.remove place).get? other = if place <+: other then none else fs.get? other := by
  simp only [remove, dif_neg away, get?, Std.ExtTreeMap.getElem?_filter']
  by_cases inside : place <+: other
  · simp [inside]
  · cases fs.nodes[other]? <;> simp [inside]

/-- Make the directories on the way to a place, unless something else is there. -/
def makeWay (fs : FileSystem) (place : Place) : FileSystem :=
  ((List.range place.length).map fun n => place.take (n + 1)).foldl
    (fun fs parent => fs.put parent .directory) fs

/-- Start relative paths at a place, which is made if it is missing. -/
def enter (fs : FileSystem) (place : Place) : FileSystem :=
  if h : (fs.makeWay place).get? place = some .directory then
    { fs.makeWay place with workingDirectory := place, home := h }
  else fs

/-- The names in a directory, in order, with what they name. -/
def children (fs : FileSystem) (place : Place) : List (String × Node) :=
  fs.nodes.toList.filterMap fun (other, node) =>
    match other.getLast? with
    | some name => if other.dropLast = place then some (name, node) else none
    | none => none

/-- What is at a place and below it, in the order of the names that lead there. -/
def below (fs : FileSystem) (place : Place) : List (Place × Node) :=
  fs.nodes.toList.filterMap fun (other, node) =>
    (place.isPrefixOf? other).map fun names => (names, node)

/-- The places that differ between two file systems, with what is there afterwards. -/
def changes (before after : FileSystem) : List (Place × Option Node) :=
  ((after.nodes.toList.filter fun (place, node) => before.get? place ≠ some node).map
      fun (place, node) => (place, some node))
    ++ ((before.nodes.toList.filter fun (place, _) => (after.get? place).isNone).map
      fun (place, _) => (place, none))

end FileSystem

end Siteworks
