/-!
# Paths as they are written

A path is the list of its segments, the pieces of its text between slashes. Empty segments are
kept, so that the text can be written back as it was (`text_ofString`): a path that ends in a
slash has an empty last segment, and one that starts with a slash an empty first one.
-/

namespace Siteworks

/-- A written path. -/
structure Path where
  /-- The pieces between slashes. -/
  segments : List String
  deriving DecidableEq, Repr, Inhabited

namespace Path

/-- The path with the given text. -/
def ofString (text : String) : Path :=
  ⟨(text.toList.splitOn '/').map String.ofList⟩

/-- The text of a path. -/
def text (path : Path) : String := "/".intercalate path.segments

/-- A path is written back as it was read. -/
@[simp]
theorem text_ofString (text : String) : (ofString text).text = text := by
  apply String.toList_injective
  simp [Path.text, ofString, String.toList_intercalate, Function.comp_def,
    List.intercalate_splitOn]

/-- The relative path of a list of names; without names it is the empty path. -/
def ofNames (names : List String) : Path := ⟨if names.isEmpty then [""] else names⟩

/-- The path starts at the root. -/
def isAbsolute (path : Path) : Bool :=
  match path.segments with
  | "" :: _ :: _ => true
  | _ => false

/-- The path has an empty text. -/
def isEmpty (path : Path) : Bool := path.segments.all (· = "") && path.segments.length ≤ 1

/-- The segments that stay in front when a path is continued: all of them but an empty last one. -/
def stem (path : Path) : List String :=
  if path.segments.getLast? = some "" then path.segments.dropLast else path.segments

/-- The second path seen from the first: an absolute one stays as it is, and a slash is put between
the two unless one is there already or the first is empty. -/
def join (base child : Path) : Path :=
  if child.isAbsolute then child else ⟨base.stem ++ child.segments⟩

/-- Drop segments from the end that do not name anything; a leading dot is kept. -/
def dropSilent : List String → List String
  | [] => []
  | segment :: rest =>
    let rest := (rest.reverse.dropWhile fun s => s = "" || s = ".").reverse
    if rest.isEmpty && segment = "" then [] else segment :: rest

/-- The path without its last name, if it has one. -/
def parent? (path : Path) : Option Path :=
  match dropSilent path.segments with
  | [] => none
  | segments =>
    let front := dropSilent segments.dropLast
    if path.isAbsolute && front.isEmpty then some ⟨["", ""]⟩
    else if front.isEmpty then some ⟨[""]⟩
    else some ⟨front⟩

end Path

end Siteworks
