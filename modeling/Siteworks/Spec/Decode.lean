import Siteworks.Spec.Basic

/-!
# Reading a document as a spec

The direct reading: every required field is there with the right type, an optional field may be
missing or null, sections may be missing, and members that a spec has no use for are ignored. A
record may also be written as the array of its fields in declared order, the last ones of which
may be missing. The reading checks types only; the rules of `Siteworks.Spec.Violation` are not its
concern.
-/

namespace Siteworks

namespace Json

/-- The fields of a record: the members of an object, or the items of an array that is no longer
than the list of field names. -/
def fields? (names : List String) : Json → Option (List (String × Json))
  | .object members => some members
  | .array items => if items.length ≤ names.length then some (names.zip items) else none
  | _ => none

/-- A required string member. -/
def requiredText? (key : String) (members : List (String × Json)) : Option String :=
  (lookup key members).bind text?

/-- An optional member read by `read`: absent or null is no value, and an ill-typed one is
refused. -/
def optional? {α : Type} (read : Json → Option α) (key : String) (members : List (String × Json)) :
    Option (Option α) :=
  match lookup key members with
  | none | some .null => some none
  | some value => (read value).map some

end Json

/-- The architecture that a document names, as a string or as the only member of an object. -/
def Architecture.ofJson? : Json → Option Architecture
  | .string text => ofName? text
  | .object [(name, .null)] => ofName? name
  | _ => none

/-- Read a project. -/
def Project.ofJson? (value : Json) : Option Project := do
  let members ← value.fields? ["name", "slug"]
  let name ← Json.requiredText? "name" members
  let slug ← Json.optional? Json.text? "slug" members
  return ⟨name, slug⟩

/-- Read a theme. -/
def Theme.ofJson? (value : Json) : Option Theme := do
  let members ← value.fields? ["primaryColor", "font"]
  let primaryColor ← Json.optional? Json.text? "primaryColor" members
  let font ← Json.optional? Json.text? "font" members
  return ⟨primaryColor, font⟩

/-- Read a section. -/
def Section.ofJson? (value : Json) : Option Section := do
  let members ← value.fields? ["id", "kind", "variant", "content"]
  let id ← Json.requiredText? "id" members
  let kind ← Json.requiredText? "kind" members
  let variant ← Json.optional? Json.text? "variant" members
  let content ← Json.optional? Json.members? "content" members
  return ⟨id, kind, variant, content⟩

/-- Read the sections of a page; they may be missing, but not null. -/
def Page.sectionsOfJson? : Option Json → Option (List Section)
  | none => some []
  | some value => value.items?.bind fun items => items.mapM Section.ofJson?

/-- Read a page. -/
def Page.ofJson? (value : Json) : Option Page := do
  let members ← value.fields? ["id", "name", "route", "sections"]
  let id ← Json.requiredText? "id" members
  let name ← Json.requiredText? "name" members
  let route ← Json.requiredText? "route" members
  let sections ← Page.sectionsOfJson? (Json.lookup "sections" members)
  return ⟨id, name, route, sections⟩

/-- Read a spec. -/
def Spec.ofJson? (value : Json) : Option Spec := do
  let members ← value.fields? ["project", "architecture", "theme", "pages"]
  let project ← (Json.lookup "project" members).bind Project.ofJson?
  let architecture ← Json.optional? Architecture.ofJson? "architecture" members
  let theme ← Json.optional? Theme.ofJson? "theme" members
  let items ← (Json.lookup "pages" members).bind Json.items?
  let pages ← items.mapM Page.ofJson?
  return ⟨project, architecture, theme, pages⟩

end Siteworks
