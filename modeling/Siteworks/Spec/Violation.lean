import Siteworks.Color.Hex
import Siteworks.Json.Printer
import Siteworks.Slug
import Siteworks.Spec.Basic

/-!
# Schema violations

What a document must be to describe a site. The check goes through the whole document and reports
every violation, in document order; a field of a missing or ill-typed container counts as one with
its container.
-/

namespace Siteworks

open Text (quoted allBlank)

/-- Where in a document a violation was found. -/
inductive Position where
  | project
  /-- The page at a position, counted from zero. -/
  | page (index : Nat)
  /-- The section at a position of a page, both counted from zero. -/
  | inPage (page index : Nat)
  deriving DecidableEq, Repr

/-- The text of a position. -/
def Position.text : Position → String
  | .project => "project"
  | .page index => "pages[" ++ toString index ++ "]"
  | .inPage pageIndex index =>
    "pages[" ++ toString pageIndex ++ "].sections[" ++ toString index ++ "]"

/-- A constraint that a document does not meet. -/
inductive Violation where
  | rootNotObject
  | projectMissing
  | projectNotObject
  /-- A required string is missing, ill-typed or blank. -/
  | textMissing (position : Position) (field : String)
  | slugNotUrlSafe (slug : String)
  | slugNotText
  | unknownArchitecture (value : Json)
  | themeNotObject
  | badColor (value : Json)
  | badFont
  | pagesMissing
  | pagesNotArray
  | pagesEmpty
  | notObject (position : Position)
  | duplicatePageId (index : Nat) (id : String)
  | sectionsMissing (index : Nat)
  | sectionsNotArray (index : Nat)
  | duplicateSectionId (page index : Nat) (id : String)
  | variantEmpty (page index : Nat)
  | variantNotText (page index : Nat)
  | contentNotObject (page index : Nat)
  deriving DecidableEq

/-- The line that a user reads about a violation. -/
def Violation.message : Violation → String
  | .rootNotObject => "spec: root must be an object"
  | .projectMissing => "project: missing"
  | .projectNotObject => "project: must be an object"
  | .textMissing position field =>
    position.text ++ ": missing non-empty string field " ++ quoted field
  | .slugNotUrlSafe slug => "project.slug: " ++ quoted slug ++ " is not URL-safe"
  | .slugNotText => "project.slug: must be a string"
  | .unknownArchitecture value => "architecture: " ++ value.render ++ " is not one of "
      ++ " | ".intercalate (Architecture.all.map Architecture.name)
  | .themeNotObject => "theme: must be an object"
  | .badColor value =>
    "theme.primaryColor: " ++ value.render ++ " is not a #rgb or #rrggbb color"
  | .badFont => "theme.font: must be a non-empty string"
  | .pagesMissing => "pages: missing"
  | .pagesNotArray => "pages: must be an array"
  | .pagesEmpty => "pages: must contain at least one page"
  | .notObject position => position.text ++ ": must be an object"
  | .duplicatePageId index id =>
    (Position.page index).text ++ ": duplicate page id " ++ quoted id
  | .sectionsMissing index => (Position.page index).text ++ ".sections: missing"
  | .sectionsNotArray index => (Position.page index).text ++ ".sections: must be an array"
  | .duplicateSectionId page index id =>
    (Position.inPage page index).text ++ ": duplicate section id " ++ quoted id
  | .variantEmpty page index => (Position.inPage page index).text ++ ".variant: must not be empty"
  | .variantNotText page index => (Position.inPage page index).text ++ ".variant: must be a string"
  | .contentNotObject page index =>
    (Position.inPage page index).text ++ ".content: must be an object"

/-- The text of a member, if it is a string that is not blank. -/
def Json.filledText? (key : String) (members : List (String × Json)) : Option String :=
  match lookup key members with
  | some (.string text) => if allBlank text.toList then none else some text
  | _ => none

namespace Violation

/-- A required string that is missing. -/
def ofRequired (position : Position) (field : String) (members : List (String × Json)) :
    List Violation :=
  match Json.filledText? field members with
  | some _ => []
  | none => [.textMissing position field]

/-- The violations of the project. -/
def ofProject (root : List (String × Json)) : List Violation :=
  match Json.lookup "project" root with
  | none => [.projectMissing]
  | some (.object project) =>
    ofRequired .project "name" project ++
      (match Json.lookup "slug" project with
      | none => []
      | some (.string slug) => if Slug.isUrlSafe slug then [] else [.slugNotUrlSafe slug]
      | some _ => [.slugNotText])
  | some _ => [.projectNotObject]

/-- The violations of the architecture. -/
def ofArchitecture (root : List (String × Json)) : List Violation :=
  match Json.lookup "architecture" root with
  | none => []
  | some value =>
    match value.text?.bind Architecture.ofName? with
    | some _ => []
    | none => [.unknownArchitecture value]

/-- The violations of a colour. -/
def ofColor (theme : List (String × Json)) : List Violation :=
  match Json.lookup "primaryColor" theme with
  | none => []
  | some value =>
    match value.text?.bind Rgb.ofHex? with
    | some _ => []
    | none => [.badColor value]

/-- The violations of a font. -/
def ofFont (theme : List (String × Json)) : List Violation :=
  match Json.lookup "font" theme with
  | none => []
  | some _ =>
    match Json.filledText? "font" theme with
    | some _ => []
    | none => [.badFont]

/-- The violations of the theme. -/
def ofTheme (root : List (String × Json)) : List Violation :=
  match Json.lookup "theme" root with
  | none => []
  | some (.object theme) => ofColor theme ++ ofFont theme
  | some _ => [.themeNotObject]

/-- The violations of a section's variant. -/
def ofVariant (page index : Nat) (members : List (String × Json)) : List Violation :=
  match Json.lookup "variant" members with
  | none => []
  | some (.string variant) => if allBlank variant.toList then [.variantEmpty page index] else []
  | some _ => [.variantNotText page index]

/-- The violations of a section's content. -/
def ofContent (page index : Nat) (members : List (String × Json)) : List Violation :=
  match Json.lookup "content" members with
  | none | some (.object _) => []
  | some _ => [.contentNotObject page index]

/-- The violations of a section whose earlier neighbours carry the identifiers `seen`. -/
def ofSectionMembers (page index : Nat) (seen : List String) (members : List (String × Json)) :
    List Violation :=
  (match Json.filledText? "id" members with
    | none => [.textMissing (.inPage page index) "id"]
    | some id => if id ∈ seen then [.duplicateSectionId page index id] else [])
    ++ ofRequired (.inPage page index) "kind" members
    ++ ofVariant page index members
    ++ ofContent page index members

/-- The identifier that an item of a list carries. -/
def itemId? (item : Json) : Option String := item.members?.bind (Json.filledText? "id")

/-- The violations of a page's sections from a position on. -/
def ofSections (page : Nat) (index : Nat) (seen : List String) : List Json → List Violation
  | [] => []
  | item :: rest =>
    (match item.members? with
      | none => [.notObject (.inPage page index)]
      | some members => ofSectionMembers page index seen members)
      ++ ofSections page (index + 1) (seen ++ (itemId? item).toList) rest

/-- The violations of a page whose earlier neighbours carry the identifiers `seen`. -/
def ofPageMembers (index : Nat) (seen : List String) (members : List (String × Json)) :
    List Violation :=
  (match Json.filledText? "id" members with
    | none => [.textMissing (.page index) "id"]
    | some id => if id ∈ seen then [.duplicatePageId index id] else [])
    ++ ofRequired (.page index) "name" members
    ++ ofRequired (.page index) "route" members
    ++ (match Json.lookup "sections" members with
      | none => [.sectionsMissing index]
      | some (.array sections) => ofSections index 0 [] sections
      | some _ => [.sectionsNotArray index])

/-- The violations of the pages from a position on. -/
def ofPages (index : Nat) (seen : List String) : List Json → List Violation
  | [] => []
  | item :: rest =>
    (match item.members? with
      | none => [.notObject (.page index)]
      | some members => ofPageMembers index seen members)
      ++ ofPages (index + 1) (seen ++ (itemId? item).toList) rest

/-- The violations of the list of pages. -/
def ofPageList (root : List (String × Json)) : List Violation :=
  match Json.lookup "pages" root with
  | none => [.pagesMissing]
  | some (.array []) => [.pagesEmpty]
  | some (.array pages) => ofPages 0 [] pages
  | some _ => [.pagesNotArray]

end Violation

/-- Every violation of a document, in document order. -/
def Spec.violations (document : Json) : List Violation :=
  match document.members? with
  | none => [.rootNotObject]
  | some root =>
    Violation.ofProject root ++ Violation.ofArchitecture root ++ Violation.ofTheme root
      ++ Violation.ofPageList root

/-- The document describes a site. -/
def Spec.isValid (document : Json) : Bool := (Spec.violations document).isEmpty

end Siteworks
