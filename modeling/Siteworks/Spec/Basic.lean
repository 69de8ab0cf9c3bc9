import Siteworks.Json.Value

/-!
# Site specs

What a site is made from: a project, optionally an architecture and a theme, and pages of
sections. An absent content and an empty one are different. `toJson` writes a spec as a document,
its fields in declared order and absent ones left out.
-/

namespace Siteworks

/-- The kind of site, which decides the scaffold it starts from. -/
inductive Architecture where
  | landing
  | ecommerce
  | marketplace
  deriving DecidableEq, Repr

namespace Architecture

/-- Every architecture. -/
def all : List Architecture := [.landing, .ecommerce, .marketplace]

/-- The name of an architecture in documents. -/
def name : Architecture → String
  | .landing => "landing"
  | .ecommerce => "ecommerce"
  | .marketplace => "marketplace"

/-- The architecture of a name. -/
def ofName? (text : String) : Option Architecture := all.find? fun a => a.name = text

/-- The directory below the scaffold root that holds the architecture's scaffold. -/
def folder : Architecture → String
  | .landing => "landing"
  | .ecommerce => "ecommerce"
  | .marketplace => "marketplace"

end Architecture

/-- The project that a site belongs to. -/
structure Project where
  /-- The name that people see. -/
  name : String
  /-- The name in web addresses, if it does not follow from the other. -/
  slug : Option String
  deriving DecidableEq, Repr

/-- How a site looks. -/
structure Theme where
  /-- The main colour, in hexadecimal notation. -/
  primaryColor : Option String
  /-- The name of the font. -/
  font : Option String
  deriving DecidableEq, Repr

/-- A part of a page. -/
structure Section where
  /-- The identifier, unique in its page. -/
  id : String
  /-- What the section is for. -/
  kind : String
  /-- Which of the kind's designs is used. -/
  variant : Option String
  /-- What the section shows, in the author's order. -/
  content : Option (List (String × Json))
  deriving DecidableEq

namespace Section

/-- The variant that is meant where none is given. -/
def defaultVariant : String := "default"

/-- The variant of a section; an empty one counts as none. -/
def variantOrDefault (part : Section) : String :=
  match part.variant with
  | some variant => if variant = "" then defaultVariant else variant
  | none => defaultVariant

end Section

/-- A page of a site. -/
structure Page where
  /-- The identifier, unique in the spec. -/
  id : String
  /-- The name that people see. -/
  name : String
  /-- The address of the page. -/
  route : String
  /-- The parts of the page from top to bottom. -/
  sections : List Section
  deriving DecidableEq

/-- A site to generate. -/
structure Spec where
  /-- The project that the site belongs to. -/
  project : Project
  /-- The kind of site. -/
  architecture : Option Architecture
  /-- How the site looks. -/
  theme : Option Theme
  /-- The pages of the site. -/
  pages : List Page
  deriving DecidableEq

/-- A member with a string value, if there is one. -/
def Json.textMember (key : String) (value : Option String) : List (String × Json) :=
  match value with
  | some text => [(key, .string text)]
  | none => []

/-- The members of a project's document. -/
def Project.members (project : Project) : List (String × Json) :=
  ("name", .string project.name) :: Json.textMember "slug" project.slug

/-- The document of a project. -/
def Project.toJson (project : Project) : Json := .object project.members

/-- The members of a theme's document. -/
def Theme.members (theme : Theme) : List (String × Json) :=
  Json.textMember "primaryColor" theme.primaryColor ++ Json.textMember "font" theme.font

/-- The document of a theme. -/
def Theme.toJson (theme : Theme) : Json := .object theme.members

/-- The members of a section's document. -/
def Section.members (part : Section) : List (String × Json) :=
  [("id", .string part.id), ("kind", .string part.kind)]
    ++ Json.textMember "variant" part.variant
    ++ (match part.content with
      | some content => [("content", .object content)]
      | none => [])

/-- The document of a section. -/
def Section.toJson (part : Section) : Json := .object part.members

/-- The members of a page's document. -/
def Page.members (page : Page) : List (String × Json) :=
  [("id", .string page.id), ("name", .string page.name), ("route", .string page.route),
    ("sections", .array (page.sections.map Section.toJson))]

/-- The document of a page. -/
def Page.toJson (page : Page) : Json := .object page.members

/-- The members of a spec's document. -/
def Spec.members (spec : Spec) : List (String × Json) :=
  [("project", spec.project.toJson)]
    ++ Json.textMember "architecture" (spec.architecture.map Architecture.name)
    ++ (match spec.theme with
      | some theme => [("theme", theme.toJson)]
      | none => [])
    ++ [("pages", .array (spec.pages.map Page.toJson))]

/-- The document of a spec. -/
def Spec.toJson (spec : Spec) : Json := .object spec.members

end Siteworks
