import Siteworks.Component
import Siteworks.FileSystem.Operations
import Siteworks.Page.Attributes
import Siteworks.Text.Replace

/-!
# Page sources

The source of a site's page: the imports of the components that its sections use, in the order of
their identifiers, and a tag for each section, in the order of the spec. They are put into a template
with a placeholder for each of the two. Only the first page of a spec is written. Each component must
have its source file in the tree that the page is written to.
-/

namespace Siteworks

namespace Component

/-- The line that imports a component. -/
def importLine (component : Component) : String :=
  (match component.exported with
    | .default => "import " ++ component.ident
    | .named => "import \x7b " ++ component.ident ++ " \x7d")
    ++ " from \"" ++ importDirectory ++ "/" ++ component.module ++ "\";"

/-- Where the source file of a component is, below a project root. -/
def sourceFile (root : Path) (component : Component) : Path :=
  (root.join (.ofString directory)).join ⟨[component.module ++ ".tsx"]⟩

/-- Add a component to a list without repetitions in the order of identifiers. -/
def insertByIdent (component : Component) : List Component → List Component
  | [] => [component]
  | first :: rest =>
    if component.ident < first.ident then component :: first :: rest
    else if component.ident = first.ident then component :: rest
    else first :: insertByIdent component rest

/-- The components of a list without repetitions, in the order of identifiers. -/
def distinct (components : List Component) : List Component :=
  components.foldl (fun sorted component => insertByIdent component sorted) []

/-- The component of each section, or the complaint about the first section without one. -/
def ofSections : List Section → Except GenerationError (List Component)
  | [] => .ok []
  | part :: rest =>
    match find? part.kind part.variantOrDefault with
    | none => .error (.unknownComponent part.kind part.variantOrDefault pairs)
    | some component =>
      match ofSections rest with
      | .error e => .error e
      | .ok components => .ok (component :: components)

end Component

namespace Page

/-- Where the source of a site's page is, below the site's root. -/
def file : Path := ⟨["app", "page.tsx"]⟩

/-- The attributes of a section; without content there are none. -/
def attributesOf (part : Section) : Except GenerationError String :=
  match part.content with
  | some content => renderAttributes part.id content
  | none => .ok ""

/-- The line with a section's tag. -/
def tagLine (component : Component) (attributes : String) : String :=
  if attributes = "" then "      <" ++ component.ident ++ " />"
  else "      <" ++ component.ident ++ " " ++ attributes ++ " />"

/-- The lines with the tags of sections, each with its component. -/
def tagLines : List (Section × Component) → Except GenerationError (List String)
  | [] => .ok []
  | (part, component) :: rest =>
    match attributesOf part with
    | .error e => .error e
    | .ok attributes =>
      match tagLines rest with
      | .error e => .error e
      | .ok lines => .ok (tagLine component attributes :: lines)

/-- Lines with what follows the last one; without lines there is nothing. -/
def block (lines : List String) (terminator : String) : String :=
  if lines.isEmpty then "" else "\n".intercalate lines ++ terminator

/-- The text of a page source, with placeholders for its import lines and its tag lines. -/
def template : String :=
  "__IMPORTS__export default function Page() \x7b\n  return (\n    <main>\n"
    ++ "__SECTIONS__    </main>\n  );\n\x7d\n"

/-- A text with lines for a placeholder. -/
def fill (placeholder lines text : String) : String :=
  String.ofList (Text.replaceAll placeholder.toList lines.toList text.toList)

/-- The text of a page source with its import lines and its tag lines. -/
def sourceText (imports tags : List String) : String :=
  fill "__SECTIONS__" (block tags "\n") (fill "__IMPORTS__" (block imports "\n\n") template)

/-- The source of a spec's first page in the tree below a root. -/
def source (fs : FileSystem) (spec : Spec) (root : Path) : Except GenerationError String :=
  match spec.pages with
  | [] => .error (.unrecoverableSpec .nothingToWrite)
  | page :: _ =>
    match Component.ofSections page.sections with
    | .error e => .error e
    | .ok components =>
      let used := Component.distinct components
      match used.find? fun component => !fs.isFile (component.sourceFile root) with
      | some component =>
        .error (.template (component.sourceFile root) (.sectionMissing component.ident))
      | none =>
        match tagLines (page.sections.zip components) with
        | .error e => .error e
        | .ok tags => .ok (sourceText (used.map Component.importLine) tags)

/-- Write the source of a spec's first page; answers the path of the file. -/
def write (fs : FileSystem) (spec : Spec) (root : Path) :
    Except GenerationError Path × FileSystem :=
  match source fs spec root with
  | .error e => (.error e, fs)
  | .ok text =>
    match fs.write (root.join file) (.ofText text) with
    | .error fault => (.error (.io (root.join file) fault), fs)
    | .ok fs => (.ok (root.join file), fs)

end Page

end Siteworks
