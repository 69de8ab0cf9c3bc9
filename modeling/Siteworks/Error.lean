import Siteworks.FileSystem.Path
import Siteworks.Text.Quoted

/-!
# What stops a generation

Schema violations are reported, not raised; the errors here abort a run. Each is a cause with its
particulars. Its message, its category and its status are functions of the cause; a status below 500
blames the request, any other the machine or the scaffold.
-/

namespace Siteworks

open Text (quoted)

/-- Why no spec can be made of a document, or no site of a spec. -/
inductive SpecFault where
  /-- The document is not an object. -/
  | rootNotObject
  /-- The document has no project with a name. -/
  | nameMissing
  /-- The spec's project name is blank. -/
  | nameBlank
  /-- Nothing of the project name can stand in a slug. -/
  | emptySlug (name : String)
  /-- The document has no list of pages with a page in it. -/
  | pagesMissing
  /-- The spec has no page. -/
  | pagesEmpty
  /-- The spec has no page to write the source of. -/
  | nothingToWrite
  /-- Two pages carry one identifier. -/
  | duplicatePageId (id : String)
  /-- Two sections of a page carry one identifier. -/
  | duplicateSectionId (page id : String)
  /-- The page at a position, counted from zero, is not an object. -/
  | pageNotObject (index : Nat)
  /-- The section at a position of a page, counted from one, is not an object. -/
  | sectionNotObject (page : String) (position : Nat)
  /-- The section at a position of a page, counted from one, has no kind. -/
  | kindMissing (page : String) (position : Nat)
  /-- A fault described by a caller. -/
  | described (text : String)
  deriving DecidableEq, Repr

/-- The wording of a spec's fault. -/
def SpecFault.message : SpecFault → String
  | .rootNotObject => "spec root is not an object"
  | .nameMissing => "project name is missing; a name cannot be invented"
  | .nameBlank => "project name is missing"
  | .emptySlug name => "project name " ++ quoted name ++ " yields an empty slug"
  | .pagesMissing => "spec has no pages; pages cannot be invented"
  | .pagesEmpty => "spec has no pages"
  | .nothingToWrite => "spec has no pages to synthesize"
  | .duplicatePageId id => "duplicate page id " ++ quoted id
  | .duplicateSectionId page id =>
    "duplicate page " ++ quoted page ++ " section id " ++ quoted id
  | .pageNotObject index => "pages[" ++ toString index ++ "] is not an object"
  | .sectionNotObject page position =>
    "page " ++ quoted page ++ " section " ++ toString position ++ " is not an object"
  | .kindMissing page position =>
    "page " ++ quoted page ++ " section " ++ toString position
      ++ " has no kind; kind cannot be guessed"
  | .described text => text

/-- What a scaffold file lacks. -/
inductive TemplateFault where
  /-- The component has no source file. -/
  | sectionMissing (component : String)
  /-- The layout has no line before which a font can be declared. -/
  | noFontAnchor
  /-- The layout has no body element. -/
  | noBody
  /-- The layout has no class attribute from its body element on. -/
  | noClassAttribute
  /-- The class attribute stands on an import line. -/
  | classAttributeOnImport
  /-- The stylesheet has no declaration of the default font family. -/
  | noFontDeclaration
  /-- The stylesheet has no block for a selector. -/
  | noScope (selector : String)
  /-- The stylesheet's block for a selector is not closed. -/
  | openScope (selector : String)
  /-- The block for a selector has no declaration of a property. -/
  | noDeclaration (property selector : String)
  /-- A fault described by a caller. -/
  | described (text : String)
  deriving DecidableEq, Repr

/-- The wording of a template's fault. -/
def TemplateFault.message : TemplateFault → String
  | .sectionMissing component => "section template for " ++ component ++ " is missing"
  | .noFontAnchor => "no metadata export or root layout function"
  | .noBody => "no <body> element"
  | .noClassAttribute => "<body> has no className attribute"
  | .classAttributeOnImport => "<body> className is not on a plain line"
  | .noFontDeclaration => "no --font-sans declaration"
  | .noScope selector => "no `" ++ selector ++ "` block"
  | .openScope selector => "unterminated `" ++ selector ++ "` block"
  | .noDeclaration property selector =>
    "no " ++ property ++ " declaration in `" ++ selector ++ "`"
  | .described text => text

/-- Why the file system refuses an operation. -/
inductive IoFault where
  | notFound
  | alreadyExists
  | notDirectory
  | isDirectory
  | nameTooLong
  | tooManyLinks
  /-- The file holds no text. -/
  | notText
  /-- The directory to copy is not there. -/
  | scaffoldMissing
  /-- A fault described by a caller. -/
  | described (text : String)
  deriving DecidableEq, Repr

/-- The wording of a refusal. -/
def IoFault.message : IoFault → String
  | .notFound => "No such file or directory (os error 2)"
  | .alreadyExists => "File exists (os error 17)"
  | .notDirectory => "Not a directory (os error 20)"
  | .isDirectory => "Is a directory (os error 21)"
  | .nameTooLong => "File name too long (os error 36)"
  | .tooManyLinks => "Too many levels of symbolic links (os error 40)"
  | .notText => "stream did not contain valid UTF-8"
  | .scaffoldMissing => "scaffold directory not found"
  | .described text => text

/-- What aborts a run. -/
inductive GenerationError where
  /-- Going on would mean to invent what the author of the spec has in mind. -/
  | unrecoverableSpec (fault : SpecFault)
  /-- No component is registered for a section. -/
  | unknownComponent (kind variant : String) (valid : List String)
  /-- A content key cannot name an attribute. -/
  | invalidAttribute (sectionId key : String)
  | invalidColor (text : String)
  | invalidFont (name : String)
  | invalidSlug (slug : String)
  /-- A scaffold file lacks what a change needs. -/
  | template (path : Path) (fault : TemplateFault)
  | io (path : Path) (fault : IoFault)
  /-- The archive cannot be written. -/
  | archive (path : Path) (fault : IoFault)
  /-- Packing was broken off. -/
  | archiveTask (reason : String)
  /-- Another run for the slug has not ended. -/
  | slugBusy (slug : String)
  /-- A search pattern takes more room than it may. -/
  | patternTooBig (limit : Nat)
  deriving DecidableEq, Repr

namespace GenerationError

/-- The wording of an error. -/
def message : GenerationError → String
  | .unrecoverableSpec fault => "unrecoverable spec: " ++ fault.message
  | .unknownComponent kind variant valid =>
    "no component registered for kind `" ++ kind ++ "` variant `" ++ variant ++ "` (valid: "
      ++ ", ".intercalate valid ++ ")"
  | .invalidAttribute sectionId key =>
    "section `" ++ sectionId ++ "`: `" ++ key ++ "` is not a valid attribute name"
  | .invalidColor text => "invalid color `" ++ text ++ "`: expected #rgb or #rrggbb"
  | .invalidFont name => "invalid font name `" ++ name ++ "`"
  | .invalidSlug slug => "slug `" ++ slug ++ "` is not URL-safe"
  | .template path fault => path.text ++ ": " ++ fault.message
  | .io path fault => path.text ++ ": " ++ fault.message
  | .archive path fault => path.text ++ ": i/o error: " ++ fault.message
  | .archiveTask reason => "archive task failed: " ++ reason
  | .slugBusy slug => "a generation for slug `" ++ slug ++ "` is already in progress"
  | .patternTooBig limit =>
    "Compiled regex exceeds size limit of " ++ toString limit ++ " bytes."

/-- The heading under which users are shown an error. -/
def category : GenerationError → String
  | .unrecoverableSpec _ | .invalidAttribute _ _ | .invalidColor _ | .invalidFont _
  | .invalidSlug _ => "Invalid spec"
  | .unknownComponent _ _ _ => "Unknown component"
  | .template _ _ | .patternTooBig _ => "Scaffold error"
  | .io _ _ => "File system error"
  | .archive _ _ | .archiveTask _ => "Archive error"
  | .slugBusy _ => "Generation in progress"

/-- The status for a web client: 4xx blames the request, 5xx does not. -/
def status : GenerationError → Nat
  | .unrecoverableSpec _ | .unknownComponent _ _ _ | .invalidAttribute _ _ | .invalidColor _
  | .invalidFont _ | .invalidSlug _ => 422
  | .slugBusy _ => 409
  | .template _ _ | .patternTooBig _ | .io _ _ | .archive _ _ | .archiveTask _ => 500

/-- Category and message, as a user is told of an error. -/
def report (error : GenerationError) : String := error.category ++ ": " ++ error.message

end GenerationError

end Siteworks
