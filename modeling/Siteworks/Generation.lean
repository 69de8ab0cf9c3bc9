import Siteworks.Archive.Pack
import Siteworks.Page.Source
import Siteworks.Slug
import Siteworks.SlugLock
import Siteworks.Theme

/-!
# Generating a site

A run checks its spec, claims its slug, copies the scaffold, writes the page, applies the theme,
packs the tree, and gives the slug back. Everything up to packing is the start of a run, the rest
its end; several runs may have started before the first of them ends. A run that fails gives its
slug back and leaves behind what it has written.
-/

namespace Siteworks

/-- Where scaffolds are and where sites go. -/
structure Generator where
  /-- The directory with a scaffold for each architecture. -/
  scaffolds : Path
  /-- The directory for the trees and archives of sites. -/
  output : Path
  deriving DecidableEq, Repr

/-- What runs share: the file system and the slugs in use. -/
structure Workspace where
  /-- The file system. -/
  files : FileSystem
  /-- The slugs in use. -/
  slugs : SlugTable

/-- A run that has been started: its tree is complete, and it owns its slug. -/
structure StartedRun where
  /-- The slug that the run owns. -/
  slug : String
  /-- The root of the tree. -/
  tree : Path
  /-- The archive to pack the tree into. -/
  archive : Path
  deriving DecidableEq, Repr

/-- A site that has been generated. -/
structure GeneratedSite where
  /-- The name of the site in web addresses. -/
  slug : String
  /-- The root of the tree. -/
  tree : Path
  /-- The archive of the tree. -/
  archive : Path
  /-- The number of files in the archive. -/
  files : Nat
  deriving DecidableEq, Repr

namespace Spec

/-- The slug of a spec's site: the one provided, which must be URL-safe, or else the slug of the
project name. -/
def siteSlug (spec : Spec) : Except GenerationError String :=
  let name := String.ofList (Text.trim spec.project.name.toList)
  let derived := Slug.ofName name
  if name = "" then .error (.unrecoverableSpec .nameBlank)
  else match spec.project.slug.filter (· ≠ "") with
    | some slug => if Slug.isUrlSafe slug then .ok slug else .error (.invalidSlug slug)
    | none =>
      if derived = "" then .error (.unrecoverableSpec (.emptySlug name)) else .ok derived

/-- Whatever can be found wrong with a theme without looking at a file. -/
def checkTheme (theme : Theme) : Except GenerationError Unit :=
  match theme.primaryColor.map Palette.ofHex with
  | some (.error e) => .error e
  | _ =>
    match theme.font.map Font.ofName with
    | some (.error e) => .error e
    | _ => .ok ()

/-- Whatever can be found wrong with the first page and the theme of a spec without looking at a
file. -/
def check (spec : Spec) : Except GenerationError Unit :=
  match spec.pages with
  | [] => .error (.unrecoverableSpec .pagesEmpty)
  | page :: _ =>
    match Component.ofSections page.sections with
    | .error e => .error e
    | .ok _ =>
      match spec.theme with
      | none => .ok ()
      | some theme => checkTheme theme

/-- Write the page of a spec into a tree and apply its theme. -/
def decorate (spec : Spec) (tree : Path) (fs : FileSystem) :
    Except GenerationError Unit × FileSystem :=
  match Page.write fs spec tree with
  | (.error e, fs) => (.error e, fs)
  | (.ok _, fs) =>
    match spec.theme with
    | none => (.ok (), fs)
    | some theme => theme.apply fs tree

end Spec

namespace Generator

/-- The scaffold for a spec. -/
def scaffoldOf (generator : Generator) (spec : Spec) : Path :=
  generator.scaffolds.join ⟨[(spec.architecture.getD .landing).folder]⟩

/-- The root of the tree for a slug. -/
def treeOf (generator : Generator) (slug : String) : Path := generator.output.join ⟨[slug]⟩

/-- The archive for a slug. -/
def archiveOf (generator : Generator) (slug : String) : Path :=
  generator.output.join ⟨[slug ++ ".zip"]⟩

/-- Make the tree of a spec's site: copy the scaffold, write the page and apply the theme. -/
def buildTree (generator : Generator) (spec : Spec) (slug : String) (fs : FileSystem) :
    Except GenerationError Unit × FileSystem :=
  match fs.createDirectories generator.output with
  | (.error fault, fs) => (.error (.io generator.output fault), fs)
  | (.ok _, fs) =>
    match Scaffold.copyTree fs (generator.scaffoldOf spec) (generator.treeOf slug) with
    | (.error e, fs) => (.error e, fs)
    | (.ok _, fs) => spec.decorate (generator.treeOf slug) fs

/-- Start a run. -/
def start (generator : Generator) (spec : Spec) (workspace : Workspace) :
    Except GenerationError StartedRun × Workspace :=
  match spec.siteSlug with
  | .error e => (.error e, workspace)
  | .ok slug =>
    match spec.check with
    | .error e => (.error e, workspace)
    | .ok _ =>
      match workspace.slugs.acquire slug with
      | .error e => (.error e, workspace)
      | .ok slugs =>
        match generator.buildTree spec slug workspace.files with
        | (.error e, files) => (.error e, ⟨files, slugs.release slug⟩)
        | (.ok _, files) =>
          (.ok ⟨slug, generator.treeOf slug, generator.archiveOf slug⟩, ⟨files, slugs⟩)

end Generator

/-- End a run: pack its tree and give its slug back. -/
def StartedRun.finish (run : StartedRun) (workspace : Workspace) :
    Except GenerationError GeneratedSite × Workspace :=
  match Archive.packTree workspace.files run.tree run.archive with
  | (.error e, files) => (.error e, ⟨files, workspace.slugs.release run.slug⟩)
  | (.ok count, files) =>
    (.ok ⟨run.slug, run.tree, run.archive, count⟩, ⟨files, workspace.slugs.release run.slug⟩)

namespace Generator

/-- A run from its start to its end. -/
def generate (generator : Generator) (spec : Spec) (workspace : Workspace) :
    Except GenerationError GeneratedSite × Workspace :=
  match generator.start spec workspace with
  | (.error e, workspace) => (.error e, workspace)
  | (.ok run, workspace) => run.finish workspace

/-- Start runs one after the other. -/
def startAll (generator : Generator) :
    List Spec → Workspace → List (Except GenerationError StartedRun) × Workspace
  | [], workspace => ([], workspace)
  | spec :: rest, workspace =>
    let (first, workspace) := generator.start spec workspace
    let (others, workspace) := startAll generator rest workspace
    (first :: others, workspace)

/-- End the runs that have been started, one after the other. -/
def finishAll :
    List (Except GenerationError StartedRun) → Workspace →
      List (Except GenerationError GeneratedSite) × Workspace
  | [], workspace => ([], workspace)
  | .error e :: rest, workspace =>
    let (others, workspace) := finishAll rest workspace
    (.error e :: others, workspace)
  | .ok run :: rest, workspace =>
    let (first, workspace) := run.finish workspace
    let (others, workspace) := finishAll rest workspace
    (first :: others, workspace)

/-- Runs that are all started before the first of them ends. -/
def generateAll (generator : Generator) (specs : List Spec) (workspace : Workspace) :
    List (Except GenerationError GeneratedSite) × Workspace :=
  let (runs, workspace) := generator.startAll specs workspace
  finishAll runs workspace

end Generator

end Siteworks
