import Siteworks.CommandLine.Arguments
import Siteworks.Envelope
import Siteworks.Json.Reader
import Siteworks.Spec.Repair

/-!
# Running a command

A command reads a document, from a file or from standard input, and validates it, repairs it, or
generates its site. What it prints, how it ends and what it changes follow from its input and the
file system.
-/

namespace Siteworks.CommandLine

/-- What a command is run with. -/
structure Input where
  /-- The arguments behind the program's name. -/
  arguments : List String
  /-- The environment variables. -/
  environment : Environment
  /-- What standard input holds. -/
  stdin : Data
  /-- The file system. -/
  files : FileSystem

/-- What a command prints. -/
inductive Printed where
  /-- A text. -/
  | text (content : String)
  /-- An archive's envelope on a line of its own. -/
  | envelope (content : ArchiveEnvelope)
  deriving DecidableEq, Repr

/-- The text that is printed. -/
def Printed.output : Printed → String
  | .text content => content
  | .envelope content => content.toJson.render ++ "\n"

/-- How a command ends. -/
inductive Ending where
  /-- All went well. -/
  | success
  /-- The arguments are not understood. -/
  | usage
  /-- A failure, with what the user is told. -/
  | failure (message : String)
  deriving DecidableEq, Repr

/-- The exit status of an ending. -/
def Ending.status : Ending → Nat
  | .success => 0
  | .failure _ => 1
  | .usage => 2

/-- What a run of a command amounts to. -/
structure Outcome where
  /-- What is printed. -/
  printed : Printed
  /-- How the run ends. -/
  ending : Ending
  /-- The file system afterwards. -/
  files : FileSystem

/-- What is printed for help. -/
def helpText : String :=
  "Generate a website project from a JSON spec\n\n"
    ++ "Commands: validate, repair, generate, help\n"
    ++ "Options: --spec FILE, and for generate --scaffold DIR, --out DIR, --strict, --envelope\n"

/-- Lines of text, each ended. -/
def unlines (lines : List String) : String := "".intercalate (lines.map (· ++ "\n"))

/-- Read the text of a document; a hyphen stands for standard input. -/
def readDocumentText (input : Input) (path : String) : Except String String :=
  if path = "-" then
    match input.stdin.text? with
    | some content => .ok content
    | none => .error "read spec from stdin"
  else
    match input.files.readText (.ofString path) with
    | .ok content => .ok content
    | .error _ => .error ("read spec file " ++ path)

/-- Read a document. -/
def readDocument (input : Input) (path : String) : Except String Json :=
  match readDocumentText input path with
  | .error message => .error message
  | .ok content =>
    match Json.parse? content with
    | some document => .ok document
    | none => .error ("parse spec " ++ path ++ " as JSON")

/-- What is said about a number of violations. -/
def violationCount (count : Nat) : String := "spec has " ++ toString count ++ " violation(s)"

/-- Report the violations of a document. -/
def validate (input : Input) (document : Json) : Outcome :=
  match Spec.violations document with
  | [] => ⟨.text "spec is valid\n", .success, input.files⟩
  | violations =>
    ⟨.text (unlines (violations.map Violation.message)),
      .failure (violationCount violations.length), input.files⟩

/-- Print the repaired document. -/
def repair (input : Input) (document : Json) : Outcome :=
  match Spec.repair document with
  | .error e => ⟨.text "", .failure e.report, input.files⟩
  | .ok spec => ⟨.text (spec.toJson.renderPretty ++ "\n"), .success, input.files⟩

/-- A failed generation. -/
def failed (options : GenerateOptions) (envelope : ErrorEnvelope) (message : String)
    (files : FileSystem) : Outcome :=
  ⟨.text (if options.envelope then envelope.toJson.render ++ "\n" else ""), .failure message, files⟩

/-- Report a generated site. -/
def reportSite (options : GenerateOptions) (site : GeneratedSite) (files : FileSystem) : Outcome :=
  if options.envelope then
    match ArchiveEnvelope.ofFile files site.slug site.archive with
    | .error e => ⟨.text "", .failure e.report, files⟩
    | .ok envelope => ⟨.envelope envelope, .success, files⟩
  else
    ⟨.text (unlines ["Wrote " ++ site.tree.text, "Wrote " ++ site.archive.text]), .success, files⟩

/-- Generate the site of a document. -/
def generate (options : GenerateOptions) (input : Input) (document : Json) : Outcome :=
  let violations := Spec.violations document
  if options.strict ∧ violations ≠ [] then
    failed options (.ofViolations (violations.map Violation.message))
      (violationCount violations.length) input.files
  else
    match Spec.repair document with
    | .error e => failed options (.ofError e) e.report input.files
    | .ok spec =>
      let generator : Generator := ⟨.ofString options.scaffolds, .ofString options.output⟩
      match generator.generate spec ⟨input.files, .empty⟩ with
      | (.error e, workspace) => failed options (.ofError e) e.report workspace.files
      | (.ok site, workspace) => reportSite options site workspace.files

/-- Run a command on the document that it is about. -/
def onDocument (input : Input) (path : String) (command : Input → Json → Outcome) : Outcome :=
  match readDocument input path with
  | .error message => ⟨.text "", .failure message, input.files⟩
  | .ok document => command input document

/-- Run the command that the arguments name. -/
def run (input : Input) : Outcome :=
  match readCommand input.arguments input.environment with
  | .error .usage => ⟨.text "", .usage, input.files⟩
  | .error .help => ⟨.text helpText, .success, input.files⟩
  | .ok (.validate path) => onDocument input path validate
  | .ok (.repair path) => onDocument input path repair
  | .ok (.generate options) => onDocument input options.spec (generate options)

end Siteworks.CommandLine
