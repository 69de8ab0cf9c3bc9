import Siteworks.Data.Base64
import Siteworks.Generation
import Siteworks.Json.Printer
import Siteworks.Spec.Violation

/-!
# Envelopes

The outcome of a run as one JSON object: the archive in base 64 with the names it is served under,
or an error with its category and wording.
-/

namespace Siteworks

/-- An archive for a caller that has no access to the file system. -/
structure ArchiveEnvelope where
  /-- What the archive's file holds. -/
  archive : Content
  /-- The name of the file. -/
  filename : String
  /-- Where a preview of the site is served. -/
  preview : String
  deriving DecidableEq, Repr

namespace ArchiveEnvelope

/-- The envelope of an archive's file for the slug of its site. -/
def ofFile (fs : FileSystem) (slug : String) (archive : Path) :
    Except GenerationError ArchiveEnvelope :=
  match fs.read archive with
  | .error fault => .error (.io archive fault)
  | .ok content => .ok ⟨content, slug ++ ".zip", "/preview/" ++ slug⟩

/-- The document of an envelope. -/
def toJson (envelope : ArchiveEnvelope) : Json :=
  .object [("archive", .string (String.ofList (Base64.encode envelope.archive.data.bytes))),
    ("filename", .string envelope.filename), ("preview", .string envelope.preview)]

end ArchiveEnvelope

/-- An error for a caller that reads JSON. -/
structure ErrorEnvelope where
  /-- The category. -/
  error : String
  /-- The wording. -/
  details : String
  deriving DecidableEq, Repr

namespace ErrorEnvelope

/-- The envelope of an error. -/
def ofError (e : GenerationError) : ErrorEnvelope := ⟨e.category, e.message⟩

/-- The envelope of a document that was not repaired, with the lines about its violations. -/
def ofViolations (lines : List String) : ErrorEnvelope := ⟨"Invalid spec", "; ".intercalate lines⟩

/-- The document of an envelope. -/
def toJson (envelope : ErrorEnvelope) : Json :=
  .object [("error", .string envelope.error), ("details", .string envelope.details)]

end ErrorEnvelope

end Siteworks
