import Mathlib
import Siteworks.CommandLine.Run
import Siteworks.Proofs.Archive.Packing
import Siteworks.Proofs.Generation.Acceptance
import Siteworks.Proofs.Json.Lines
import Siteworks.Proofs.Json.Rereading

/-!
# Answers in envelopes

A generation that is asked for an envelope prints one line with a JSON object: an archive's envelope
if the run succeeds, and an error's if it fails. Every exit behind the reading of the document passes
through the place where envelopes are printed; the one before it does not, so a run that cannot read
its document prints nothing.
-/

namespace Siteworks

/-- The archive of a site that was generated can be read. -/
theorem Generator.read_of_generate {generator : Generator} {spec : Spec} {before after : Workspace}
    {site : GeneratedSite} (h : generator.generate spec before = (.ok site, after)) :
    ∃ entries, after.files.read site.archive = .ok (.archive ⟨entries⟩) := by
  obtain ⟨built, -, -, -, -, hpack, -⟩ := generate_eq_ok_iff.mp h
  exact Archive.read_of_packTree hpack

/-- An archive's envelope is plain. -/
theorem ArchiveEnvelope.plain_toJson (envelope : ArchiveEnvelope) (depth : Nat) :
    envelope.toJson.Plain (depth + 1) := by
  refine .object (by simp) ?_
  simp [Json.Plain.string]

/-- An error's envelope is plain. -/
theorem ErrorEnvelope.plain_toJson (envelope : ErrorEnvelope) (depth : Nat) :
    envelope.toJson.Plain (depth + 1) := by
  refine .object (by simp) ?_
  simp [Json.Plain.string]

/-- No document is the envelope of an archive and of an error. -/
theorem ArchiveEnvelope.toJson_ne (archive : ArchiveEnvelope) (error : ErrorEnvelope) :
    archive.toJson ≠ error.toJson := by
  simp [ArchiveEnvelope.toJson, ErrorEnvelope.toJson]

namespace CommandLine

/-- A printed text is one line with a document. -/
def IsLineOf (document : Json) (text : String) : Prop :=
  ∃ line, text = line ++ "\n" ∧ '\n' ∉ line.toList ∧ Json.parse? line = some document

/-- The compact text of a plain document is a line with it. -/
theorem isLineOf_render {document : Json} (h : document.Plain Json.maxDepth) :
    IsLineOf document (document.render ++ "\n") :=
  ⟨document.render, rfl, document.newline_not_mem_render, by rw [Json.parse?_render, h.reread?_eq]⟩

/-- A run answers in an envelope: it prints one line with a document, which is an archive's envelope
exactly if the run succeeds, and an error's exactly if it does not. -/
structure Outcome.Answers (outcome : Outcome) (document : Json) : Prop where
  /-- The document is on the line that is printed. -/
  line : IsLineOf document outcome.printed.output
  /-- An archive is the answer of a run that succeeds. -/
  archive : (∃ envelope : ArchiveEnvelope, document = envelope.toJson) ↔ outcome.ending.status = 0
  /-- An error is the answer of a run that fails. -/
  error : (∃ envelope : ErrorEnvelope, document = envelope.toJson) ↔ outcome.ending.status ≠ 0

/-- A run that prints nothing does not answer. -/
theorem not_answers_of_silent {outcome : Outcome} (h : outcome.printed.output = "")
    (document : Json) : ¬ outcome.Answers document := by
  rintro ⟨⟨line, hline, -, -⟩, -, -⟩
  rw [h] at hline
  simpa using congrArg String.toList hline

variable {options : GenerateOptions}

/-- A failed generation answers with its error. -/
theorem answers_failed (henvelope : options.envelope = true) (envelope : ErrorEnvelope)
    (message : String) (files : FileSystem) :
    (failed options envelope message files).Answers envelope.toJson where
  line := by
    rw [failed, if_pos henvelope]
    exact isLineOf_render (envelope.plain_toJson 126)
  archive := by
    refine iff_of_false (fun harchive => ?_) (by simp [failed, Ending.status])
    obtain ⟨archive, heq⟩ := harchive
    exact archive.toJson_ne envelope heq.symm
  error := iff_of_true ⟨envelope, rfl⟩ (by simp [failed, Ending.status])

/-- A generated site is answered with its archive. -/
theorem answers_reportSite (henvelope : options.envelope = true) {site : GeneratedSite}
    {files : FileSystem} {content : Content} (hread : files.read site.archive = .ok content) :
    (reportSite options site files).Answers
      (ArchiveEnvelope.toJson ⟨content, site.slug ++ ".zip", "/preview/" ++ site.slug⟩) := by
  have hreport : reportSite options site files =
      ⟨.envelope ⟨content, site.slug ++ ".zip", "/preview/" ++ site.slug⟩, .success, files⟩ := by
    rw [reportSite, if_pos henvelope, ArchiveEnvelope.ofFile, hread]
  rw [hreport]
  refine ⟨isLineOf_render (ArchiveEnvelope.plain_toJson _ 126), iff_of_true ⟨_, rfl⟩ rfl,
    iff_of_false (fun herror => ?_) (not_not_intro rfl)⟩
  obtain ⟨error, heq⟩ := herror
  exact ArchiveEnvelope.toJson_ne _ error heq

/-- A generation that has its document answers, however it ends. -/
theorem answers_generate (henvelope : options.envelope = true) (input : Input) (document : Json) :
    ∃ envelope, (generate options input document).Answers envelope := by
  unfold generate
  simp only
  split
  · exact ⟨_, answers_failed henvelope _ _ _⟩
  · split
    · exact ⟨_, answers_failed henvelope _ _ _⟩
    · split
      · exact ⟨_, answers_failed henvelope _ _ _⟩
      next site workspace hgenerate =>
        obtain ⟨entries, hread⟩ := Generator.read_of_generate hgenerate
        exact ⟨_, answers_reportSite henvelope hread⟩

/-- A generation that is asked for an envelope answers exactly if it can read its document. If it
cannot, it prints nothing, fails with what went wrong, and leaves the files as they were. -/
theorem answers_iff {input : Input}
    (hcommand : readCommand input.arguments input.environment = .ok (.generate options))
    (henvelope : options.envelope = true) :
    ((∃ envelope, (run input).Answers envelope) ↔
        ∃ document, readDocument input options.spec = .ok document) ∧
      ∀ message, readDocument input options.spec = .error message →
        run input = ⟨.text "", .failure message, input.files⟩ := by
  have hrun : run input = onDocument input options.spec (generate options) := by
    rw [run, hcommand]
  have hsilent : ∀ message, readDocument input options.spec = .error message →
      run input = ⟨.text "", .failure message, input.files⟩ := by
    intro message hread
    rw [hrun, onDocument, hread]
  refine ⟨⟨?_, ?_⟩, hsilent⟩
  · rintro ⟨envelope, hanswers⟩
    cases hread : readDocument input options.spec with
    | ok document => exact ⟨document, rfl⟩
    | error message =>
      exact absurd hanswers (not_answers_of_silent (by rw [hsilent message hread]; rfl) envelope)
  · rintro ⟨document, hread⟩
    rw [hrun, onDocument, hread]
    exact answers_generate henvelope input document

/-- A generation of a document from standard input, with an envelope. -/
def pipedInput (text : String) (files : FileSystem) : Input where
  arguments := ["generate", "--envelope", "--spec", "-"]
  environment := ⟨none, none⟩
  stdin := .ofText text
  files := files

/-- The options of that generation. -/
def pipedOptions : GenerateOptions := ⟨"-", "scaffold", "out", false, true⟩

/-- A document that makes a site. -/
def demoDocument : Json :=
  .object [("project", .object [("name", .string "Demo")]), ("pages", .array [.object []])]

/-- The generation of that site answers, and succeeds. -/
theorem answers_iff_demo :
    readCommand (pipedInput demoDocument.render pageScaffold).arguments
        (pipedInput demoDocument.render pageScaffold).environment = .ok (.generate pipedOptions) ∧
      pipedOptions.envelope = true ∧
      (∃ envelope, (run (pipedInput demoDocument.render pageScaffold)).Answers envelope) ∧
      (run (pipedInput demoDocument.render pageScaffold)).ending = .success := by
  have hcommand : readCommand (pipedInput demoDocument.render pageScaffold).arguments
      (pipedInput demoDocument.render pageScaffold).environment = .ok (.generate pipedOptions) := by
    decide +kernel
  have hread : readDocument (pipedInput demoDocument.render pageScaffold) pipedOptions.spec =
      .ok demoDocument := by decide +kernel
  exact ⟨hcommand, rfl, (answers_iff hcommand rfl).1.mpr ⟨_, hread⟩, by decide +kernel⟩

/-- A generation whose document is no JSON does not answer. -/
theorem exists_run_not_answers : ∃ (input : Input) (options : GenerateOptions),
    readCommand input.arguments input.environment = .ok (.generate options) ∧
      options.envelope = true ∧ ¬ ∃ envelope, (run input).Answers envelope := by
  refine ⟨pipedInput "not json" .empty, pipedOptions, by decide +kernel, rfl, ?_⟩
  rintro ⟨envelope, hanswers⟩
  exact not_answers_of_silent (by decide +kernel) envelope hanswers

end CommandLine

end Siteworks
