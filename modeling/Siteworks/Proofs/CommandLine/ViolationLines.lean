import Mathlib
import Siteworks.CommandLine.Run
import Siteworks.Proofs.Json.Lines
import Siteworks.Proofs.Layout.Rereading

/-!
# One line for each violation

What is said about a violation may repeat what the document holds: a text between double quotes, or
a value as compact JSON. Neither lets a control character through, so the message is one line
whatever the document holds, and what is printed about an invalid document has a line for each
violation.
-/

namespace Siteworks

namespace Text

/-- The text has no control character of ASCII below the space. -/
def ControlFree (text : String) : Prop := ∀ c ∈ text.toList, 0x20 ≤ c.toNat

-- found without this, the instance would go through all characters there are
instance (text : String) : Decidable (ControlFree text) :=
  List.decidableBAll (fun c : Char => 0x20 ≤ c.toNat) text.toList

/-- Two texts without control characters make one. -/
theorem controlFree_append {s t : String} :
    ControlFree (s ++ t) ↔ ControlFree s ∧ ControlFree t := by
  rw [ControlFree, String.toList_append]
  exact List.forall_mem_append

/-- A text without control characters is not broken. -/
theorem ControlFree.not_mem {text : String} (h : ControlFree text) :
    '\n' ∉ text.toList ∧ '\r' ∉ text.toList :=
  ⟨fun hmem => absurd (h _ hmem) (by decide), fun hmem => absurd (h _ hmem) (by decide)⟩

/-! ## What messages are made of -/

/-- Hexadecimal digits are visible. -/
theorem not_control_of_mem_hexDigits (n : Nat) : ∀ c ∈ hexDigits n, 0x20 ≤ c.toNat := by
  have hdigit : ∀ n < 0x10, 0x20 ≤ (Nat.digitChar n).toNat := by decide
  rw [hexDigits]
  induction n using Nat.strong_induction_on with
  | h n ih =>
    rcases Nat.lt_or_ge n 16 with hlt | hge
    · rw [Nat.toDigits_of_lt_base hlt]
      exact List.forall_mem_singleton.mpr (hdigit n hlt)
    · rw [Nat.toDigits_of_base_le (by decide) hge]
      exact List.forall_mem_append.mpr ⟨ih (n / 16) (by omega),
        List.forall_mem_singleton.mpr (hdigit _ (Nat.mod_lt _ (by decide)))⟩

/-- What is shown as it is is no control character. -/
theorem not_control_of_isPrintable {c : Char} (h : isPrintable c = true) : 0x20 ≤ c.toNat := by
  by_contra hcontrol
  have hranges : inRanges unprintableRanges c = true :=
    List.any_eq_true.mpr
      ⟨(0x0, 0x1f), List.mem_cons_self, by simpa using Nat.le_of_lt_succ (by omega)⟩
  simp [isPrintable, hranges] at h

/-- An escape has no control character. -/
theorem not_control_of_mem_quoteChar (c : Char) : ∀ d ∈ quoteChar c, 0x20 ≤ d.toNat := by
  unfold quoteChar
  split_ifs with hquote hbackslash hnewline hreturn htab hnull hprintable
  -- the escapes with a letter
  iterate 6 simp
  · exact List.forall_mem_singleton.mpr (not_control_of_isPrintable hprintable)
  · exact List.forall_mem_append.mpr ⟨List.forall_mem_append.mpr
      ⟨by simp, not_control_of_mem_hexDigits c.toNat⟩, by simp⟩

/-- A quoted text has no control character, whatever the text has. -/
theorem controlFree_quoted (text : String) : ControlFree (quoted text) := by
  have htext : ∀ c ∈ text.toList.flatMap quoteChar, 0x20 ≤ c.toNat := by
    intro c hc
    obtain ⟨d, -, hd⟩ := List.mem_flatMap.mp hc
    exact not_control_of_mem_quoteChar d c hd
  rw [ControlFree, quoted, String.toList_ofList]
  exact List.forall_mem_append.mpr
    ⟨List.forall_mem_append.mpr ⟨by simp, htext⟩, by simp⟩

/-- A number has no control character. -/
theorem controlFree_toString (n : Nat) : ControlFree (toString n) := by
  intro c hc
  have hdigits : c ∈ Nat.toDigits 10 n := by simpa using hc
  have hdigit := Nat.isDigit_of_mem_toDigits (by decide) (by decide) hdigits
  exact Nat.le_trans (by decide) (Char.isDigit_iff_toNat.mp hdigit).1

end Text

open Text

/-- The text of a position has no control character. -/
theorem Position.controlFree_text (position : Position) : ControlFree position.text := by
  have hpages : ControlFree "pages[" ∧ ControlFree "]" ∧ ControlFree "].sections[" := by
    decide +kernel
  cases position with
  | project => decide +kernel
  | page index =>
    simp only [Position.text, controlFree_append, controlFree_toString, hpages, and_self]
  | inPage page index =>
    simp only [Position.text, controlFree_append, controlFree_toString, hpages, and_self]

/-- What is said about a violation has no control character, whatever it repeats. -/
theorem Violation.controlFree_message (violation : Violation) : ControlFree violation.message := by
  have hvalue (value : Json) : ControlFree value.render := value.not_control_of_mem_render
  cases violation
  all_goals
    unfold message
    simp only [controlFree_append, controlFree_quoted, Position.controlFree_text, hvalue, and_true,
      true_and]
    -- what is left are the texts of the message itself
    decide +kernel

/-! ## What is printed -/

namespace Layout

/-- What a line feed ends is the first line of a text, if no carriage return ends it as well. -/
theorem linesOf_append_cons {line : List Char} (hnewline : '\n' ∉ line) (hreturn : '\r' ∉ line)
    (rest : List Char) : linesOf (line ++ '\n' :: rest) = line :: linesOf rest := by
  have hlast : line.getLast? ≠ some '\r' := fun hlast => hreturn (List.mem_of_getLast? hlast)
  rw [linesOf, splitOn_append_cons hnewline, linesOfPieces, dropReturn_eq_self hlast, linesOf]
  exact List.splitOn_ne_nil '\n' rest

/-- Lines that are ended one after the other are the lines of the whole. -/
theorem linesOf_flatMap {lines : List (List Char)}
    (h : ∀ line ∈ lines, '\n' ∉ line ∧ '\r' ∉ line) :
    linesOf (lines.flatMap (· ++ ['\n'])) = lines := by
  induction lines with
  | nil => rfl
  | cons line lines ih =>
    obtain ⟨⟨hnewline, hreturn⟩, hlines⟩ := List.forall_mem_cons.mp h
    rw [List.flatMap_cons, List.append_assoc, List.singleton_append,
      linesOf_append_cons hnewline hreturn, ih hlines]

end Layout

namespace CommandLine

/-- The text of lines. -/
theorem toList_unlines (lines : List String) :
    (unlines lines).toList = (lines.map String.toList).flatMap (· ++ ['\n']) := by
  rw [unlines, String.toList_intercalate]
  induction lines with
  | nil => rfl
  | cons line lines ih =>
    cases lines <;> simp_all [List.intercalate_cons_cons]

/-- Lines of text are found again, and each is ended by the one line feed it has. -/
theorem lines_unlines {lines : List String} (h : ∀ line ∈ lines, ControlFree line) :
    Layout.linesOf (unlines lines).toList = lines.map String.toList ∧
      (unlines lines).toList.count '\n' = lines.length := by
  rw [toList_unlines]
  constructor
  · refine Layout.linesOf_flatMap (List.forall_mem_map.mpr fun line hline => ?_)
    exact (h line hline).not_mem
  · induction lines with
    | nil => rfl
    | cons line lines ih =>
      obtain ⟨hline, hlines⟩ := List.forall_mem_cons.mp h
      rw [List.map_cons, List.flatMap_cons, List.count_append, List.count_append,
        List.count_eq_zero.mpr hline.not_mem.1, ih hlines, List.length_cons]
      exact Nat.add_comm 1 lines.length

variable {input : Input} {path : String} {document : Json}

/-- Validating a document that is not valid prints what is said about its violations, and tells
their number. -/
theorem run_of_not_isValid
    (hcommand : readCommand input.arguments input.environment = .ok (.validate path))
    (hread : readDocument input path = .ok document) (hinvalid : Spec.isValid document = false) :
    run input = ⟨.text (unlines ((Spec.violations document).map Violation.message)),
      .failure (violationCount (Spec.violations document).length), input.files⟩ := by
  rw [run, hcommand]
  simp only [onDocument, hread, validate]
  cases hviolations : Spec.violations document with
  | nil => simp [Spec.isValid, hviolations] at hinvalid
  | cons violation violations => rfl

/-- No message about a document is broken by a line feed or a carriage return. Validating a document
that is not valid prints the messages line by line in the order of the report, each ended by a line
feed, and tells their number. -/
theorem line_for_each_violation :
    (∀ (document : Json), ∀ violation ∈ Spec.violations document,
      '\n' ∉ violation.message.toList ∧ '\r' ∉ violation.message.toList) ∧
    ∀ {input : Input} {path : String} {document : Json},
      readCommand input.arguments input.environment = .ok (.validate path) →
      readDocument input path = .ok document → Spec.isValid document = false →
      (run input).ending = .failure (violationCount (Spec.violations document).length) ∧
        Layout.linesOf (run input).printed.output.toList =
          (Spec.violations document).map (fun violation => violation.message.toList) ∧
        (run input).printed.output.toList.count '\n' = (Spec.violations document).length := by
  refine ⟨fun document violation _ => violation.controlFree_message.not_mem, ?_⟩
  intro input path document hcommand hread hinvalid
  have hfree : ∀ line ∈ (Spec.violations document).map Violation.message, ControlFree line :=
    List.forall_mem_map.mpr fun violation _ => violation.controlFree_message
  obtain ⟨hlines, hcount⟩ := lines_unlines hfree
  rw [run_of_not_isValid hcommand hread hinvalid]
  refine ⟨rfl, ?_, ?_⟩
  · rw [Printed.output, hlines, List.map_map]
    rfl
  · rw [Printed.output, hcount, List.length_map]

/-- A validation of a document from standard input. -/
def pipedValidation (document : Json) : Input where
  arguments := ["validate", "--spec", "-"]
  environment := ⟨none, none⟩
  stdin := .ofText document.render
  files := .empty

/-- A document whose slug and architecture are broken over lines. -/
def brokenDocument : Json :=
  .object [("project", .object [("name", .string "Demo"), ("slug", .string "a\r\nb")]),
    ("architecture", .object [("\n", .string "\r")])]

/-- Its three violations are printed on three lines. -/
theorem line_for_each_violation_broken :
    readCommand (pipedValidation brokenDocument).arguments
        (pipedValidation brokenDocument).environment = .ok (.validate "-") ∧
      readDocument (pipedValidation brokenDocument) "-" = .ok brokenDocument ∧
      Spec.isValid brokenDocument = false ∧
      (run (pipedValidation brokenDocument)).ending = .failure "spec has 3 violation(s)" ∧
      Layout.linesOf (run (pipedValidation brokenDocument)).printed.output.toList =
        ["project.slug: \"a\\r\\nb\" is not URL-safe",
          "architecture: \x7b\"\\n\":\"\\r\"\x7d is not one of landing | ecommerce | marketplace",
          "pages: missing"].map String.toList := by
  have hcommand : readCommand (pipedValidation brokenDocument).arguments
      (pipedValidation brokenDocument).environment = .ok (.validate "-") := by decide +kernel
  have hread : readDocument (pipedValidation brokenDocument) "-" = .ok brokenDocument := by
    decide +kernel
  have hinvalid : Spec.isValid brokenDocument = false := by decide +kernel
  obtain ⟨hending, hlines, -⟩ := line_for_each_violation.2 hcommand hread hinvalid
  refine ⟨hcommand, hread, hinvalid, hending.trans ?_, hlines.trans ?_⟩
  · decide +kernel
  · decide +kernel

end CommandLine

end Siteworks
