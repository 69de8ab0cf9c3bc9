import Mathlib
import Siteworks.CommandLine.Run
import Siteworks.Proofs.Generation.Refusals
import Siteworks.Proofs.Layout.Roles
import Siteworks.Proofs.Repair.FixedPoints
import Siteworks.Proofs.Repair.Printing
import Siteworks.Proofs.Schema.Rules

/-!
# Runs on repaired specs

A run checks again what repair has settled: the name, the slug, that there is a page, and the colour.
For a settled spec these checks pass, so what a run can still be refused for is what repair leaves
alone: the components, the keys and the font that the spec asks for, a slug in use, and the machine.
-/

namespace Siteworks

open Text (allBlank)

/-- The errors for which repair makes no provision. -/
inductive GenerationError.LeftByRepair : GenerationError → Prop
  /-- No component is registered for a section. -/
  | component (kind variant : String) (valid : List String) :
    LeftByRepair (.unknownComponent kind variant valid)
  /-- A key of a section's content names no attribute. -/
  | attribute (sectionId key : String) : LeftByRepair (.invalidAttribute sectionId key)
  /-- The name of the font makes no identifier. -/
  | font (name : String) : LeftByRepair (.invalidFont name)
  /-- The slug is in use. -/
  | busy (slug : String) : LeftByRepair (.slugBusy slug)
  /-- The machine or the scaffold is at fault. -/
  | machine {e : GenerationError} (h : e.status = 500) : LeftByRepair e

/-- A name that is not blank is not empty without the white space at its ends. -/
theorem Text.trim_ne_nil {text : List Char} (h : allBlank text = false) : trim text ≠ [] := by
  obtain ⟨c, hc, hblank⟩ := List.all_eq_false.mp h
  exact List.ne_nil_of_mem (mem_trim hc (by simpa using hblank))

namespace Spec

variable {spec : Spec}

/-- The slug of a settled spec's site is the one that it carries. -/
theorem Settled.siteSlug_eq (h : spec.Settled) :
    ∃ slug, spec.project.slug = some slug ∧ spec.siteSlug = .ok slug := by
  obtain ⟨slug, hslug, hsafe⟩ := h.slug_safe
  have hname : String.ofList (Text.trim spec.project.name.toList) ≠ "" := by
    rw [Ne, String.ofList_eq_empty_iff]
    exact Text.trim_ne_nil h.name_filled
  have hfilled : slug ≠ "" := by
    rintro rfl
    exact absurd hsafe (by decide)
  refine ⟨slug, hslug, ?_⟩
  rw [siteSlug, if_neg hname, hslug, Option.filter_some, decide_eq_true hfilled, if_pos rfl]
  simp only [hsafe, ite_true]

/-- Components are missed by kind and variant. -/
theorem leftByRepair_of_ofSections {parts : List Section} {e : GenerationError}
    (h : Component.ofSections parts = .error e) : e.LeftByRepair := by
  induction parts with
  | nil => cases h
  | cons part rest ih =>
    unfold Component.ofSections at h
    split at h
    · cases h
      exact .component _ _ _
    · split at h
      next hrest =>
        cases h
        exact ih hrest
      · cases h

/-- Of a settled theme only the font can be refused. -/
theorem leftByRepair_of_checkTheme {theme : Theme} (hsettled : theme.Settled) {e : GenerationError}
    (h : checkTheme theme = .error e) : e.LeftByRepair := by
  unfold checkTheme at h
  split at h
  next hcolor =>
    obtain ⟨text, htext, hpalette⟩ := Option.map_eq_some_iff.mp hcolor
    obtain ⟨rgb, hrgb⟩ := Option.isSome_iff_exists.mp (hsettled.color_hex text htext)
    rw [Palette.ofHex, Rgb.ofHex, hrgb] at hpalette
    cases hpalette
  · split at h
    next hfont =>
      cases h
      obtain ⟨name, -, hname⟩ := Option.map_eq_some_iff.mp hfont
      unfold Font.ofName at hname
      simp only at hname
      split at hname
      · cases hname
      · cases hname
        exact .font _
    · cases h

/-- The checks before a run refuse a settled spec for its components or its font only. -/
theorem Settled.leftByRepair_of_check (hsettled : spec.Settled) {e : GenerationError}
    (h : spec.check = .error e) : e.LeftByRepair := by
  unfold check at h
  split at h
  next hpages => exact absurd hpages hsettled.pages_ne_nil
  · split at h
    next hsections =>
      cases h
      exact leftByRepair_of_ofSections hsections
    · split at h
      · cases h
      next theme htheme => exact leftByRepair_of_checkTheme (hsettled.theme_settled theme htheme) h

end Spec

namespace Generator

variable {generator : Generator} {spec : Spec} {before after : Workspace}

/-- A run on a settled spec fails only for what repair leaves alone. -/
theorem leftByRepair_of_generate (hsettled : spec.Settled) {e : GenerationError}
    (h : generator.generate spec before = (.error e, after)) : e.LeftByRepair := by
  obtain ⟨slug, -, hslug⟩ := hsettled.siteSlug_eq
  cases outcome_of_generate h with
  | refused fault =>
    rcases fault with hrefused | hcheck | ⟨other, -, rfl⟩
    · cases hslug.symm.trans hrefused
    · exact hsettled.leftByRepair_of_check hcheck
    · exact .busy other
  | unbuilt name checked free build =>
    rcases buildTree_eq_error checked build with hserver | ⟨⟨page, -, hfault⟩, -⟩
    · exact .machine hserver
    · obtain ⟨part, -, content, -, key, value, -, -, rfl⟩ := hfault
      exact .attribute part.id key
  | unpacked name checked free build pack => exact .machine (Archive.status_of_packTree pack)

/-- A run on a settled spec that succeeds is for the slug that the spec carries. -/
theorem slug_of_generate (hsettled : spec.Settled) {site : GeneratedSite}
    (h : generator.generate spec before = (.ok site, after)) :
    spec.project.slug = some site.slug := by
  obtain ⟨slug, hcarried, hslug⟩ := hsettled.siteSlug_eq
  obtain ⟨-, hname, -⟩ := generate_eq_ok_iff.mp h
  rw [hcarried, Except.ok.inj (hslug.symm.trans hname)]

end Generator

/-- The repair command succeeds with a repaired spec, and prints it. -/
theorem CommandLine.repair_eq {document : Json} {spec : Spec} (h : Spec.repair document = .ok spec)
    (input : Input) :
    repair input document = ⟨.text (spec.toJson.renderPretty ++ "\n"), .success, input.files⟩ := by
  unfold repair
  rw [h]

/-- On a repaired spec no run fails as it would without a name, a page, a slug or a colour, whatever
the files and the slugs in use are. A run that succeeds is for the slug of the repaired spec, which
is the slug in what the repair command prints, also when it is read. -/
theorem Generator.generate_of_repair {document : Json} {spec : Spec}
    (h : Spec.repair document = .ok spec) (generator : Generator) (workspace : Workspace) :
    (∀ fault, (generator.generate spec workspace).1 ≠ .error (.unrecoverableSpec fault)) ∧
    (∀ slug, (generator.generate spec workspace).1 ≠ .error (.invalidSlug slug)) ∧
    (∀ text, (generator.generate spec workspace).1 ≠ .error (.invalidColor text)) ∧
    ∀ site, (generator.generate spec workspace).1 = .ok site →
      spec.project.slug = some site.slug ∧
      Json.at? ["project", "slug"] spec.toJson = some (.string site.slug) ∧
      ∀ input, (CommandLine.repair input document).ending = .success ∧
        spec.IsPrinted site.slug (CommandLine.repair input document).printed.output := by
  have hsettled := Spec.settled_of_repair h
  cases hrun : generator.generate spec workspace with
  | mk result after =>
    have hleft : ∀ e, result = .error e → e.LeftByRepair := by
      rintro e rfl
      exact leftByRepair_of_generate hsettled hrun
    refine ⟨fun fault he => ?_, fun slug he => ?_, fun text he => ?_, fun site hsite => ?_⟩
    · obtain _ | _ | _ | _ | ⟨⟨⟩⟩ := hleft _ he
    · obtain _ | _ | _ | _ | ⟨⟨⟩⟩ := hleft _ he
    · obtain _ | _ | _ | _ | ⟨⟨⟩⟩ := hleft _ he
    · obtain rfl : result = .ok site := hsite
      have hslug := slug_of_generate hsettled hrun
      obtain ⟨slug, hcarried, hsafe⟩ := hsettled.slug_safe
      obtain rfl : slug = site.slug := Option.some.inj (hcarried.symm.trans hslug)
      refine ⟨hslug, by rw [spec.at?_slug_toJson, hslug, Option.map_some], fun input => ?_⟩
      rw [CommandLine.repair_eq h]
      exact ⟨rfl, Spec.isPrinted_renderPretty hslug hsafe⟩

/-- What the section of the document below shows. -/
def Repair.paddedContent : List (String × Json) :=
  [("title", .string "Say \"hi\""), ("stars", .array [.number (.integer 5), .null])]

/-- A document whose name is padded, with a slug and a colour that are malformed. -/
def Repair.paddedDocument : Json :=
  .object [("project", .object [("name", .string "  Demo "), ("slug", .string "Bad Slug")]),
    ("theme", .object [("primaryColor", .string "blue")]),
    ("pages", .array [.object [("sections", .array [.object [("kind", .string "hero"),
      ("content", .object paddedContent)]])]])]

/-- What that document is repaired to. -/
def Repair.paddedSpec : Spec where
  project := ⟨"  Demo ", some "demo"⟩
  architecture := none
  theme := none
  pages := [⟨"page_1", "Page 1", "/", [⟨"sec_page_1_1", "hero", none, some paddedContent⟩]⟩]

/-- The beginning of what is printed of it. -/
def Repair.paddedOpening : String :=
  "\x7b\n  \"project\": \x7b\n    \"name\": \"  Demo \",\n    \"slug\": \"demo\"\n  \x7d,"

/-- The content is told by its text. -/
theorem Repair.plainContents_paddedSpec (depth : Nat) : paddedSpec.PlainContents (depth + 2) := by
  have hstars : (Json.array [.number (.integer 5), .null]).Plain (depth + 1) :=
    .array (List.forall_mem_cons.mpr
      ⟨.integer (by decide) (by decide), List.forall_mem_singleton.mpr .null⟩)
  simp only [Spec.PlainContents, paddedSpec, List.forall_mem_singleton, Option.mem_some_iff,
    forall_eq']
  exact .object (by decide)
    (List.forall_mem_cons.mpr ⟨.string _, List.forall_mem_singleton.mpr hstars⟩)

/-- A scaffold with one component and a place for the page. -/
def pageScaffold : FileSystem := Generator.heroScaffold.put ["scaffold", "landing", "app"] .directory

/-- The run for the padded name succeeds, with the slug that was made of the name. What the repair
command prints shows the name and the slug, and is read as the document of the repaired spec. -/
theorem Generator.generate_of_repair_padded :
    Spec.repair Repair.paddedDocument = .ok Repair.paddedSpec ∧
      (∃ site, (sideBySide.generate Repair.paddedSpec ⟨pageScaffold, .empty⟩).1 = .ok site ∧
        Repair.paddedSpec.project.slug = some site.slug ∧ site.slug = "demo") ∧
      ∀ input, ∃ behind, (CommandLine.repair input Repair.paddedDocument).printed.output =
          Repair.paddedOpening ++ behind ∧
        Json.parse? (CommandLine.repair input Repair.paddedDocument).printed.output =
          some Repair.paddedSpec.toJson := by
  have h : Spec.repair Repair.paddedDocument = .ok Repair.paddedSpec := by decide +kernel
  have hrun : (sideBySide.generate Repair.paddedSpec ⟨pageScaffold, .empty⟩).1.isOk = true := by
    decide +kernel
  cases hsite : (sideBySide.generate Repair.paddedSpec ⟨pageScaffold, .empty⟩).1 with
  | error e => simp [hsite, Except.isOk, Except.toBool] at hrun
  | ok site =>
    obtain ⟨hslug, -, hprinted⟩ := (generate_of_repair h sideBySide _).2.2.2 site hsite
    have hdemo : site.slug = "demo" := (Option.some.inj hslug).symm
    have hopening : Spec.opening "  Demo " "demo" = Repair.paddedOpening := by decide +kernel
    refine ⟨h, ⟨site, rfl, hslug, hdemo⟩, fun input => ?_⟩
    obtain ⟨behind, hbehind⟩ := (hprinted input).2.opening
    rw [hdemo, show Repair.paddedSpec.project.name = "  Demo " from rfl, hopening] at hbehind
    exact ⟨behind, hbehind, (hprinted input).2.plain_read (Repair.plainContents_paddedSpec 120)⟩

end Siteworks
