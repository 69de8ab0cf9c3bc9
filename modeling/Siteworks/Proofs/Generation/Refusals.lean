import Mathlib
import Siteworks.Proofs.Generation.Outcomes

/-!
# What a refused run leaves behind

A run that is refused with an error that blames the request has changed no file, with one
exception. The keys of a section's content are first looked at when the page is written, and then
the scaffold has been copied. Every stage behind the first change fails otherwise only with errors
that blame the machine or the scaffold.
-/

namespace Siteworks

namespace Stylesheet

/-- A block that lacks a declaration is the scaffold's fault. -/
theorem status_of_setAll {selector : String} {properties : List (String × List Char)}
    {body : List Char} {e : GenerationError} (h : setAll selector properties body = .error e) :
    e.status = 500 := by
  induction properties generalizing body with
  | nil => cases h
  | cons first rest ih =>
    unfold setAll at h
    split at h
    · exact ih h
    · cases h
      rfl

private theorem status_of_scope {selector : String} {text : List Char} {e : GenerationError}
    (h : scope selector text = .error e) : e.status = 500 := by
  unfold scope at h
  split at h
  · cases h
    rfl
  · split at h
    · cases h
    · cases h
      rfl

private theorem status_of_setInScope {selector : String} {properties : List (String × List Char)}
    {text : List Char} {e : GenerationError} (h : setInScope selector properties text = .error e) :
    e.status = 500 := by
  unfold setInScope at h
  split at h
  next hscope =>
    cases h
    exact status_of_scope hscope
  next =>
    split at h
    next hall =>
      cases h
      exact status_of_setAll hall
    · cases h

/-- A stylesheet that cannot get a palette is the scaffold's fault. -/
theorem status_of_applyPalette {palette : Palette} {text : List Char} {e : GenerationError}
    (h : applyPalette palette text = .error e) : e.status = 500 := by
  unfold applyPalette at h
  split at h
  next hlight =>
    cases h
    exact status_of_setInScope hlight
  · exact status_of_setInScope h

/-- A stylesheet that cannot get a font is the scaffold's fault. -/
theorem status_of_applyFontVariable {fontVariable text : List Char} {e : GenerationError}
    (h : applyFontVariable fontVariable text = .error e) : e.status = 500 := by
  unfold applyFontVariable at h
  simp only at h
  split at h
  · cases h
  · cases h
    rfl

end Stylesheet

namespace Layout

/-- A layout without a place for a font is the scaffold's fault. -/
theorem status_of_insertFontFactory {binding : List Char} {lines : List (List Char)}
    {layout : Layout} {e : GenerationError}
    (h : layout.insertFontFactory binding lines = .error e) : e.status = 500 := by
  unfold insertFontFactory at h
  split at h
  · cases h
    rfl
  · cases h

/-- A layout without a class attribute for a font is the scaffold's fault. -/
theorem status_of_setRootClasses {binding : List Char} {layout : Layout} {e : GenerationError}
    (h : layout.setRootClasses binding = .error e) : e.status = 500 := by
  unfold setRootClasses at h
  simp only at h
  split at h
  · cases h
    rfl
  · split at h
    · cases h
      rfl
    · split at h
      · split at h
        · cases h
          rfl
        · cases h
      · cases h
        rfl

end Layout

/-- A layout and a stylesheet that cannot get a font are the scaffold's fault. -/
theorem status_of_applyFont {font : Font} {layout stylesheet : List Char} {e : GenerationError}
    (h : applyFont font layout stylesheet = .error e) : e.status = 500 := by
  unfold applyFont at h
  simp only at h
  split at h
  next hfactory =>
    cases h
    exact Layout.status_of_insertFontFactory hfactory
  next =>
    split at h
    next hclasses =>
      cases h
      exact Layout.status_of_setRootClasses hclasses
    next =>
      split at h
      next hvariable =>
        cases h
        exact Stylesheet.status_of_applyFontVariable hvariable
      · cases h

namespace Theme

private theorem status_of_readText {fs : FileSystem} {path : Path} {e : GenerationError}
    (h : readText fs path = .error e) : e.status = 500 := by
  unfold readText at h
  split at h
  · cases h
    rfl
  · cases h

private theorem status_of_writeText {fs after : FileSystem} {path : Path} {text : List Char}
    {e : GenerationError} (h : writeText fs path text = (.error e, after)) : e.status = 500 := by
  unfold writeText at h
  split at h
  · cases h
    rfl
  · cases h

private theorem status_of_writeChanged {fs after : FileSystem} {path : Path}
    {current text : List Char} {e : GenerationError}
    (h : writeChanged fs path current text = (.error e, after)) : e.status = 500 := by
  unfold writeChanged at h
  split at h
  · cases h
  · exact status_of_writeText h

private theorem palette_of_checkTheme {theme : Theme} (h : Spec.checkTheme theme = .ok ())
    {text : String} (htext : theme.primaryColor = some text) :
    ∃ palette, Palette.ofHex text = .ok palette := by
  cases hp : Palette.ofHex text with
  | ok palette => exact ⟨palette, rfl⟩
  | error e => simp [Spec.checkTheme, htext, hp] at h

private theorem font_of_checkTheme {theme : Theme} (h : Spec.checkTheme theme = .ok ())
    {name : String} (hname : theme.font = some name) : ∃ font, Font.ofName name = .ok font := by
  cases hf : Font.ofName name with
  | ok font => exact ⟨font, rfl⟩
  | error e =>
    unfold Spec.checkTheme at h
    split at h
    · cases h
    · simp [hname, hf] at h

/-- A stylesheet that cannot get the colour of a checked theme is the scaffold's fault. -/
theorem status_of_recolor {theme : Theme} (hcheck : Spec.checkTheme theme = .ok ())
    {stylesheet : List Char} {e : GenerationError} (h : theme.recolor stylesheet = .error e) :
    e.status = 500 := by
  unfold recolor at h
  split at h
  · cases h
  next text htext =>
    obtain ⟨palette, hpalette⟩ := palette_of_checkTheme hcheck htext
    rw [hpalette] at h
    exact Stylesheet.status_of_applyPalette h

/-- A checked theme that cannot be applied is not to blame for it. -/
theorem status_of_apply {theme : Theme} (hcheck : Spec.checkTheme theme = .ok ())
    {fs after : FileSystem} {root : Path} {e : GenerationError}
    (h : theme.apply fs root = (.error e, after)) : e.status = 500 := by
  unfold apply at h
  simp only at h
  split at h
  next hread =>
    cases h
    exact status_of_readText hread
  next =>
    split at h
    next hrecolor =>
      cases h
      exact status_of_recolor hcheck hrecolor
    next =>
      split at h
      · exact status_of_writeChanged h
      next name hname =>
        obtain ⟨font, hfont⟩ := font_of_checkTheme hcheck hname
        rw [hfont] at h
        simp only at h
        split at h
        next hlayout =>
          cases h
          exact status_of_readText hlayout
        next =>
          split at h
          next happly =>
            cases h
            exact status_of_applyFont happly
          next =>
            split at h
            next hwrite =>
              cases h
              exact status_of_writeText hwrite
            · exact status_of_writeChanged h

end Theme

namespace Scaffold

/-- A file that cannot be copied is not the request's fault. -/
theorem status_of_copyEntry {fs after : FileSystem} {source target : Path} {e : GenerationError}
    (h : copyEntry fs source target = (.error e, after)) : e.status = 500 := by
  unfold copyEntry at h
  simp only at h
  split at h
  · split at h
    · cases h
      rfl
    · cases h
  · split at h
    · cases h
      rfl
    · split at h
      · cases h
        rfl
      · cases h

private theorem status_of_copyEntries {root : Place} {source target : Path} {steps count : Nat}
    {fs after : FileSystem} {todo : List (Place × Node)} {e : GenerationError}
    (h : copyEntries root source target steps fs todo count = (.error e, after)) :
    e.status = 500 := by
  induction steps generalizing fs todo count with
  | zero =>
    cases todo with
    | nil => cases h
    | cons entry rest =>
      cases h
      rfl
  | succ steps ih =>
    rcases todo with _ | ⟨⟨names, node⟩, rest⟩
    · cases h
    · cases node with
      | directory =>
        simp only [copyEntries] at h
        split at h
        · cases h
          rfl
        · exact ih h
      | file content =>
        simp only [copyEntries] at h
        split at h
        next hentry =>
          cases h
          exact status_of_copyEntry hentry
        · exact ih h
      | link target => exact ih h

/-- A scaffold that cannot be copied is not the request's fault. -/
theorem status_of_copyTree {fs after : FileSystem} {source target : Path} {e : GenerationError}
    (h : copyTree fs source target = (.error e, after)) : e.status = 500 := by
  unfold copyTree at h
  split at h
  · cases h
    rfl
  · split at h
    · exact status_of_copyEntries h
    · cases h
      rfl

end Scaffold

/-- A tree that cannot be packed is not the request's fault. -/
theorem Archive.status_of_packTree {fs after : FileSystem} {source archive : Path}
    {e : GenerationError} (h : packTree fs source archive = (.error e, after)) :
    e.status = 500 := by
  unfold packTree at h
  simp only at h
  split at h
  · cases h
    rfl
  · split at h
    · split at h <;>
      · cases h
        rfl
    · split at h
      · cases h
        rfl
      · cases h

/-- Attributes are refused for a key that cannot name one. -/
theorem renderAttributes_eq_error {sectionId : String} {content : List (String × Json)}
    {e : GenerationError} (h : renderAttributes sectionId content = .error e) :
    ∃ key value, (key, value) ∈ content ∧ isAttributeName key = false ∧
      e = .invalidAttribute sectionId key := by
  unfold renderAttributes at h
  split at h
  next key value hfound =>
    cases h
    have hname := List.find?_some hfound
    exact ⟨key, value, List.mem_of_find?_eq_some hfound, by simpa using hname, rfl⟩
  · cases h

namespace Page

/-- The complaint is about a key of a section's content that cannot name an attribute. -/
def Faults (parts : List Section) (e : GenerationError) : Prop :=
  ∃ part ∈ parts, ∃ content, part.content = some content ∧
    ∃ key value, (key, value) ∈ content ∧ isAttributeName key = false ∧
      e = .invalidAttribute part.id key

/-- Tags are refused for the content of a section. -/
theorem faults_of_tagLines {pairs : List (Section × Component)} {e : GenerationError}
    (h : tagLines pairs = .error e) : Faults (pairs.map Prod.fst) e := by
  induction pairs with
  | nil => cases h
  | cons pair rest ih =>
    obtain ⟨part, component⟩ := pair
    unfold tagLines at h
    split at h
    next hattributes =>
      cases h
      unfold attributesOf at hattributes
      split at hattributes
      next content hcontent =>
        obtain ⟨key, value, hmem, hname, rfl⟩ := renderAttributes_eq_error hattributes
        exact ⟨part, by simp, content, hcontent, key, value, hmem, hname, rfl⟩
      · cases hattributes
    next =>
      split at h
      next hrest =>
        cases h
        obtain ⟨other, hother, hfault⟩ := ih hrest
        exact ⟨other, List.mem_cons_of_mem _ hother, hfault⟩
      · cases h

/-- The source of a checked page is refused for a component file that is missing, or for the
content of a section. -/
theorem source_eq_error {fs : FileSystem} {spec : Spec} {root : Path} {page : Page}
    {pages : List Page} {components : List Component} {e : GenerationError}
    (hpages : spec.pages = page :: pages)
    (hcomponents : Component.ofSections page.sections = .ok components)
    (h : source fs spec root = .error e) : e.status = 500 ∨ Faults page.sections e := by
  unfold source at h
  simp only [hpages, hcomponents] at h
  split at h
  · cases h
    exact Or.inl rfl
  · split at h
    next htags =>
      cases h
      obtain ⟨part, hpart, hfault⟩ := faults_of_tagLines htags
      obtain ⟨pair, hpair, rfl⟩ := List.mem_map.mp hpart
      exact Or.inr ⟨pair.1, (List.of_mem_zip hpair).1, hfault⟩
    · cases h

end Page

/-- The error blames a key that cannot name an attribute. -/
def GenerationError.blamesKey : GenerationError → Bool
  | .invalidAttribute _ _ => true
  | _ => false

namespace Spec

/-- A slug is refused for the spec, and not for a key of a section's content. -/
theorem refusal_of_siteSlug {spec : Spec} {e : GenerationError} (h : spec.siteSlug = .error e) :
    e.status = 422 ∧ e.blamesKey = false := by
  unfold siteSlug at h
  simp only at h
  split at h
  · cases h
    exact ⟨rfl, rfl⟩
  · split at h
    · split at h
      · cases h
      · cases h
        exact ⟨rfl, rfl⟩
    · split at h
      · cases h
        exact ⟨rfl, rfl⟩
      · cases h

private theorem refusal_of_ofSections {parts : List Section} {e : GenerationError}
    (h : Component.ofSections parts = .error e) : e.status = 422 ∧ e.blamesKey = false := by
  induction parts with
  | nil => cases h
  | cons part rest ih =>
    unfold Component.ofSections at h
    split at h
    · cases h
      exact ⟨rfl, rfl⟩
    · split at h
      next hrest =>
        cases h
        exact ih hrest
      · cases h

private theorem refusal_of_checkTheme {theme : Theme} {e : GenerationError}
    (h : checkTheme theme = .error e) : e.status = 422 ∧ e.blamesKey = false := by
  unfold checkTheme at h
  split at h
  next hcolor =>
    cases h
    obtain ⟨text, -, hpalette⟩ := Option.map_eq_some_iff.mp hcolor
    unfold Palette.ofHex Rgb.ofHex at hpalette
    split at hpalette
    · cases hpalette
    · cases hpalette
      exact ⟨rfl, rfl⟩
  next =>
    split at h
    next hfont =>
      cases h
      obtain ⟨name, -, hname⟩ := Option.map_eq_some_iff.mp hfont
      unfold Font.ofName at hname
      simp only at hname
      split at hname
      · cases hname
      · cases hname
        exact ⟨rfl, rfl⟩
    · cases h

/-- The checks before a run refuse it for the spec, and do not look at the keys of a section's
content. -/
theorem refusal_of_check {spec : Spec} {e : GenerationError} (h : spec.check = .error e) :
    e.status = 422 ∧ e.blamesKey = false := by
  unfold check at h
  split at h
  · cases h
    exact ⟨rfl, rfl⟩
  · split at h
    next hsections =>
      cases h
      exact refusal_of_ofSections hsections
    · split at h
      · cases h
      · exact refusal_of_checkTheme h

/-- A checked spec has a page with a component for each section, and a theme that is checked. -/
theorem check_eq_ok {spec : Spec} (h : spec.check = .ok ()) :
    ∃ page pages components, spec.pages = page :: pages ∧
      Component.ofSections page.sections = .ok components ∧
      ∀ theme ∈ spec.theme, checkTheme theme = .ok () := by
  unfold check at h
  split at h
  · cases h
  next page pages hpages =>
    split at h
    · cases h
    next components hcomponents =>
      refine ⟨page, pages, components, hpages, hcomponents, fun theme htheme => ?_⟩
      rw [Option.mem_def.mp htheme] at h
      exact h

end Spec

namespace Generator

variable {generator : Generator} {spec : Spec}

/-- The files after the scaffold of a spec was copied to the tree for a slug. -/
def copied (generator : Generator) (spec : Spec) (slug : String) (fs : FileSystem) : FileSystem :=
  (Scaffold.copyTree (fs.createDirectories generator.output).2 (generator.scaffoldOf spec)
    (generator.treeOf slug)).2

/-- A tree of a checked spec is left unfinished without blaming the request, or for the content of
a section when only the scaffold has been copied. -/
theorem buildTree_eq_error {slug : String} {fs after : FileSystem} {e : GenerationError}
    (hcheck : spec.check = .ok ()) (h : generator.buildTree spec slug fs = (.error e, after)) :
    e.status = 500 ∨ (∃ page ∈ spec.pages.head?, Page.Faults page.sections e) ∧
      after = generator.copied spec slug fs := by
  obtain ⟨page, pages, components, hpages, hcomponents, htheme⟩ := Spec.check_eq_ok hcheck
  unfold buildTree at h
  split at h
  · cases h
    exact Or.inl rfl
  next made hmade =>
    split at h
    next hcopy =>
      cases h
      exact Or.inl (Scaffold.status_of_copyTree hcopy)
    next tree hcopy =>
      have htree : tree = generator.copied spec slug fs := by rw [copied, hmade, hcopy]
      unfold Spec.decorate at h
      split at h
      next hpage =>
        cases h
        unfold Page.write at hpage
        split at hpage
        next hsource =>
          cases hpage
          refine (Page.source_eq_error hpages hcomponents hsource).imp_right fun hfault => ?_
          exact ⟨⟨page, by simp [hpages], hfault⟩, htree⟩
        next =>
          split at hpage
          · cases hpage
            exact Or.inl rfl
          · cases hpage
      next =>
        split at h
        · cases h
        next theme hspec => exact Or.inl (Theme.status_of_apply (htheme theme hspec) h)

/-- A run that does not end has found a fault before it changed a file, or blames something else
than the request, or blames a key of a section of the first page after it copied the scaffold. -/
theorem generate_eq_error {before after : Workspace} {e : GenerationError}
    (h : generator.generate spec before = (.error e, after)) :
    (e.blamesKey = false ∧ after.files = before.files) ∨ e.status = 500 ∨
      (e.blamesKey = true ∧ (∃ page ∈ spec.pages.head?, Page.Faults page.sections e) ∧
        ∃ slug, spec.siteSlug = .ok slug ∧
          after.files = generator.copied spec slug before.files) := by
  cases outcome_of_generate h with
  | refused fault =>
    refine Or.inl ⟨?_, rfl⟩
    rcases fault with hslug | hcheck | ⟨slug, -, rfl⟩
    · exact (Spec.refusal_of_siteSlug hslug).2
    · exact (Spec.refusal_of_check hcheck).2
    · rfl
  | @unbuilt slug _ _ name checked free build =>
    refine Or.inr ((buildTree_eq_error checked build).imp_right ?_)
    rintro ⟨hfault, hfiles⟩
    refine ⟨?_, hfault, slug, name, hfiles⟩
    obtain ⟨page, -, part, -, content, -, key, value, -, -, rfl⟩ := hfault
    rfl
  | unpacked name checked free build pack =>
    exact Or.inr (Or.inl (Archive.status_of_packTree pack))

/-- A run that blames the request leaves the files as they were exactly if it does not blame a key,
or if the scaffold that it copied first was there already. It blames only keys of sections of the
first page, and when it does it has copied the scaffold and changed nothing else. -/
theorem files_of_generate_error {before after : Workspace} {e : GenerationError}
    (h : generator.generate spec before = (.error e, after)) (hstatus : e.status < 500) :
    (after.files = before.files ↔ e.blamesKey = false ∨
      ∃ slug, spec.siteSlug = .ok slug ∧
        generator.copied spec slug before.files = before.files) ∧
    (e.blamesKey = true → (∃ page ∈ spec.pages.head?, Page.Faults page.sections e) ∧
      ∃ slug, spec.siteSlug = .ok slug ∧
        after.files = generator.copied spec slug before.files) := by
  rcases generate_eq_error h with ⟨hkey, hfiles⟩ | hserver | ⟨hkey, hfault, slug, hslug, hfiles⟩
  · refine ⟨iff_of_true hfiles (Or.inl hkey), fun hblames => ?_⟩
    exact absurd (hkey.symm.trans hblames) Bool.false_ne_true
  · omega
  · refine ⟨⟨fun hsame => ?_, ?_⟩, fun _ => ⟨hfault, slug, hslug, hfiles⟩⟩
    · exact Or.inr ⟨slug, hslug, hfiles.symm.trans hsame⟩
    · rintro (hfree | ⟨slug', hslug', hcopied⟩)
      · exact absurd (hfree.symm.trans hkey) Bool.false_ne_true
      · obtain rfl : slug = slug' := Except.ok.inj (hslug.symm.trans hslug')
        exact hfiles.trans hcopied

/-- A scaffold with one component. -/
def heroScaffold : FileSystem :=
  [(["scaffold"], Node.directory), (["scaffold", "landing"], .directory),
    (["scaffold", "landing", "components"], .directory),
    (["scaffold", "landing", "components", "sections"], .directory),
    (["scaffold", "landing", "components", "sections", "hero.tsx"], .file .empty)].foldl
      (fun fs (place, node) => fs.put place node) .empty

/-- A spec with a key that cannot name an attribute. -/
def badKeySpec : Spec where
  project := ⟨"Demo", none⟩
  architecture := none
  theme := none
  pages := [⟨"home", "Home", "/", [⟨"s1", "hero", none, some [("bad key", .null)]⟩]⟩]

/-- Scaffolds and sites side by side. -/
def sideBySide : Generator := ⟨⟨["scaffold"]⟩, ⟨["out"]⟩⟩

/-- The run for the bad key. -/
def badKeyRun : Except GenerationError GeneratedSite × Workspace :=
  sideBySide.generate badKeySpec ⟨heroScaffold, .empty⟩

private theorem badKeyRun_eq :
    sideBySide.generate badKeySpec ⟨heroScaffold, .empty⟩ =
      (.error (.invalidAttribute "s1" "bad key"), badKeyRun.2) := by
  have h : badKeyRun.1 = .error (.invalidAttribute "s1" "bad key") := by decide +kernel
  rw [← h]
  exact (Prod.eta badKeyRun).symm

/-- The run for the bad key is refused, and has copied the scaffold. -/
theorem files_of_generate_badKey :
    badKeyRun.1 = .error (.invalidAttribute "s1" "bad key") ∧
      badKeyRun.2.files = sideBySide.copied badKeySpec "demo" heroScaffold := by
  have hslug : badKeySpec.siteSlug = .ok "demo" := by decide +kernel
  obtain ⟨-, slug, hslug', hfiles⟩ :=
    (files_of_generate_error badKeyRun_eq (by decide)).2 rfl
  obtain rfl : "demo" = slug := Except.ok.inj (hslug.symm.trans hslug')
  exact ⟨congrArg Prod.fst badKeyRun_eq, hfiles⟩

/-- Not every run that blames the request leaves the files as they were. -/
theorem exists_generate_error_files_ne :
    ¬ ∀ (generator : Generator) (spec : Spec) (before after : Workspace) (e : GenerationError),
      generator.generate spec before = (.error e, after) → e.status < 500 →
        after.files = before.files := by
  intro hall
  have hsame := hall _ _ _ _ _ badKeyRun_eq (by decide)
  have hbefore : heroScaffold.get? ["out"] = none := by decide +kernel
  have hafter : badKeyRun.2.files.get? ["out"] = some .directory := by decide +kernel
  rw [hsame] at hafter
  exact absurd (hbefore.symm.trans hafter) nofun

end Generator

end Siteworks
