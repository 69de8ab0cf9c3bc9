import Mathlib
import Siteworks.Proofs.Repair.Identifiers
import Siteworks.Proofs.Words

/-!
# Validity of repaired documents

A repaired spec, written as a document, meets every rule of the schema but one. A page without a
name of its own is named after its identifier, and an identifier of underscores and white space
leaves no name. These pages, and nothing else, are reported.
-/

namespace Siteworks

open Text (allBlank isBlank)

/-- The first of two lists of members decides where it has the key. -/
theorem Json.lookup_append (key : String) (first second : List (String × Json)) :
    lookup key (first ++ second) = (lookup key first).or (lookup key second) :=
  List.lookup_append

/-- An optional string member is found under its own key only. -/
@[simp] theorem Json.lookup_textMember (key name : String) (value : Option String) :
    lookup key (textMember name value) = if key = name then value.map .string else none := by
  cases value with
  | none => simp [textMember, lookup]
  | some text =>
    by_cases h : key = name
    · simp [textMember, lookup, h]
    · have hne : (key == name) = false := by simpa using h
      simp [textMember, lookup, List.lookup_cons, hne, h]

/-- The variant of a section in its document. -/
theorem Section.lookup_variant_members (part : Section) :
    Json.lookup "variant" part.members = part.variant.map .string := by
  rcases part with ⟨id, kind, _ | variant, _ | content⟩ <;> rfl

/-- The content of a section in its document. -/
theorem Section.lookup_content_members (part : Section) :
    Json.lookup "content" part.members = part.content.map .object := by
  rcases part with ⟨id, kind, _ | variant, _ | content⟩ <;> rfl

/-- The architecture of a spec in its document. -/
theorem Spec.lookup_architecture_members (spec : Spec) :
    Json.lookup "architecture" spec.members =
      (spec.architecture.map Architecture.name).map .string := by
  rcases spec with ⟨project, _ | architecture, _ | theme, pages⟩ <;> rfl

/-- The theme of a spec in its document. -/
theorem Spec.lookup_theme_members (spec : Spec) :
    Json.lookup "theme" spec.members = spec.theme.map Theme.toJson := by
  rcases spec with ⟨project, _ | architecture, _ | theme, pages⟩ <;> rfl

/-- The pages of a spec in its document. -/
theorem Spec.lookup_pages_members (spec : Spec) :
    Json.lookup "pages" spec.members = some (.array (spec.pages.map Page.toJson)) := by
  rcases spec with ⟨project, _ | architecture, _ | theme, pages⟩ <;> rfl

namespace Repair

/-- A repaired project has a name and a URL-safe slug. -/
theorem project_eq_ok {root : List (String × Json)} {repaired : Project}
    (h : project root = .ok repaired) :
    allBlank repaired.name.toList = false ∧
      ∃ slug, repaired.slug = some slug ∧ Slug.isUrlSafe slug = true := by
  unfold project at h
  simp only at h
  split at h
  · cases h
  next name hname =>
    have hfilled := Json.allBlank_of_filledText? hname
    split at h
    next slug hslug =>
      split at h
      next hsafe =>
        cases h
        exact ⟨hfilled, slug, rfl, hsafe⟩
      next =>
        split at h
        · cases h
        next hne =>
          cases h
          exact ⟨hfilled, _, rfl, Slug.isUrlSafe_ofName hne⟩
    next =>
      split at h
      · cases h
      next hne =>
        cases h
        exact ⟨hfilled, _, rfl, Slug.isUrlSafe_ofName hne⟩

/-- What repair keeps of a theme is well formed. -/
theorem theme_eq_some {value : Json} {repaired : Theme} (h : theme value = some repaired) :
    (∀ color ∈ repaired.primaryColor, (Rgb.ofHex? color).isSome) ∧
      ∀ font ∈ repaired.font, allBlank font.toList = false := by
  unfold theme at h
  split at h
  · cases h
  next members _ =>
    simp only at h
    split at h
    · cases h
    · cases h
      exact ⟨fun color hc => (Option.mem_filter_iff.mp hc).2,
        fun font hf => Json.allBlank_of_filledText? hf⟩

end Repair

namespace Violation

/-- The project of a repaired spec meets the rules. -/
theorem ofProject_eq_nil {source root : List (String × Json)} {project : Project}
    (h : Repair.project source = .ok project)
    (hroot : Json.lookup "project" root = some project.toJson) : ofProject root = [] := by
  obtain ⟨hname, slug, hslug, hsafe⟩ := Repair.project_eq_ok h
  have hfound : Json.filledText? "name" project.members = some project.name :=
    Json.filledText?_eq_some_iff.mpr ⟨rfl, hname⟩
  have hlookup : Json.lookup "slug" project.members = some (.string slug) :=
    (Json.lookup_textMember "slug" "slug" project.slug).trans (by rw [hslug]; rfl)
  rw [ofProject, hroot]
  simp [Project.toJson, ofRequired, hfound, hlookup, hsafe]

/-- A colour in hexadecimal notation, and none, meet the rules. -/
theorem ofColor_eq_nil {members : List (String × Json)} {color : Option String}
    (hlookup : Json.lookup "primaryColor" members = color.map .string)
    (h : ∀ text ∈ color, (Rgb.ofHex? text).isSome) : ofColor members = [] := by
  cases color with
  | none => rw [ofColor, hlookup]; rfl
  | some text =>
    obtain ⟨rgb, hrgb⟩ := Option.isSome_iff_exists.mp (h text rfl)
    simp [ofColor, hlookup, Json.text?, hrgb]

/-- A font with a name, and none, meet the rules. -/
theorem ofFont_eq_nil {members : List (String × Json)} {font : Option String}
    (hlookup : Json.lookup "font" members = font.map .string)
    (h : ∀ text ∈ font, allBlank text.toList = false) : ofFont members = [] := by
  cases font with
  | none => rw [ofFont, hlookup]; rfl
  | some text =>
    have hfound := Json.filledText?_eq_some_iff.mpr ⟨hlookup, h text rfl⟩
    rw [ofFont, hlookup, hfound]
    rfl

/-- A variant with a name, and none, meet the rules. -/
theorem ofVariant_eq_nil {members : List (String × Json)} {variant : Option String}
    {page index : Nat} (hlookup : Json.lookup "variant" members = variant.map .string)
    (h : ∀ text ∈ variant, allBlank text.toList = false) :
    ofVariant page index members = [] := by
  cases variant with
  | none => rw [ofVariant, hlookup]; rfl
  | some text => simp [ofVariant, hlookup, h text rfl]

/-- The theme of a repaired spec meets the rules. -/
theorem ofTheme_eq_nil {value : Option Json} {root : List (String × Json)} {theme : Option Theme}
    (h : value.bind Repair.theme = theme)
    (hroot : Json.lookup "theme" root = theme.map Theme.toJson) : ofTheme root = [] := by
  cases theme with
  | none => rw [ofTheme, hroot]; rfl
  | some theme =>
    obtain ⟨document, rfl, hdocument⟩ := Option.bind_eq_some_iff.mp h
    obtain ⟨hcolor, hfont⟩ := Repair.theme_eq_some hdocument
    have hcolorRule : ofColor theme.members = [] :=
      ofColor_eq_nil (by simp [Theme.members, Json.lookup_append]) hcolor
    have hfontRule : ofFont theme.members = [] :=
      ofFont_eq_nil (by simp [Theme.members, Json.lookup_append]) hfont
    rw [ofTheme, hroot, Option.map_some, Theme.toJson]
    simp only [hcolorRule, hfontRule, List.append_nil]

/-- The name of an architecture meets the rules. -/
theorem ofArchitecture_eq_nil {root : List (String × Json)} {architecture : Option Architecture}
    (hroot : Json.lookup "architecture" root =
      (architecture.map Architecture.name).map Json.string) :
    ofArchitecture root = [] := by
  rw [ofArchitecture, hroot]
  rcases architecture with _ | _ | _ | _ <;> rfl

end Violation

namespace Repair

/-- An identifier that an item gets is not blank. -/
theorem allBlank_of_identify {stem id : String} {number : Nat} {taken taken' : List String}
    {members : List (String × Json)} (h : identify stem number taken members = (id, taken')) :
    allBlank id.toList = false := by
  unfold identify at h
  split at h
  next provided hprovided =>
    obtain ⟨rfl, -⟩ := Prod.mk.inj h
    exact Json.allBlank_of_filledText? hprovided
  next =>
    obtain ⟨rfl, -⟩ := Prod.mk.inj h
    rw [← Bool.not_eq_true, Text.allBlank_iff]
    exact fun hall => absurd (hall '_' (underscore_mem_freeId ..)) (by decide)

/-- What a section is repaired to. -/
theorem sectionAt_eq_ok {pageId : String} {index : Nat} {taken taken' : List String} {item : Json}
    {part : Section} (h : sectionAt pageId index taken item = .ok (part, taken')) :
    ∃ members, item = .object members ∧
      identify ("sec_" ++ pageId) (index + 1) taken members = (part.id, taken') ∧
      Json.filledText? "kind" members = some part.kind ∧
      part.variant = Json.filledText? "variant" members ∧
      part.content = (Json.lookup "content" members).bind Json.members? := by
  cases item with
  | object members =>
    unfold sectionAt at h
    simp only [Json.members?, nextFreeId_eq] at h
    split at h
    · cases h
    next kind hkind =>
      split at h
      next id hid =>
        cases h
        exact ⟨members, rfl, identify_of_some _ _ _ hid, hkind, rfl, rfl⟩
      next hid =>
        cases h
        exact ⟨members, rfl, identify_of_none _ _ _ hid, hkind, rfl, rfl⟩
  | _ => cases h

/-- What a page is repaired to. -/
theorem pageAt_eq_ok {index : Nat} {taken taken' : List String} {item : Json} {page : Page}
    (h : pageAt index taken item = .ok (page, taken')) :
    ∃ members, item = .object members ∧
      identify "page" (index + 1) taken members = (page.id, taken') ∧
      page.name = (Json.filledText? "name" members).getD (titleCase page.id) ∧
      page.route = (Json.filledText? "route" members).getD (defaultRoute index page.id) ∧
      sections page.id (Json.lookup "sections" members) = .ok page.sections := by
  cases item with
  | object members =>
    refine ⟨members, rfl, ?_⟩
    unfold pageAt at h
    simp only [Json.members?, nextFreeId_eq] at h
    unfold identify
    cases hid : Json.filledText? "id" members <;>
    · simp only [hid] at h ⊢
      split at h
      · cases h
      next parts hparts =>
        cases h
        exact ⟨rfl, rfl, rfl, hparts⟩
  | _ => cases h

end Repair

namespace Violation

/-- A repaired section adds no violation to those of the sections after it. -/
theorem ofSections_cons {pageId : String} {page index number : Nat}
    {taken taken' seen : List String} {item : Json} {part : Section} (rest : List Json)
    (h : Repair.sectionAt pageId number taken item = .ok (part, taken'))
    (hseen : part.id ∉ seen) :
    ofSections page index seen (part.toJson :: rest) =
      ofSections page (index + 1) (seen ++ [part.id]) rest := by
  obtain ⟨members, rfl, hid, hkind, hvariant, -⟩ := Repair.sectionAt_eq_ok h
  have hidFound : Json.filledText? "id" part.members = some part.id :=
    Json.filledText?_eq_some_iff.mpr ⟨rfl, Repair.allBlank_of_identify hid⟩
  have hkindFound : Json.filledText? "kind" part.members = some part.kind :=
    Json.filledText?_eq_some_iff.mpr ⟨rfl, Json.allBlank_of_filledText? hkind⟩
  have hvariantRule : ofVariant page index part.members = [] :=
    ofVariant_eq_nil part.lookup_variant_members fun text ht =>
      Json.allBlank_of_filledText? (hvariant ▸ ht)
  have hcontentRule : ofContent page index part.members = [] := by
    rw [ofContent, part.lookup_content_members]
    cases part.content <;> rfl
  simp [ofSections, Section.toJson, Json.members?, ofSectionMembers, hidFound, hseen, ofRequired,
    hkindFound, hvariantRule, hcontentRule, itemId?]

/-- Sections repaired from a position on meet the rules behind the identifiers seen before. -/
theorem ofSections_eq_nil {pageId : String} {page index number : Nat} {taken seen : List String}
    {items : List Json} {parts : List Section}
    (h : Repair.sectionsFrom pageId number taken items = .ok parts)
    (hids : Repair.Reserved seen taken items) :
    ofSections page index seen (parts.map Section.toJson) = [] := by
  induction items generalizing index number taken seen parts with
  | nil => cases h; rfl
  | cons item rest ih =>
    unfold Repair.sectionsFrom at h
    split at h
    · cases h
    next first taken' hfirst =>
      split at h
      · cases h
      next others hothers =>
        cases h
        obtain ⟨members, rfl, hid, -⟩ := Repair.sectionAt_eq_ok hfirst
        obtain ⟨hseen, hids'⟩ := hids.identify hid
        rw [List.map_cons, ofSections_cons _ hfirst hseen]
        exact ih hothers hids'

end Violation

namespace Repair

/-- The sections of a repaired page meet the rules. -/
theorem ofSections_of_sections {pageId : String} {page : Nat} {value : Option Json}
    {parts : List Section} (h : sections pageId value = .ok parts) :
    Violation.ofSections page 0 [] (parts.map Section.toJson) = [] := by
  unfold sections at h
  split at h
  · cases h
    rfl
  next items _ =>
    split at h
    · cases h
    next hnone => exact Violation.ofSections_eq_nil h (Reserved.initial hnone)

/-- The identifier has a character that can stand in a name. -/
def hasWord (id : String) : Bool := id.toList.any fun c => c ≠ '_' && !isBlank c

/-- A capitalized word is blank only if the word is. -/
theorem forall_mem_capitalize_isBlank (word : List Char) :
    (∀ c ∈ capitalize word, isBlank c = true) ↔ ∀ c ∈ word, isBlank c = true := by
  cases word with
  | nil => simp [capitalize]
  | cons first rest =>
    simp only [capitalize, List.mem_append, or_imp, forall_and, List.forall_mem_cons,
      Text.forall_mem_uppercase_isBlank]

/-- The words of an identifier make a name unless there are none. -/
theorem allBlank_titleCase (id : String) :
    allBlank (titleCase id).toList = !hasWord id := by
  have hblank : allBlank (titleCase id).toList = true ↔ hasWord id = false := by
    rw [Text.allBlank_iff, titleCase, String.toList_ofList,
      Text.forall_mem_intercalate (by decide)]
    simp only [List.forall_mem_map, forall_mem_capitalize_isBlank]
    constructor
    · intro hall
      simp only [hasWord, List.any_eq_false, Bool.and_eq_true, decide_eq_true_eq, not_and]
      intro c hc hne
      obtain ⟨run, hrun, hcrun⟩ : ∃ run ∈ Text.runs (· ≠ '_') id.toList, c ∈ run :=
        Text.exists_mem_runs_iff.mpr ⟨hc, by simpa using hne⟩
      simp [hall run hrun c hcrun]
    · intro hword run hrun c hc
      obtain ⟨hmem, hne⟩ := Text.exists_mem_runs_iff.mp ⟨run, hrun, hc⟩
      simp only [hasWord, List.any_eq_false, Bool.and_eq_true, decide_eq_true_eq, not_and] at hword
      simpa using hword c hmem (of_decide_eq_true hne)
  cases hw : hasWord id with
  | false => simpa using hblank.mpr hw
  | true => simpa [hw] using mt hblank.mp

/-- An identifier that repair gives to a page makes a name. -/
theorem hasWord_freeId (number : Nat) (taken : List String) :
    hasWord (freeId "page" number taken) = true := by
  obtain ⟨n, he, -⟩ := freeId_isLeast "page" number taken
  have hmem : 'p' ∈ (freeId "page" number taken).toList := by
    rw [he]
    simp [numberedId]
  exact List.any_eq_true.mpr ⟨'p', hmem, by decide⟩

/-- The page has a name of its own, or no identifier, or one that makes a name. -/
def isNameable (members : List (String × Json)) : Bool :=
  (Json.filledText? "name" members).isSome || (Json.filledText? "id" members).all hasWord

/-- A repaired page has a blank name only if there was nothing to name it after. -/
theorem allBlank_name {index : Nat} {taken taken' : List String}
    {members : List (String × Json)} {page : Page}
    (hid : identify "page" (index + 1) taken members = (page.id, taken'))
    (hname : page.name = (Json.filledText? "name" members).getD (titleCase page.id)) :
    allBlank page.name.toList = !isNameable members := by
  rw [hname, isNameable]
  cases hn : Json.filledText? "name" members with
  | some name => simpa using Json.allBlank_of_filledText? hn
  | none =>
    unfold identify at hid
    cases hp : Json.filledText? "id" members with
    | some provided =>
      rw [hp] at hid
      simp [← (Prod.mk.inj hid).1, allBlank_titleCase]
    | none =>
      rw [hp] at hid
      simp [← (Prod.mk.inj hid).1, allBlank_titleCase, hasWord_freeId]

end Repair

namespace Violation

/-- A repaired page adds no violation to those of the pages after it, unless its name is blank. -/
theorem ofPages_cons {index number : Nat} {taken taken' seen : List String} {item : Json}
    {page : Page} (rest : List Json) (h : Repair.pageAt number taken item = .ok (page, taken'))
    (hseen : page.id ∉ seen) :
    ofPages index seen (page.toJson :: rest) =
      (if allBlank page.name.toList then [.textMissing (.page index) "name"] else []) ++
        ofPages (index + 1) (seen ++ [page.id]) rest := by
  obtain ⟨members, rfl, hid, -, hroute, hsections⟩ := Repair.pageAt_eq_ok h
  have hidFound : Json.filledText? "id" page.members = some page.id :=
    Json.filledText?_eq_some_iff.mpr ⟨rfl, Repair.allBlank_of_identify hid⟩
  have hname : Json.filledText? "name" page.members =
      if allBlank page.name.toList then none else some page.name := rfl
  have hrouteFilled : allBlank page.route.toList = false := by
    rw [hroute]
    cases hr : Json.filledText? "route" members with
    | some route => exact Json.allBlank_of_filledText? hr
    | none =>
      have hslash : '/' ∈ (Repair.defaultRoute number page.id).toList := by
        unfold Repair.defaultRoute
        split <;> simp
      rw [← Bool.not_eq_true, Text.allBlank_iff]
      exact fun hall => absurd (hall '/' hslash) (by decide)
  have hrouteFound : Json.filledText? "route" page.members = some page.route :=
    Json.filledText?_eq_some_iff.mpr ⟨rfl, hrouteFilled⟩
  have hlookup : Json.lookup "sections" page.members =
      some (.array (page.sections.map Section.toJson)) := rfl
  have hparts : ofSections index 0 [] (page.sections.map Section.toJson) = [] :=
    Repair.ofSections_of_sections hsections
  simp only [ofPages, Page.toJson, Json.members?, ofPageMembers, hidFound, hseen, ite_false,
    List.nil_append, ofRequired, hname, hrouteFound, hlookup, hparts, List.append_nil, itemId?,
    Option.bind_some, Option.toList_some]
  cases allBlank page.name.toList <;> simp

end Violation

namespace Repair

/-- The positions, counted from an index, of the pages that nothing names. -/
def unnamedFrom (index : Nat) : List Json → List Nat
  | [] => []
  | item :: rest =>
    (if item.members?.all isNameable then [] else [index]) ++ unnamedFrom (index + 1) rest

/-- The items of a document's list of pages. -/
def pageItems (document : Json) : List Json :=
  ((document.members?.bind (Json.lookup "pages")).bind Json.items?).getD []

/-- No page is unnamed if each has what it can be named after. -/
theorem unnamedFrom_eq_nil_iff {index : Nat} {items : List Json} :
    unnamedFrom index items = [] ↔
      ∀ members, .object members ∈ items → isNameable members = true := by
  induction items generalizing index with
  | nil => simp [unnamedFrom]
  | cons item rest ih =>
    rw [unnamedFrom, List.append_eq_nil_iff, ih]
    cases item with
    | object members =>
      cases hn : isNameable members <;> simp [Json.members?, hn, or_imp, forall_and]
    | _ => simp [Json.members?]

/-- Repaired pages break one rule, each where its name is blank. -/
theorem ofPages_of_pagesFrom {index number : Nat} {taken seen : List String} {items : List Json}
    {pages : List Page} (h : pagesFrom number taken items = .ok pages)
    (hids : Reserved seen taken items) :
    Violation.ofPages index seen (pages.map Page.toJson) =
      (unnamedFrom index items).map fun i => .textMissing (.page i) "name" := by
  induction items generalizing index number taken seen pages with
  | nil => cases h; rfl
  | cons item rest ih =>
    unfold pagesFrom at h
    split at h
    · cases h
    next first taken' hfirst =>
      split at h
      · cases h
      next others hothers =>
        cases h
        obtain ⟨members, rfl, hid, hname, -⟩ := pageAt_eq_ok hfirst
        obtain ⟨hseen, hids'⟩ := hids.identify hid
        rw [List.map_cons, Violation.ofPages_cons _ hfirst hseen, ih hothers hids',
          allBlank_name hid hname, unnamedFrom, List.map_append]
        cases hn : isNameable members <;> simp [Json.members?, hn]

/-- Pages are repaired if there are items, of which no two carry one identifier. -/
theorem pages_eq_ok {root : List (String × Json)} {repaired : List Page}
    (h : pages root = .ok repaired) :
    pageItems (.object root) ≠ [] ∧ repeatedId? [] (pageItems (.object root)) = none ∧
      pagesFrom 0 (providedIds (pageItems (.object root))) (pageItems (.object root)) =
        .ok repaired := by
  have hpages : pageItems (.object root) =
      ((Json.lookup "pages" root).bind Json.items?).getD [] := rfl
  unfold pages at h
  split at h
  · cases h
  · cases h
  next items hne hitems =>
    rw [hpages, hitems, Option.getD_some]
    split at h
    · cases h
    next hnone => exact ⟨hne, hnone, h⟩

/-- Repaired pages come from a list of items, and break one rule. -/
theorem ofPages_of_pages {root : List (String × Json)} {repaired : List Page}
    (h : pages root = .ok repaired) :
    repaired ≠ [] ∧ Violation.ofPages 0 [] (repaired.map Page.toJson) =
      (unnamedFrom 0 (pageItems (.object root))).map fun i => .textMissing (.page i) "name" := by
  obtain ⟨hne, hnone, hfrom⟩ := pages_eq_ok h
  refine ⟨?_, ofPages_of_pagesFrom hfrom (Reserved.initial hnone)⟩
  rintro rfl
  cases hitems : pageItems (.object root) with
  | nil => exact hne hitems
  | cons item rest =>
    rw [hitems] at hfrom
    unfold pagesFrom at hfrom
    split at hfrom
    · cases hfrom
    · split at hfrom <;> cases hfrom

end Repair

/-- A repaired document is an object whose project and pages were repaired. -/
theorem Spec.repair_eq_ok {document : Json} {spec : Spec} (h : Spec.repair document = .ok spec) :
    ∃ root, document = .object root ∧ Repair.project root = .ok spec.project ∧
      Repair.pages root = .ok spec.pages ∧
      spec.architecture =
        ((Json.lookup "architecture" root).bind Json.text?).bind Architecture.ofName? ∧
      spec.theme = (Json.lookup "theme" root).bind Repair.theme := by
  unfold Spec.repair at h
  cases document with
  | object root =>
    simp only [Json.members?] at h
    split at h
    · cases h
    next project hproject =>
      split at h
      · cases h
      next pages hpages =>
        cases h
        exact ⟨root, rfl, hproject, hpages, rfl, rfl⟩
  | _ => cases h

/-- The positions of a document's pages that nothing names. -/
def Repair.unnamedPages (document : Json) : List Nat := unnamedFrom 0 (pageItems document)

/-- The document of a repaired spec breaks one rule at most: a page that had no name, and an
identifier without a word in it, still has no name. -/
theorem Spec.violations_toJson_of_repair {document : Json} {spec : Spec}
    (h : Spec.repair document = .ok spec) :
    Spec.violations spec.toJson =
        (Repair.unnamedPages document).map (fun i => .textMissing (.page i) "name") ∧
      (Spec.isValid spec.toJson = true ↔
        ∀ members, .object members ∈ Repair.pageItems document →
          Repair.isNameable members = true) := by
  have hviolations : Spec.violations spec.toJson =
      (Repair.unnamedPages document).map (fun i => .textMissing (.page i) "name") := by
    unfold Spec.repair at h
    cases document with
    | object root =>
      simp only [Json.members?] at h
      split at h
      · cases h
      next project hproject =>
        split at h
        · cases h
        next pages hpages =>
          obtain ⟨hne, hpageRules⟩ := Repair.ofPages_of_pages hpages
          obtain rfl : _ = spec := Except.ok.inj h
          rw [Repair.unnamedPages, ← hpageRules, Spec.toJson, Spec.violations, Json.members?]
          simp only
          rw [Violation.ofProject_eq_nil hproject rfl,
            Violation.ofArchitecture_eq_nil (Spec.lookup_architecture_members _),
            Violation.ofTheme_eq_nil rfl (Spec.lookup_theme_members _), Violation.ofPageList,
            Spec.lookup_pages_members]
          cases pages with
          | nil => exact absurd rfl hne
          | cons first rest => rfl
    | _ => cases h
  refine ⟨hviolations, ?_⟩
  rw [Spec.isValid, hviolations, List.isEmpty_iff, List.map_eq_nil_iff, Repair.unnamedPages,
    Repair.unnamedFrom_eq_nil_iff]

/-- A document whose only page is identified by an underscore and has no name. -/
def Repair.underscoreDocument : Json :=
  .object [("project", .object [("name", .string "Demo")]),
    ("pages", .array [.object [("id", .string "_")]])]

/-- What that document is repaired to. -/
def Repair.underscoreSpec : Spec where
  project := ⟨"Demo", some "demo"⟩
  architecture := none
  theme := none
  pages := [⟨"_", "", "/", []⟩]

/-- The rule that the repaired document breaks. -/
theorem Spec.violations_toJson_of_repair_underscore :
    Spec.repair Repair.underscoreDocument = .ok Repair.underscoreSpec ∧
      Spec.violations Repair.underscoreSpec.toJson = [.textMissing (.page 0) "name"] := by
  have h : Spec.repair Repair.underscoreDocument = .ok Repair.underscoreSpec := by decide +kernel
  exact ⟨h, (Spec.violations_toJson_of_repair h).1.trans (by decide +kernel)⟩

/-- Repair does not always end in a valid document. -/
theorem Spec.exists_repair_not_isValid :
    ¬ ∀ document spec, Spec.repair document = .ok spec → Spec.isValid spec.toJson = true := by
  intro h
  have hvalid := h Repair.underscoreDocument Repair.underscoreSpec (by decide +kernel)
  have hinvalid : Spec.isValid Repair.underscoreSpec.toJson = false := by decide +kernel
  rw [hinvalid] at hvalid
  exact Bool.false_ne_true hvalid

end Siteworks
