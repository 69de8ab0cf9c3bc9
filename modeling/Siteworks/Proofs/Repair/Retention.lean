import Mathlib
import Siteworks.Proofs.Repair.Elements
import Siteworks.Proofs.Repair.Faults

/-!
# What repair keeps of a document

Every field of a repaired spec is settled by the document: it is what the document provides for it
if that is well formed, and otherwise it is made of other fields in one way, or absent. The
identifiers of the pages, and those of the sections of each page, are different, and what has been
given to one element is never what the document provides for another.
-/

namespace Siteworks

open Text (allBlank)

/-- The identifiers of the elements that a list of items is repaired to: none is blank, no two are
the same, and every one is carried by its item or the first one that is free for it. -/
structure Repair.Distinguished (stem : String) (items : List Json) (ids : List String) : Prop where
  /-- No identifier is blank. -/
  filled : ∀ id ∈ ids, allBlank id.toList = false
  /-- The identifiers are different. -/
  nodup : ids.Nodup
  /-- Every identifier is carried by its item or the first one that is free. -/
  identified : Identified stem items ids

/-- The spec has what a document provides for it, and no more, but for identifiers and what is
missing and follows from the rest. -/
structure Spec.Retains (spec : Spec) (document : Json) : Prop where
  /-- The name of the project is the one provided. -/
  name : Schema.FieldAt document .project "name" (.string spec.project.name)
  /-- The name of the project is not blank. -/
  name_filled : allBlank spec.project.name.toList = false
  /-- A slug that can stand in a web address is kept. -/
  slug : ∀ slug, Schema.FieldAt document .project "slug" (.string slug) →
    Slug.isUrlSafe slug = true → spec.project.slug = some slug
  /-- Any other slug is made of the name. -/
  slug_made : (∀ slug, Schema.FieldAt document .project "slug" (.string slug) →
    Slug.isUrlSafe slug = false) → spec.project.slug = some (Slug.ofName spec.project.name)
  /-- The architecture is the one whose name is provided, if there is one. -/
  architecture : ∀ architecture, spec.architecture = some architecture ↔
    Json.at? ["architecture"] document = some (.string architecture.name)
  /-- The colour is the one provided, if there is one in hexadecimal notation. -/
  primaryColor : ∀ color, spec.theme.bind Theme.primaryColor = some color ↔
    Json.at? ["theme", "primaryColor"] document = some (.string color) ∧
      (Rgb.ofHex? color).isSome
  /-- The font is the one provided, if there is one. -/
  font : ∀ font, spec.theme.bind Theme.font = some font ↔
    Json.at? ["theme", "font"] document = some (.string font) ∧ allBlank font.toList = false
  /-- A theme without a colour and a font is left out. -/
  theme : ∀ theme ∈ spec.theme, (theme.primaryColor.isSome || theme.font.isSome) = true
  /-- Every item of the list of pages becomes a page. -/
  pages : List.Forall₂ (fun entry page => Page.Retains page entry.2 entry.1)
    (Repair.pageItems document).zipIdx spec.pages

namespace Repair

/-! ## The parts of a document -/

/-- What two keys lead to is what the second one leads to from the first. -/
theorem at?_pair_object (key key' : String) (root : List (String × Json)) :
    Json.at? [key, key'] (.object root) = (Json.lookup key root).bind (Json.at? [key']) := rfl

/-- The name and the slug of a repaired project are those of the document, or the slug is made of
the name. -/
theorem retains_of_project {root : List (String × Json)} {repaired : Project}
    (h : project root = .ok repaired) :
    (Schema.FieldAt (.object root) .project "name" (.string repaired.name) ∧
      allBlank repaired.name.toList = false) ∧
    (∀ slug, Schema.FieldAt (.object root) .project "slug" (.string slug) →
      Slug.isUrlSafe slug = true → repaired.slug = some slug) ∧
    ((∀ slug, Schema.FieldAt (.object root) .project "slug" (.string slug) →
      Slug.isUrlSafe slug = false) → repaired.slug = some (Slug.ofName repaired.name)) := by
  unfold project at h
  simp only at h
  split at h
  · cases h
  next name hname =>
    have hprovided := filledText?_name_eq_some_iff.mp hname
    split at h
    next slug hslug =>
      have hprovidedSlug := text?_slug_eq_some_iff.mp hslug
      have hsame : ∀ other, Schema.FieldAt (.object root) .project "slug" (.string other) →
          other = slug := fun other hother =>
        Option.some.inj ((text?_slug_eq_some_iff.mpr hother).symm.trans hslug)
      split at h
      next hsafe =>
        cases h
        refine ⟨hprovided, fun other hother _ => by rw [hsame other hother], fun hnone => ?_⟩
        cases hsafe.symm.trans (hnone slug hprovidedSlug)
      next hunsafe =>
        split at h
        · cases h
        · cases h
          refine ⟨hprovided, fun other hother hother' => ?_, fun _ => rfl⟩
          exact absurd (hsame other hother ▸ hother') hunsafe
    next hnone =>
      split at h
      · cases h
      · cases h
        refine ⟨hprovided, fun other hother _ => ?_, fun _ => rfl⟩
        cases hnone.symm.trans (text?_slug_eq_some_iff.mpr hother)

/-- An architecture is read from its name only. -/
theorem ofName?_text?_eq_some_iff {value : Option Json} {architecture : Architecture} :
    (value.bind Json.text?).bind Architecture.ofName? = some architecture ↔
      value = some (.string architecture.name) := by
  constructor
  · intro h
    obtain ⟨text, htext, hname⟩ := Option.bind_eq_some_iff.mp h
    obtain ⟨found, rfl, hfound⟩ := Option.bind_eq_some_iff.mp htext
    have hname : architecture.name = text := by simpa using List.find?_some hname
    cases found with
    | string other =>
      cases hfound
      rw [hname]
    | _ => cases hfound
  · rintro rfl
    exact Architecture.ofName?_name architecture

/-- A repaired theme has the colour and the font that are provided, where they are well formed. -/
theorem theme_bind_eq_some_iff (value : Json) :
    (∀ color, (theme value).bind Theme.primaryColor = some color ↔
      Json.at? ["primaryColor"] value = some (.string color) ∧ (Rgb.ofHex? color).isSome) ∧
    ∀ font, (theme value).bind Theme.font = some font ↔
      Json.at? ["font"] value = some (.string font) ∧ allBlank font.toList = false := by
  cases value with
  | object members =>
    have hcolor : ∀ color, ((Json.lookup "primaryColor" members).bind Json.text?).filter
        (fun text => (Rgb.ofHex? text).isSome) = some color ↔
          Json.lookup "primaryColor" members = some (.string color) ∧
            (Rgb.ofHex? color).isSome := by
      intro color
      rw [Option.filter_eq_some_iff, Option.bind_eq_some_iff]
      simp only [Json.text?_eq_some_iff, exists_eq_right]
    simp only [Json.at?_object, ← hcolor, ← Json.filledText?_eq_some_iff]
    unfold theme
    simp only [Json.members?]
    split
    next hnone =>
      simp only [Bool.and_eq_true, Option.isNone_iff_eq_none] at hnone
      simp [hnone.1, hnone.2]
    next => exact ⟨fun _ => Iff.rfl, fun _ => Iff.rfl⟩
  | _ => simp [theme, Json.members?, Json.at?]

/-- The pages of a document are what the items of its list of pages are repaired to. -/
theorem elements_of_pages {root : List (String × Json)} {repaired : List Page}
    (h : pages root = .ok repaired) :
    Identified "page" (pageItems (.object root)) (repaired.map Page.id) ∧
      List.Forall₂ (fun entry page => Page.Retains page entry.2 entry.1 ∧
        Identified ("sec_" ++ page.id) (sectionItems entry.1) (page.sections.map Section.id))
        (pageItems (.object root)).zipIdx repaired := by
  obtain ⟨-, -, hfrom⟩ := pages_eq_ok h
  obtain ⟨hids, hretained⟩ := elements_of_pagesFrom hfrom
  exact ⟨hids ▸ identified_idsFrom _ _, hretained⟩

end Repair

/-! ## The whole document -/

/-- The identifiers of the pages of a repaired spec, and of the sections of each page, are not blank
and different. Every element has the identifier that its item carries, or else the stem with the
least number not below its position that no item carries and no element before it has. -/
theorem Spec.distinguished_of_repair {document : Json} {spec : Spec}
    (h : Spec.repair document = .ok spec) :
    Repair.Distinguished "page" (Repair.pageItems document) (spec.pages.map Page.id) ∧
      List.Forall₂ (fun item page => Repair.Distinguished ("sec_" ++ page.id)
        (Repair.sectionItems item) (page.sections.map Section.id))
        (Repair.pageItems document) spec.pages := by
  have hsettled := Spec.settled_of_repair h
  obtain ⟨root, rfl, -, hpages, -⟩ := Spec.repair_eq_ok h
  obtain ⟨hids, helements⟩ := Repair.elements_of_pages hpages
  refine ⟨⟨?_, hsettled.pages_nodup, hids⟩, ?_⟩
  · exact List.forall_mem_map.mpr fun page hpage => (hsettled.pages_settled page hpage).id_filled
  · have hboth := (List.forall₂_and_left _ _).mpr ⟨hsettled.pages_settled, helements.flip⟩
    rw [← List.zipIdx_map_fst 0 (Repair.pageItems (.object root)), List.forall₂_map_left_iff]
    refine hboth.flip.imp fun entry page hpage => ?_
    obtain ⟨hkept, -, hsections⟩ := hpage
    refine ⟨List.forall_mem_map.mpr fun part hpart => ?_, hkept.sections_nodup, hsections⟩
    exact (hkept.sections_settled part hpart).id_filled

/-- A document with an identifier that looks as if it were generated for another element, among the
pages and among the sections of one page. -/
def Repair.crowdedDocument : Json :=
  .object [("project", .object [("name", .string "Demo")]),
    ("pages", .array [
      .object [("sections", .array [.object [("kind", .string "hero")],
        .object [("id", .string "sec_page_2_1"), ("kind", .string "cta")],
        .object [("kind", .string "footer")]])],
      .object [],
      .object [("id", .string "page_1")]])]

/-- What that document is repaired to. -/
def Repair.crowdedSpec : Spec where
  project := ⟨"Demo", some "demo"⟩
  architecture := none
  theme := none
  pages := [
    ⟨"page_2", "Page 2", "/", [⟨"sec_page_2_2", "hero", none, none⟩,
      ⟨"sec_page_2_1", "cta", none, none⟩, ⟨"sec_page_2_3", "footer", none, none⟩]⟩,
    ⟨"page_3", "Page 3", "/page_3", []⟩,
    ⟨"page_1", "Page 1", "/page_1", []⟩]

/-- The first page and the first section are numbered 2, since the number 1 is taken further down. -/
theorem Spec.distinguished_of_repair_crowded :
    Spec.repair Repair.crowdedDocument = .ok Repair.crowdedSpec ∧
      Repair.Distinguished "page" (Repair.pageItems Repair.crowdedDocument)
        ["page_2", "page_3", "page_1"] := by
  have h : Spec.repair Repair.crowdedDocument = .ok Repair.crowdedSpec := by decide +kernel
  exact ⟨h, (Spec.distinguished_of_repair h).1⟩

/-- A repaired spec has everything well formed that the document provides for it, as it stands, and
nothing else but what is made of it. -/
theorem Spec.retains_of_repair {document : Json} {spec : Spec}
    (h : Spec.repair document = .ok spec) : spec.Retains document := by
  have hsettled := Spec.settled_of_repair h
  obtain ⟨root, rfl, hproject, hpages, harchitecture, htheme⟩ := Spec.repair_eq_ok h
  obtain ⟨⟨hname, hfilled⟩, hslug, hmade⟩ := Repair.retains_of_project hproject
  obtain ⟨-, helements⟩ := Repair.elements_of_pages hpages
  refine ⟨hname, hfilled, hslug, hmade, fun architecture => ?_, fun color => ?_, fun font => ?_,
    fun theme hmem => (hsettled.theme_settled theme hmem).carries,
    helements.imp fun _ _ helement => helement.1⟩
  · rw [harchitecture, Repair.ofName?_text?_eq_some_iff, Json.at?_object]
  · rw [htheme, Repair.at?_pair_object]
    cases Json.lookup "theme" root with
    | none => simp
    | some value => exact (Repair.theme_bind_eq_some_iff value).1 color
  · rw [htheme, Repair.at?_pair_object]
    cases Json.lookup "theme" root with
    | none => simp
    | some value => exact (Repair.theme_bind_eq_some_iff value).2 font

/-- A document with well-formed and malformed fields of every kind. -/
def Repair.mixedDocument : Json :=
  .object [("architecture", .string "blog"),
    ("project", .object [("slug", .string "Bad Slug"), ("name", .string " Demo ")]),
    ("theme", .object [("font", .string " Inter"), ("primaryColor", .string "blue")]),
    ("pages", .array [
      .object [("name", .number (.integer 7)), ("route", .string " "), ("sections", .object [])],
      .object [("id", .string "about__us"), ("sections", .array [
        .object [("kind", .string " hero"), ("variant", .string ""),
          ("content", .object [("b", .null), ("a", .array [.number (.integer 1)])])],
        .object [("kind", .string "cta"), ("variant", .string "wide"), ("content", .array [])]])]])]

/-- What that document is repaired to. -/
def Repair.mixedSpec : Spec where
  project := ⟨" Demo ", some "demo"⟩
  architecture := none
  theme := some ⟨none, some " Inter"⟩
  pages := [
    ⟨"page_1", "Page 1", "/", []⟩,
    ⟨"about__us", "About Us", "/about__us", [
      ⟨"sec_about__us_1", " hero", none, some [("b", .null), ("a", .array [.number (.integer 1)])]⟩,
      ⟨"sec_about__us_2", "cta", some "wide", none⟩]⟩]

/-- The repaired spec keeps the font, the kinds, the variant and the content of that document, and
nothing of what is malformed. -/
theorem Spec.retains_of_repair_mixed :
    Spec.repair Repair.mixedDocument = .ok Repair.mixedSpec ∧
      Repair.mixedSpec.Retains Repair.mixedDocument := by
  have h : Spec.repair Repair.mixedDocument = .ok Repair.mixedSpec := by decide +kernel
  exact ⟨h, Spec.retains_of_repair h⟩

end Siteworks
