import Mathlib
import Siteworks.Proofs.Repair.Agreement
import Siteworks.Proofs.Repair.Validity

/-!
# Specs that repair keeps

A spec is settled if it has all that repair would fill in and nothing that repair would leave out.
Repair answers with settled specs only, and a settled spec, written as a document, is repaired to
itself. So what has been repaired once is not changed by a second repair.
-/

namespace Siteworks

open Text (allBlank)

/-- A section that repair keeps. -/
structure Section.Settled (part : Section) : Prop where
  /-- The identifier is not blank. -/
  id_filled : allBlank part.id.toList = false
  /-- The kind is not blank. -/
  kind_filled : allBlank part.kind.toList = false
  /-- No variant is blank. -/
  variant_filled : ∀ variant ∈ part.variant, allBlank variant.toList = false

/-- A page that repair keeps. -/
structure Page.Settled (page : Page) : Prop where
  /-- The identifier is not blank. -/
  id_filled : allBlank page.id.toList = false
  /-- A blank name is what the identifier makes. -/
  name_named : allBlank page.name.toList = true → page.name = Repair.titleCase page.id
  /-- The route is not blank. -/
  route_filled : allBlank page.route.toList = false
  /-- Every section is kept. -/
  sections_settled : ∀ part ∈ page.sections, part.Settled
  /-- No two sections carry one identifier. -/
  sections_nodup : (page.sections.map Section.id).Nodup

/-- A theme that repair keeps. -/
structure Theme.Settled (theme : Theme) : Prop where
  /-- The colour is one. -/
  color_hex : ∀ color ∈ theme.primaryColor, (Rgb.ofHex? color).isSome
  /-- The font has a name. -/
  font_filled : ∀ font ∈ theme.font, allBlank font.toList = false
  /-- There is a colour or a font. -/
  carries : (theme.primaryColor.isSome || theme.font.isSome) = true

/-- A spec that repair keeps. -/
structure Spec.Settled (spec : Spec) : Prop where
  /-- The project has a name. -/
  name_filled : allBlank spec.project.name.toList = false
  /-- The project has a slug for web addresses. -/
  slug_safe : ∃ slug, spec.project.slug = some slug ∧ Slug.isUrlSafe slug = true
  /-- The theme is kept. -/
  theme_settled : ∀ theme ∈ spec.theme, theme.Settled
  /-- There is a page. -/
  pages_ne_nil : spec.pages ≠ []
  /-- Every page is kept. -/
  pages_settled : ∀ page ∈ spec.pages, page.Settled
  /-- No two pages carry one identifier. -/
  pages_nodup : (spec.pages.map Page.id).Nodup

/-! ## Repair answers with settled specs -/

namespace Repair

/-- Repaired sections are settled, and no identifier among them has been seen or comes twice. -/
theorem settled_of_sectionsFrom {pageId : String} {number : Nat} {taken seen : List String}
    {items : List Json} {parts : List Section}
    (h : sectionsFrom pageId number taken items = .ok parts) (hids : Reserved seen taken items) :
    (∀ part ∈ parts, part.Settled) ∧ (parts.map Section.id).Nodup ∧
      ∀ part ∈ parts, part.id ∉ seen := by
  induction items generalizing number taken seen parts with
  | nil => cases h; simp
  | cons item rest ih =>
    unfold sectionsFrom at h
    split at h
    · cases h
    next first taken' hfirst =>
      split at h
      · cases h
      next others hothers =>
        cases h
        obtain ⟨members, rfl, hid, hkind, hvariant, -⟩ := sectionAt_eq_ok hfirst
        obtain ⟨hseen, hids'⟩ := hids.identify hid
        obtain ⟨hsettled, hnodup, hfresh⟩ := ih hothers hids'
        have hfirstSettled : first.Settled :=
          ⟨allBlank_of_identify hid, Json.allBlank_of_filledText? hkind,
            fun variant hv => Json.allBlank_of_filledText? (hvariant ▸ hv)⟩
        have hfirstFresh : first.id ∉ others.map Section.id := by
          intro hmem
          obtain ⟨part, hpart, he⟩ := List.mem_map.mp hmem
          exact hfresh part hpart (by simp [he])
        refine ⟨List.forall_mem_cons.mpr ⟨hfirstSettled, hsettled⟩,
          List.nodup_cons.mpr ⟨hfirstFresh, hnodup⟩, List.forall_mem_cons.mpr ⟨hseen, ?_⟩⟩
        exact fun part hpart hs => hfresh part hpart (List.mem_append_left _ hs)

/-- The repaired sections of a page are settled and carry different identifiers. -/
theorem settled_of_sections {pageId : String} {value : Option Json} {parts : List Section}
    (h : sections pageId value = .ok parts) :
    (∀ part ∈ parts, part.Settled) ∧ (parts.map Section.id).Nodup := by
  unfold sections at h
  split at h
  · cases h; simp
  next items _ =>
    split at h
    · cases h
    next hnone =>
      obtain ⟨hsettled, hnodup, -⟩ := settled_of_sectionsFrom h (Reserved.initial hnone)
      exact ⟨hsettled, hnodup⟩

/-- The route that a page gets is not blank. -/
theorem allBlank_defaultRoute (index : Nat) (id : String) :
    allBlank (defaultRoute index id).toList = false := by
  have hslash : '/' ∈ (defaultRoute index id).toList := by
    unfold defaultRoute
    split <;> simp
  rw [← Bool.not_eq_true, Text.allBlank_iff]
  exact fun hall => absurd (hall '/' hslash) (by decide)

/-- A repaired page is settled. -/
theorem settled_of_pageAt {index : Nat} {taken taken' : List String} {item : Json} {page : Page}
    (h : pageAt index taken item = .ok (page, taken')) : page.Settled := by
  obtain ⟨members, rfl, hid, hname, hroute, hsections⟩ := pageAt_eq_ok h
  obtain ⟨hsettled, hnodup⟩ := settled_of_sections hsections
  refine ⟨allBlank_of_identify hid, fun hblank => ?_, ?_, hsettled, hnodup⟩
  · cases hn : Json.filledText? "name" members with
    | none => rw [hname, hn, Option.getD_none]
    | some name =>
      rw [hname, hn, Option.getD_some, Json.allBlank_of_filledText? hn] at hblank
      exact absurd hblank Bool.false_ne_true
  · rw [hroute]
    cases hr : Json.filledText? "route" members with
    | none => exact allBlank_defaultRoute index page.id
    | some route => exact Json.allBlank_of_filledText? hr

/-- Repaired pages are settled, one for each item, and no identifier among them has been seen or
comes twice. -/
theorem settled_of_pagesFrom {number : Nat} {taken seen : List String} {items : List Json}
    {pages : List Page} (h : pagesFrom number taken items = .ok pages)
    (hids : Reserved seen taken items) :
    pages.length = items.length ∧ (∀ page ∈ pages, page.Settled) ∧ (pages.map Page.id).Nodup ∧
      ∀ page ∈ pages, page.id ∉ seen := by
  induction items generalizing number taken seen pages with
  | nil => cases h; simp
  | cons item rest ih =>
    unfold pagesFrom at h
    split at h
    · cases h
    next first taken' hfirst =>
      split at h
      · cases h
      next others hothers =>
        cases h
        obtain ⟨members, rfl, hid, -⟩ := pageAt_eq_ok hfirst
        obtain ⟨hseen, hids'⟩ := hids.identify hid
        obtain ⟨hlength, hsettled, hnodup, hfresh⟩ := ih hothers hids'
        have hfirstFresh : first.id ∉ others.map Page.id := by
          intro hmem
          obtain ⟨page, hpage, he⟩ := List.mem_map.mp hmem
          exact hfresh page hpage (by simp [he])
        refine ⟨congrArg (· + 1) hlength,
          List.forall_mem_cons.mpr ⟨settled_of_pageAt hfirst, hsettled⟩,
          List.nodup_cons.mpr ⟨hfirstFresh, hnodup⟩, List.forall_mem_cons.mpr ⟨hseen, ?_⟩⟩
        exact fun page hpage hs => hfresh page hpage (List.mem_append_left _ hs)

/-- A repaired theme is settled. -/
theorem settled_of_theme {value : Json} {repaired : Theme} (h : theme value = some repaired) :
    repaired.Settled := by
  obtain ⟨hcolor, hfont⟩ := theme_eq_some h
  refine ⟨hcolor, hfont, ?_⟩
  unfold theme at h
  split at h
  · cases h
  · simp only at h
    split at h
    · cases h
    next hnone =>
      cases h
      simpa only [Bool.not_eq_true, Bool.and_eq_false_iff, Option.isNone_eq_false_iff,
        Bool.or_eq_true] using hnone

end Repair

/-- A repaired spec is settled. -/
theorem Spec.settled_of_repair {document : Json} {spec : Spec}
    (h : Spec.repair document = .ok spec) : spec.Settled := by
  obtain ⟨root, -, hproject, hpages, -, htheme⟩ := Spec.repair_eq_ok h
  obtain ⟨hname, hslug⟩ := Repair.project_eq_ok hproject
  obtain ⟨hne, hnone, hfrom⟩ := Repair.pages_eq_ok hpages
  obtain ⟨hlength, hsettled, hnodup, -⟩ :=
    Repair.settled_of_pagesFrom hfrom (Repair.Reserved.initial hnone)
  refine ⟨hname, hslug, fun theme hmem => ?_, fun hnil => ?_, hsettled, hnodup⟩
  · obtain ⟨value, -, hvalue⟩ := Option.bind_eq_some_iff.mp (htheme ▸ hmem)
    exact Repair.settled_of_theme hvalue
  · rw [hnil] at hlength
    exact hne (List.eq_nil_of_length_eq_zero hlength.symm)

/-! ## Settled specs are kept -/

/-- The document of a settled section spells it out. -/
theorem Section.Settled.spelledOut {part : Section} (h : part.Settled) :
    part.SpelledOut part.toJson :=
  .object (Json.filledText?_eq_some_iff.mpr ⟨rfl, h.id_filled⟩)
    (Json.filledText?_eq_some_iff.mpr ⟨rfl, h.kind_filled⟩) part.lookup_variant_members
    h.variant_filled part.lookup_content_members

/-- The documents of values spell them out if each of them does. -/
theorem forall₂_map_right {α : Type} {R : α → Json → Prop} {toJson : α → Json} {values : List α}
    (h : ∀ value ∈ values, R value (toJson value)) : List.Forall₂ R values (values.map toJson) :=
  List.forall₂_map_right_iff.mpr (List.forall₂_same.mpr h)

/-- The document of a settled page carries its identifier. -/
theorem Page.Settled.itemId?_toJson {page : Page} (h : page.Settled) :
    Violation.itemId? page.toJson = some page.id := by
  change Json.filledText? "id" page.members = some page.id
  exact Json.filledText?_eq_some_iff.mpr ⟨rfl, h.id_filled⟩

/-- A settled page, written as a document, is repaired to itself, whatever identifiers are taken. -/
theorem Repair.pageAt_toJson {page : Page} (h : page.Settled) (index : Nat)
    (taken : List String) : pageAt index taken page.toJson = .ok (page, taken) := by
  have hname : (Json.filledText? "name" page.members).getD (titleCase page.id) = page.name := by
    have hfound : Json.filledText? "name" page.members =
        if allBlank page.name.toList then none else some page.name := rfl
    rw [hfound]
    split
    next hblank => exact (h.name_named hblank).symm
    next => rfl
  exact pageAt_of_members (Json.filledText?_eq_some_iff.mpr ⟨rfl, h.id_filled⟩) hname
    (Json.filledText?_eq_some_iff.mpr ⟨rfl, h.route_filled⟩) rfl
    (forall₂_map_right fun part hpart => (h.sections_settled part hpart).spelledOut)
    h.sections_nodup index taken

/-- The document of a settled theme spells it out. -/
theorem Theme.Settled.spelledOut {theme : Theme} (h : theme.Settled) :
    theme.SpelledOut theme.toJson :=
  .object (by simp [Theme.members, Json.lookup_append]) h.color_hex
    (by simp [Theme.members, Json.lookup_append]) h.font_filled

/-- The document of a settled spec's project spells it out. -/
theorem Spec.Settled.project_spelledOut {spec : Spec} (h : spec.Settled) :
    spec.project.SpelledOut spec.project.toJson := by
  obtain ⟨slug, hslug, hsafe⟩ := h.slug_safe
  refine .object (Json.filledText?_eq_some_iff.mpr ⟨rfl, h.name_filled⟩)
    (Json.lookup_textMember "slug" "slug" spec.project.slug) fun text htext => ?_
  rw [hslug] at htext
  cases htext
  exact hsafe

/-- A settled spec, written as a document, is repaired to itself. -/
theorem Spec.repair_toJson {spec : Spec} (h : spec.Settled) :
    Spec.repair spec.toJson = .ok spec := by
  obtain ⟨slug, hslug, -⟩ := h.slug_safe
  have hproject : Repair.project spec.members = .ok spec.project := by
    rw [Repair.project_of_spelledOut rfl h.project_spelledOut, if_neg (by simp [hslug]), hslug,
      Option.getD_some, ← hslug]
  have hpages : Repair.pages spec.members = .ok spec.pages :=
    Repair.pages_of_forall₂ (R := fun page item => page.Settled ∧ item = page.toJson)
      (fun page item ⟨hpage, he⟩ => he ▸ hpage.itemId?_toJson)
      (fun page item ⟨hpage, he⟩ => he ▸ Repair.pageAt_toJson hpage) spec.lookup_pages_members
      (forall₂_map_right fun page hpage => ⟨h.pages_settled page hpage, rfl⟩) h.pages_ne_nil
      h.pages_nodup
  have harchitecture : ((Json.lookup "architecture" spec.members).bind Json.text?).bind
      Architecture.ofName? = spec.architecture := by
    rw [Spec.lookup_architecture_members]
    cases spec.architecture with
    | none => rfl
    | some architecture => exact Architecture.ofName?_name architecture
  have htheme : (Json.lookup "theme" spec.members).bind Repair.theme = spec.theme := by
    rw [Spec.lookup_theme_members]
    cases ht : spec.theme with
    | none => rfl
    | some theme =>
      have hsettled := h.theme_settled theme ht
      rw [Option.map_some, Option.bind_some, Repair.theme_of_spelledOut hsettled.spelledOut,
        Option.filter_some, hsettled.carries, if_pos rfl]
  simp only [Spec.repair, Spec.toJson, Json.members?, hproject, hpages, harchitecture, htheme]

/-- Repairing the document of a repaired spec gives that spec again. -/
theorem Spec.repair_toJson_of_repair {document : Json} {spec : Spec}
    (h : Spec.repair document = .ok spec) : Spec.repair spec.toJson = .ok spec :=
  Spec.repair_toJson (Spec.settled_of_repair h)

/-- A document that leaves much to repair: identifiers, one of which is taken, names, one of which
cannot be made, routes, the slug, and a theme without a colour or a font. -/
def Repair.sparseDocument : Json :=
  .object [("project", .object [("name", .string "My Cool Site!")]),
    ("theme", .object [("primaryColor", .string "blue"), ("font", .null)]),
    ("pages", .array [.object [("id", .string "page_2")],
      .object [("sections", .array [.object [("kind", .string "hero"), ("content", .object [])]])],
      .object [("id", .string "_")]])]

/-- What that document is repaired to. -/
def Repair.sparseSpec : Spec where
  project := ⟨"My Cool Site!", some "my-cool-site"⟩
  architecture := none
  theme := none
  pages := [⟨"page_2", "Page 2", "/", []⟩,
    ⟨"page_3", "Page 3", "/page_3", [⟨"sec_page_3_1", "hero", none, some []⟩]⟩,
    ⟨"_", "", "/_", []⟩]

/-- The document that leaves much to repair is repaired once. -/
theorem Spec.repair_toJson_of_repair_sparse :
    Spec.repair Repair.sparseDocument = .ok Repair.sparseSpec ∧
      Spec.repair Repair.sparseSpec.toJson = .ok Repair.sparseSpec := by
  have h : Spec.repair Repair.sparseDocument = .ok Repair.sparseSpec := by decide +kernel
  exact ⟨h, Spec.repair_toJson_of_repair h⟩

end Siteworks
