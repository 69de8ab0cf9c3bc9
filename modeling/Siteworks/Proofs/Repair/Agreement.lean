import Mathlib
import Siteworks.Proofs.Repair.Identifiers
import Siteworks.Spec.Decode

/-!
# Repair and the direct reading

A document spells out a spec if every field of the spec is where it belongs and meets the rules.
A valid document spells out a spec; the direct reading reads that spec; and repair answers with it,
completed by a slug and without a theme that carries nothing, unless no slug can be made.
-/

namespace Siteworks

open Text (allBlank)
open Violation (itemId?)

/-- The document of a section has these fields, and they meet the rules. -/
inductive Section.SpelledOut : Section → Json → Prop
  | object {part : Section} {members : List (String × Json)}
      (id : Json.filledText? "id" members = some part.id)
      (kind : Json.filledText? "kind" members = some part.kind)
      (variant : Json.lookup "variant" members = part.variant.map .string)
      (variant_filled : ∀ text ∈ part.variant, allBlank text.toList = false)
      (content : Json.lookup "content" members = part.content.map .object) :
      part.SpelledOut (.object members)

/-- The document of a page has these fields, and they meet the rules. -/
inductive Page.SpelledOut : Page → Json → Prop
  | object {page : Page} {members : List (String × Json)} {items : List Json}
      (id : Json.filledText? "id" members = some page.id)
      (name : Json.filledText? "name" members = some page.name)
      (route : Json.filledText? "route" members = some page.route)
      (sections : Json.lookup "sections" members = some (.array items))
      (parts : List.Forall₂ Section.SpelledOut page.sections items)
      (nodup : (page.sections.map Section.id).Nodup) :
      page.SpelledOut (.object members)

/-- The document of a theme has these fields, and they meet the rules. -/
inductive Theme.SpelledOut : Theme → Json → Prop
  | object {theme : Theme} {members : List (String × Json)}
      (color : Json.lookup "primaryColor" members = theme.primaryColor.map .string)
      (color_hex : ∀ text ∈ theme.primaryColor, (Rgb.ofHex? text).isSome)
      (font : Json.lookup "font" members = theme.font.map .string)
      (font_filled : ∀ text ∈ theme.font, allBlank text.toList = false) :
      theme.SpelledOut (.object members)

/-- The document of a project has these fields, and they meet the rules. -/
inductive Project.SpelledOut : Project → Json → Prop
  | object {project : Project} {members : List (String × Json)}
      (name : Json.filledText? "name" members = some project.name)
      (slug : Json.lookup "slug" members = project.slug.map .string)
      (slug_safe : ∀ text ∈ project.slug, Slug.isUrlSafe text = true) :
      project.SpelledOut (.object members)

/-- The document of a spec has these fields, and they meet the rules. -/
inductive Spec.SpelledOut : Spec → Json → Prop
  | object {spec : Spec} {members : List (String × Json)} {project : Json} {items : List Json}
      (project_at : Json.lookup "project" members = some project)
      (project_spelled : spec.project.SpelledOut project)
      (architecture :
        Json.lookup "architecture" members = spec.architecture.map fun a => .string a.name)
      (theme : Option.Rel Theme.SpelledOut spec.theme (Json.lookup "theme" members))
      (pages_at : Json.lookup "pages" members = some (.array items))
      (pages : List.Forall₂ Page.SpelledOut spec.pages items)
      (pages_ne_nil : spec.pages ≠ [])
      (nodup : (spec.pages.map Page.id).Nodup) :
      spec.SpelledOut (.object members)

/-! ## A valid document spells out a spec -/

namespace Violation

/-- A required text that is not reported is there. -/
theorem exists_of_ofRequired {position : Position} {field : String}
    {members : List (String × Json)} (h : ofRequired position field members = []) :
    ∃ text, Json.filledText? field members = some text := by
  unfold ofRequired at h
  split at h
  next text htext => exact ⟨text, htext⟩
  next => cases h

/-- An identifier that is not reported is there and has not been seen. -/
private theorem exists_fresh_id {members : List (String × Json)} {seen : List String}
    {missing : Violation} {duplicate : String → Violation}
    (h : (match Json.filledText? "id" members with
      | none => [missing]
      | some id => if id ∈ seen then [duplicate id] else []) = []) :
    ∃ id, Json.filledText? "id" members = some id ∧ id ∉ seen := by
  split at h
  next => cases h
  next id hid =>
    split at h
    next => cases h
    next hseen => exact ⟨id, hid, hseen⟩

/-- A section without violations is spelled out under an identifier that has not been seen. -/
theorem exists_spelledOut_of_ofSectionMembers {page index : Nat} {seen : List String}
    {members : List (String × Json)} (h : ofSectionMembers page index seen members = []) :
    ∃ part : Section, part.SpelledOut (.object members) ∧ part.id ∉ seen := by
  simp only [ofSectionMembers, List.append_eq_nil_iff] at h
  obtain ⟨⟨⟨hid, hkind⟩, hvariant⟩, hcontent⟩ := h
  obtain ⟨id, hid, hseen⟩ := exists_fresh_id hid
  obtain ⟨kind, hkind⟩ := exists_of_ofRequired hkind
  obtain ⟨variant, hvariant, hfilled⟩ : ∃ variant : Option String,
      Json.lookup "variant" members = variant.map .string ∧
        ∀ text ∈ variant, allBlank text.toList = false := by
    unfold ofVariant at hvariant
    split at hvariant
    next hnone => exact ⟨none, hnone, nofun⟩
    next text htext =>
      split at hvariant
      next => cases hvariant
      next hblank =>
        refine ⟨some text, htext, fun other hother => ?_⟩
        cases hother
        simpa using hblank
    next => cases hvariant
  obtain ⟨content, hcontent⟩ : ∃ content : Option (List (String × Json)),
      Json.lookup "content" members = content.map .object := by
    unfold ofContent at hcontent
    split at hcontent
    next hnone => exact ⟨none, hnone⟩
    next content hsome => exact ⟨some content, hsome⟩
    next => cases hcontent
  exact ⟨⟨id, kind, variant, content⟩, .object hid hkind hvariant hfilled hcontent, hseen⟩

/-- A spelled-out section carries its identifier. -/
theorem itemId?_of_section {part : Section} {item : Json} (h : part.SpelledOut item) :
    itemId? item = some part.id := by
  cases h with
  | object id => exact id

/-- A spelled-out page carries its identifier. -/
theorem itemId?_of_page {page : Page} {item : Json} (h : page.SpelledOut item) :
    itemId? item = some page.id := by
  cases h with
  | object id => exact id

/-- Sections without violations are spelled out under different identifiers. -/
theorem exists_spelledOut_of_ofSections {page index : Nat} {seen : List String} {items : List Json}
    (h : ofSections page index seen items = []) :
    ∃ parts : List Section, List.Forall₂ Section.SpelledOut parts items ∧
      (parts.map Section.id).Nodup ∧ ∀ part ∈ parts, part.id ∉ seen := by
  induction items generalizing index seen with
  | nil => exact ⟨[], .nil, by simp, by simp⟩
  | cons item rest ih =>
    rw [ofSections, List.append_eq_nil_iff] at h
    obtain ⟨hfirst, hrest⟩ := h
    cases item with
    | object members =>
      obtain ⟨part, hpart, hseen⟩ := exists_spelledOut_of_ofSectionMembers hfirst
      rw [itemId?_of_section hpart] at hrest
      obtain ⟨parts, hparts, hnodup, hfresh⟩ := ih hrest
      have hne : part.id ∉ parts.map Section.id := by
        intro hmem
        obtain ⟨other, hother, he⟩ := List.mem_map.mp hmem
        exact hfresh other hother (by simp [he])
      refine ⟨part :: parts, .cons hpart hparts, List.nodup_cons.mpr ⟨hne, hnodup⟩,
        List.forall_mem_cons.mpr ⟨hseen, fun other hother hs => ?_⟩⟩
      exact hfresh other hother (List.mem_append_left _ hs)
    | _ => cases hfirst

/-- A page without violations is spelled out under an identifier that has not been seen. -/
theorem exists_spelledOut_of_ofPageMembers {index : Nat} {seen : List String}
    {members : List (String × Json)} (h : ofPageMembers index seen members = []) :
    ∃ page : Page, page.SpelledOut (.object members) ∧ page.id ∉ seen := by
  simp only [ofPageMembers, List.append_eq_nil_iff] at h
  obtain ⟨⟨⟨hid, hname⟩, hroute⟩, hsections⟩ := h
  obtain ⟨id, hid, hseen⟩ := exists_fresh_id hid
  obtain ⟨name, hname⟩ := exists_of_ofRequired hname
  obtain ⟨route, hroute⟩ := exists_of_ofRequired hroute
  split at hsections
  next => cases hsections
  next items hitems =>
    obtain ⟨parts, hparts, hnodup, -⟩ := exists_spelledOut_of_ofSections hsections
    exact ⟨⟨id, name, route, parts⟩, .object hid hname hroute hitems hparts hnodup, hseen⟩
  next => cases hsections

/-- Pages without violations are spelled out under different identifiers. -/
theorem exists_spelledOut_of_ofPages {index : Nat} {seen : List String} {items : List Json}
    (h : ofPages index seen items = []) :
    ∃ pages : List Page, List.Forall₂ Page.SpelledOut pages items ∧
      (pages.map Page.id).Nodup ∧ ∀ page ∈ pages, page.id ∉ seen := by
  induction items generalizing index seen with
  | nil => exact ⟨[], .nil, by simp, by simp⟩
  | cons item rest ih =>
    rw [ofPages, List.append_eq_nil_iff] at h
    obtain ⟨hfirst, hrest⟩ := h
    cases item with
    | object members =>
      obtain ⟨page, hpage, hseen⟩ := exists_spelledOut_of_ofPageMembers hfirst
      rw [itemId?_of_page hpage] at hrest
      obtain ⟨pages, hpages, hnodup, hfresh⟩ := ih hrest
      have hne : page.id ∉ pages.map Page.id := by
        intro hmem
        obtain ⟨other, hother, he⟩ := List.mem_map.mp hmem
        exact hfresh other hother (by simp [he])
      refine ⟨page :: pages, .cons hpage hpages, List.nodup_cons.mpr ⟨hne, hnodup⟩,
        List.forall_mem_cons.mpr ⟨hseen, fun other hother hs => ?_⟩⟩
      exact hfresh other hother (List.mem_append_left _ hs)
    | _ => cases hfirst

/-- A project without violations is spelled out. -/
theorem exists_spelledOut_of_ofProject {root : List (String × Json)} (h : ofProject root = []) :
    ∃ value, Json.lookup "project" root = some value ∧
      ∃ project : Project, project.SpelledOut value := by
  unfold ofProject at h
  split at h
  next => cases h
  next members hmembers =>
    obtain ⟨hname, hslug⟩ := List.append_eq_nil_iff.mp h
    obtain ⟨name, hname⟩ := exists_of_ofRequired hname
    refine ⟨_, hmembers, ?_⟩
    split at hslug
    next hnone => exact ⟨⟨name, none⟩, .object hname hnone nofun⟩
    next slug hsome =>
      split at hslug
      next hsafe =>
        refine ⟨⟨name, some slug⟩, .object hname hsome fun text htext => ?_⟩
        cases htext
        exact hsafe
      next => cases hslug
    next => cases hslug
  next => cases h

/-- An architecture without violations is one of those there are. -/
theorem exists_name_of_ofArchitecture {root : List (String × Json)}
    (h : ofArchitecture root = []) :
    ∃ architecture : Option Architecture,
      Json.lookup "architecture" root = architecture.map fun a => .string a.name := by
  unfold ofArchitecture at h
  split at h
  next hnone => exact ⟨none, hnone⟩
  next value hvalue =>
    split at h
    next architecture hfound =>
      obtain ⟨text, htext, hname⟩ := Option.bind_eq_some_iff.mp hfound
      refine ⟨some architecture, ?_⟩
      have hname : architecture.name = text := by simpa using List.find?_some hname
      cases value with
      | string found =>
        cases htext
        rw [hvalue, ← hname]
        rfl
      | _ => cases htext
    next => cases h

/-- A theme without violations is spelled out, if there is one. -/
theorem exists_spelledOut_of_ofTheme {root : List (String × Json)} (h : ofTheme root = []) :
    ∃ theme : Option Theme,
      Option.Rel Theme.SpelledOut theme (Json.lookup "theme" root) := by
  unfold ofTheme at h
  split at h
  next hnone => exact ⟨none, hnone ▸ .none⟩
  next members hmembers =>
    obtain ⟨hcolor, hfont⟩ := List.append_eq_nil_iff.mp h
    obtain ⟨color, hcolor, hhex⟩ : ∃ color : Option String,
        Json.lookup "primaryColor" members = color.map .string ∧
          ∀ text ∈ color, (Rgb.ofHex? text).isSome := by
      unfold ofColor at hcolor
      split at hcolor
      next hnone => exact ⟨none, hnone, nofun⟩
      next value hvalue =>
        split at hcolor
        next rgb hrgb =>
          obtain ⟨text, htext, hhex⟩ := Option.bind_eq_some_iff.mp hrgb
          cases value with
          | string found =>
            cases htext
            refine ⟨some text, hvalue, fun other hother => ?_⟩
            cases hother
            exact Option.isSome_iff_exists.mpr ⟨rgb, hhex⟩
          | _ => cases htext
        next => cases hcolor
    obtain ⟨font, hfont, hfilled⟩ : ∃ font : Option String,
        Json.lookup "font" members = font.map .string ∧
          ∀ text ∈ font, allBlank text.toList = false := by
      unfold ofFont at hfont
      split at hfont
      next hnone => exact ⟨none, hnone, nofun⟩
      next =>
        split at hfont
        next text htext =>
          obtain ⟨hlookup, hblank⟩ := Json.filledText?_eq_some_iff.mp htext
          refine ⟨some text, hlookup, fun other hother => ?_⟩
          cases hother
          exact hblank
        next => cases hfont
    exact ⟨some ⟨color, font⟩, hmembers ▸ .some (.object hcolor hhex hfont hfilled)⟩
  next => cases h

end Violation

/-- A valid document spells out a spec. -/
theorem Spec.exists_spelledOut_of_isValid {document : Json} (h : Spec.isValid document = true) :
    ∃ spec : Spec, spec.SpelledOut document := by
  rw [Spec.isValid, List.isEmpty_iff, Spec.violations] at h
  cases document with
  | object root =>
    simp only [Json.members?, List.append_eq_nil_iff] at h
    obtain ⟨⟨⟨hproject, harchitecture⟩, htheme⟩, hpages⟩ := h
    obtain ⟨value, hvalue, project, hproject⟩ := Violation.exists_spelledOut_of_ofProject hproject
    obtain ⟨architecture, harchitecture⟩ := Violation.exists_name_of_ofArchitecture harchitecture
    obtain ⟨theme, htheme⟩ := Violation.exists_spelledOut_of_ofTheme htheme
    unfold Violation.ofPageList at hpages
    split at hpages
    next => cases hpages
    next => cases hpages
    next items hne hitems =>
      obtain ⟨pages, hspelled, hnodup, -⟩ := Violation.exists_spelledOut_of_ofPages hpages
      refine ⟨⟨project, architecture, theme, pages⟩, .object hvalue hproject harchitecture htheme
        hitems hspelled ?_ hnodup⟩
      rintro rfl
      cases hspelled
      exact hne rfl
    next => cases hpages
  | _ => cases h

/-! ## The direct reading reads what is spelled out -/

namespace Json

/-- A required text is read if it is there. -/
theorem requiredText?_of_filledText? {key text : String} {members : List (String × Json)}
    (h : filledText? key members = some text) : requiredText? key members = some text := by
  rw [requiredText?, (filledText?_eq_some_iff.mp h).1]
  rfl

/-- An optional value of one type is read as it is. -/
theorem optional?_map {α : Type} {read : Json → Option α} {write : α → Json} {key : String}
    {members : List (String × Json)} {value : Option α}
    (h : lookup key members = value.map write) (hne : ∀ a, write a ≠ .null)
    (hread : ∀ a, read (write a) = some a) : optional? read key members = some value := by
  rw [optional?, h]
  cases value with
  | none => rfl
  | some a =>
    have hvalue := hread a
    have hother := hne a
    rw [Option.map_some]
    cases hw : write a with
    | null => exact absurd hw hother
    | _ =>
      rw [hw] at hvalue
      simp only [hvalue, Option.map_some]

end Json

/-- Items that are read one by one are read together. -/
theorem mapM_eq_some_of_forall₂ {α β : Type} {read : β → Option α} {R : α → β → Prop}
    (hread : ∀ a b, R a b → read b = some a) {values : List α} {items : List β}
    (h : List.Forall₂ R values items) : items.mapM read = some values := by
  induction h with
  | nil => rfl
  | cons hfirst _ ih => simp [List.mapM_cons, hread _ _ hfirst, ih]

/-- A spelled-out section is read. -/
theorem Section.ofJson?_of_spelledOut (part : Section) (item : Json) (h : part.SpelledOut item) :
    Section.ofJson? item = some part := by
  cases h with
  | @object members id kind variant _ content =>
    have hvariant : Json.optional? Json.text? "variant" members = some part.variant :=
      Json.optional?_map variant (fun _ => Json.noConfusion) fun _ => rfl
    have hcontent : Json.optional? Json.members? "content" members = some part.content :=
      Json.optional?_map content (fun _ => Json.noConfusion) fun _ => rfl
    simp [Section.ofJson?, Json.fields?, Json.requiredText?_of_filledText? id,
      Json.requiredText?_of_filledText? kind, hvariant, hcontent]

/-- A spelled-out page is read. -/
theorem Page.ofJson?_of_spelledOut (page : Page) (item : Json) (h : page.SpelledOut item) :
    Page.ofJson? item = some page := by
  cases h with
  | object id name route sections parts _ =>
    simp [Page.ofJson?, Json.fields?, Json.requiredText?_of_filledText? id,
      Json.requiredText?_of_filledText? name, Json.requiredText?_of_filledText? route, sections,
      Page.sectionsOfJson?, Json.items?,
      mapM_eq_some_of_forall₂ Section.ofJson?_of_spelledOut parts]

/-- A spelled-out theme is read. -/
theorem Theme.ofJson?_of_spelledOut {theme : Theme} {value : Json} (h : theme.SpelledOut value) :
    Theme.ofJson? value = some theme := by
  cases h with
  | @object members color _ font _ =>
    have hcolor : Json.optional? Json.text? "primaryColor" members = some theme.primaryColor :=
      Json.optional?_map color (fun _ => Json.noConfusion) fun _ => rfl
    have hfont : Json.optional? Json.text? "font" members = some theme.font :=
      Json.optional?_map font (fun _ => Json.noConfusion) fun _ => rfl
    simp [Theme.ofJson?, Json.fields?, hcolor, hfont]

/-- A spelled-out project is read. -/
theorem Project.ofJson?_of_spelledOut {project : Project} {value : Json}
    (h : project.SpelledOut value) : Project.ofJson? value = some project := by
  cases h with
  | @object members name slug _ =>
    have hslug : Json.optional? Json.text? "slug" members = some project.slug :=
      Json.optional?_map slug (fun _ => Json.noConfusion) fun _ => rfl
    simp [Project.ofJson?, Json.fields?, Json.requiredText?_of_filledText? name, hslug]

/-- An architecture is read from its name. -/
theorem Architecture.ofName?_name (architecture : Architecture) :
    ofName? architecture.name = some architecture := by
  cases architecture <;> rfl

/-- A spelled-out spec is read. -/
theorem Spec.ofJson?_of_spelledOut {spec : Spec} {document : Json} (h : spec.SpelledOut document) :
    Spec.ofJson? document = some spec := by
  cases h with
  | @object members _ _ project_at project_spelled architecture theme pages_at pages =>
    have harchitecture : Json.optional? Architecture.ofJson? "architecture" members =
        some spec.architecture :=
      Json.optional?_map architecture (fun _ => Json.noConfusion) Architecture.ofName?_name
    have htheme : Json.optional? Theme.ofJson? "theme" members = some spec.theme := by
      rw [Json.optional?]
      generalize spec.theme = read at theme ⊢
      generalize Json.lookup "theme" members = found at theme ⊢
      cases theme with
      | none => rfl
      | some spelled =>
        have hread := Theme.ofJson?_of_spelledOut spelled
        cases spelled
        simp only [hread, Option.map_some]
    simp [Spec.ofJson?, Json.fields?, project_at, Project.ofJson?_of_spelledOut project_spelled,
      harchitecture, htheme, pages_at, Json.items?,
      mapM_eq_some_of_forall₂ Page.ofJson?_of_spelledOut pages]

/-! ## Repair keeps what is spelled out -/

/-- An optional text that is not blank is found as it is. -/
theorem Json.filledText?_of_lookup {key : String} {members : List (String × Json)}
    {value : Option String} (h : lookup key members = value.map .string)
    (hfilled : ∀ text ∈ value, allBlank text.toList = false) :
    filledText? key members = value := by
  cases value with
  | none => rw [filledText?, h]; rfl
  | some text => exact filledText?_eq_some_iff.mpr ⟨h, hfilled text rfl⟩

namespace Repair

/-- Items that carry different identifiers repeat none. -/
theorem repeatedId?_of_forall₂ {α : Type} {R : α → Json → Prop} (id : α → String)
    (hid : ∀ value item, R value item → itemId? item = some (id value)) {values : List α}
    {items : List Json} (h : List.Forall₂ R values items) (hnodup : (values.map id).Nodup) :
    repeatedId? [] items = none := by
  have hprovided : providedIds items = values.map id := by
    clear hnodup
    induction h with
    | nil => rfl
    | cons hfirst _ ih => rw [providedIds, List.filterMap_cons_some (hid _ _ hfirst), List.map_cons,
        ← ih, providedIds]
  exact repeatedId?_eq_none_iff.mpr ⟨hprovided ▸ hnodup, by simp⟩

/-- A spelled-out section is kept, whatever identifiers are taken. -/
theorem sectionAt_of_spelledOut {part : Section} {item : Json} (h : part.SpelledOut item)
    (pageId : String) (index : Nat) (taken : List String) :
    sectionAt pageId index taken item = .ok (part, taken) := by
  cases h with
  | @object members id kind variant variant_filled content =>
    have hvariant : Json.filledText? "variant" members = part.variant :=
      Json.filledText?_of_lookup variant variant_filled
    have hcontent : (Json.lookup "content" members).bind Json.members? = part.content := by
      rw [content]
      cases part.content <;> rfl
    simp only [sectionAt, Json.members?, id, kind, hvariant, hcontent]

/-- Spelled-out sections are kept. -/
theorem sectionsFrom_of_spelledOut {parts : List Section} {items : List Json}
    (h : List.Forall₂ Section.SpelledOut parts items) (pageId : String) (index : Nat)
    (taken : List String) : sectionsFrom pageId index taken items = .ok parts := by
  induction h generalizing index with
  | nil => rfl
  | cons hfirst _ ih => simp only [sectionsFrom, sectionAt_of_spelledOut hfirst, ih]

/-- A page is kept if its sections are spelled out, it carries its identifier and its route, and it
is named, by itself or after the identifier. -/
theorem pageAt_of_members {page : Page} {members : List (String × Json)} {items : List Json}
    (id : Json.filledText? "id" members = some page.id)
    (name : (Json.filledText? "name" members).getD (titleCase page.id) = page.name)
    (route : Json.filledText? "route" members = some page.route)
    (sections_at : Json.lookup "sections" members = some (.array items))
    (parts : List.Forall₂ Section.SpelledOut page.sections items)
    (nodup : (page.sections.map Section.id).Nodup) (index : Nat) (taken : List String) :
    pageAt index taken (.object members) = .ok (page, taken) := by
  have hnone : repeatedId? [] items = none :=
    repeatedId?_of_forall₂ Section.id (fun _ _ => Violation.itemId?_of_section) parts nodup
  have hsections : sections page.id (Json.lookup "sections" members) = .ok page.sections := by
    simp only [sections, sections_at, Option.bind_some, Json.items?, hnone,
      sectionsFrom_of_spelledOut parts]
  simp only [pageAt, Json.members?, id, name, route, hsections, Option.getD_some]

/-- A spelled-out page is kept, whatever identifiers are taken. -/
theorem pageAt_of_spelledOut {page : Page} {item : Json} (h : page.SpelledOut item) (index : Nat)
    (taken : List String) : pageAt index taken item = .ok (page, taken) := by
  cases h with
  | object id name route sections parts nodup =>
    exact pageAt_of_members id (by rw [name, Option.getD_some]) route sections parts nodup index
      taken

/-- Pages that are kept one by one and carry different identifiers are kept together. -/
theorem pages_of_forall₂ {R : Page → Json → Prop}
    (hid : ∀ page item, R page item → itemId? item = some page.id)
    (hkept : ∀ page item, R page item →
      ∀ index taken, pageAt index taken item = .ok (page, taken))
    {root : List (String × Json)} {kept : List Page} {items : List Json}
    (hitems : Json.lookup "pages" root = some (.array items)) (h : List.Forall₂ R kept items)
    (hne : kept ≠ []) (hnodup : (kept.map Page.id).Nodup) : pages root = .ok kept := by
  have hall (index : Nat) (taken : List String) : pagesFrom index taken items = .ok kept := by
    clear hne hnodup hitems
    induction h generalizing index with
    | nil => rfl
    | cons hfirst _ ih => simp only [pagesFrom, hkept _ _ hfirst, ih]
  have hnone : repeatedId? [] items = none := repeatedId?_of_forall₂ Page.id hid h hnodup
  cases h with
  | nil => exact absurd rfl hne
  | cons => simp only [pages, hitems, Option.bind_some, Json.items?, hnone, hall]

/-- A spelled-out theme is kept unless it carries nothing. -/
theorem theme_of_spelledOut {spelled : Theme} {value : Json} (h : spelled.SpelledOut value) :
    theme value =
      (some spelled).filter fun theme => theme.primaryColor.isSome || theme.font.isSome := by
  cases h with
  | @object members color color_hex font font_filled =>
    have hcolor : ((Json.lookup "primaryColor" members).bind Json.text?).filter
        (fun text => (Rgb.ofHex? text).isSome) = spelled.primaryColor := by
      rw [color]
      cases hc : spelled.primaryColor with
      | none => rfl
      | some text => simp [Json.text?, Option.filter, color_hex text hc]
    have hfont : Json.filledText? "font" members = spelled.font :=
      Json.filledText?_of_lookup font font_filled
    simp only [theme, Json.members?, hcolor, hfont, Option.filter_some]
    rcases spelled with ⟨_ | color, _ | font⟩ <;> rfl

/-- A spelled-out project is kept, and completed by a slug if one can be made. -/
theorem project_of_spelledOut {root : List (String × Json)} {value : Json} {spelled : Project}
    (hvalue : Json.lookup "project" root = some value) (h : spelled.SpelledOut value) :
    project root =
      if spelled.slug = none ∧ Slug.ofName spelled.name = "" then fail (.emptySlug spelled.name)
      else .ok ⟨spelled.name, some (spelled.slug.getD (Slug.ofName spelled.name))⟩ := by
  cases h with
  | @object members name slug slug_safe =>
    have hmembers : ((Json.lookup "project" root).bind Json.members?).getD [] = members := by
      rw [hvalue]
      rfl
    simp only [project, hmembers, name, slug]
    cases hs : spelled.slug with
    | none => simp
    | some text => simp [Json.text?, slug_safe text hs]

end Repair

/-- The spec with the slug that its name makes, if it has none, and without a theme that carries
neither a colour nor a font. -/
def Spec.completed (spec : Spec) : Spec :=
  { spec with
    project :=
      { spec.project with
        slug := some (spec.project.slug.getD (Slug.ofName spec.project.name)) }
    theme := spec.theme.filter fun theme => theme.primaryColor.isSome || theme.font.isSome }

/-- A spelled-out spec is completed, unless it has no slug and its name makes none. -/
theorem Spec.repair_of_spelledOut {spec : Spec} {document : Json} (h : spec.SpelledOut document) :
    Spec.repair document =
      if spec.project.slug = none ∧ Slug.ofName spec.project.name = "" then
        .error (.unrecoverableSpec (.emptySlug spec.project.name))
      else .ok spec.completed := by
  cases h with
  | @object members _ _ project_at project_spelled architecture theme pages_at pages ne nodup =>
    have harchitecture : ((Json.lookup "architecture" members).bind Json.text?).bind
        Architecture.ofName? = spec.architecture := by
      rw [architecture]
      cases spec.architecture with
      | none => rfl
      | some architecture => exact Architecture.ofName?_name architecture
    have htheme : (Json.lookup "theme" members).bind Repair.theme =
        spec.theme.filter fun theme => theme.primaryColor.isSome || theme.font.isSome := by
      generalize spec.theme = read at theme ⊢
      generalize Json.lookup "theme" members = found at theme ⊢
      cases theme with
      | none => rfl
      | some spelled => exact Repair.theme_of_spelledOut spelled
    have hpages : Repair.pages members = .ok spec.pages :=
      Repair.pages_of_forall₂ (fun _ _ => Violation.itemId?_of_page)
        (fun _ _ => Repair.pageAt_of_spelledOut) pages_at pages ne nodup
    have hproject := Repair.project_of_spelledOut project_at project_spelled
    by_cases hempty : spec.project.slug = none ∧ Slug.ofName spec.project.name = ""
    · rw [if_pos hempty] at hproject ⊢
      simp only [Spec.repair, Json.members?, hproject, Repair.fail]
    · rw [if_neg hempty] at hproject ⊢
      simp only [Spec.repair, Json.members?, hproject, hpages, harchitecture, htheme,
        Spec.completed]

/-- The value that a path of keys leads to. -/
def Json.at? : List String → Json → Option Json
  | [], value => some value
  | key :: rest, value => (value.members?.bind (lookup key)).bind (at? rest)

/-- A valid document is read directly. Repair fails on it exactly if it has no slug and the name of
its project makes none; otherwise repair answers with what was read, completed. -/
theorem Spec.repair_of_isValid {document : Json} (valid : Spec.isValid document = true) :
    ∃ spec, Spec.ofJson? document = some spec ∧
      Json.at? ["project", "name"] document = some (.string spec.project.name) ∧
      ((∃ e, Spec.repair document = .error e) ↔
        Json.at? ["project", "slug"] document = none ∧ Slug.ofName spec.project.name = "") ∧
      (¬(Json.at? ["project", "slug"] document = none ∧ Slug.ofName spec.project.name = "") →
        Spec.repair document = .ok spec.completed) := by
  obtain ⟨spec, hspec⟩ := Spec.exists_spelledOut_of_isValid valid
  have hrepair := Spec.repair_of_spelledOut hspec
  have hread := Spec.ofJson?_of_spelledOut hspec
  obtain ⟨hname, hslug⟩ : Json.at? ["project", "name"] document =
        some (.string spec.project.name) ∧
      Json.at? ["project", "slug"] document = spec.project.slug.map .string := by
    cases hspec with
    | object project_at project_spelled =>
      generalize spec.project = project at project_spelled ⊢
      cases project_spelled with
      | object name slug =>
        simp only [Json.at?, Json.members?, Option.bind_some, project_at, slug,
          (Json.filledText?_eq_some_iff.mp name).1, Option.bind_fun_some, and_self]
  have hslugless : Json.at? ["project", "slug"] document = none ↔ spec.project.slug = none := by
    rw [hslug, Option.map_eq_none_iff]
  rw [hslugless]
  refine ⟨spec, hread, hname, ⟨?_, fun hempty => ⟨_, by rw [hrepair, if_pos hempty]⟩⟩,
    fun hfull => by rw [hrepair, if_neg hfull]⟩
  rintro ⟨e, he⟩
  by_contra hfull
  rw [hrepair, if_neg hfull] at he
  cases he

/-- A valid document without a slug, with a theme that carries nothing and members that a spec has
no use for. -/
def Repair.extendedDocument : Json :=
  .object [("version", .number (.integer 2)),
    ("project", .object [("name", .string "Café 2024"), ("owner", .null)]),
    ("theme", .object [("spacing", .string "wide")]),
    ("pages", .array [.object [("route", .string "/"), ("name", .string "Home"),
      ("sections", .array [.object [("kind", .string "hero"), ("id", .string "s1"),
        ("content", .object [("items", .array [.null, .object []]), ("title", .string " ")])]]),
      ("id", .string "home")]])]

/-- What that document says. -/
def Repair.extendedSpec : Spec where
  project := ⟨"Café 2024", none⟩
  architecture := none
  theme := some ⟨none, none⟩
  pages := [⟨"home", "Home", "/", [⟨"s1", "hero", none,
    some [("items", .array [.null, .object []]), ("title", .string " ")]⟩]⟩]

/-- The document is read, and repair completes what was read by a slug and drops the theme. -/
theorem Spec.repair_of_isValid_extended :
    Spec.isValid Repair.extendedDocument = true ∧
      Spec.ofJson? Repair.extendedDocument = some Repair.extendedSpec ∧
      Spec.repair Repair.extendedDocument =
        .ok { Repair.extendedSpec with
          project := ⟨"Café 2024", some "caf-2024"⟩
          theme := none } := by
  have valid : Spec.isValid Repair.extendedDocument = true := by decide +kernel
  have hread : Spec.ofJson? Repair.extendedDocument = some Repair.extendedSpec := by
    decide +kernel
  obtain ⟨spec, hspec, -, -, hrepair⟩ := Spec.repair_of_isValid valid
  obtain rfl : Repair.extendedSpec = spec := Option.some.inj (hread.symm.trans hspec)
  refine ⟨valid, hread, (hrepair ?_).trans ?_⟩
  · decide +kernel
  · decide +kernel

end Siteworks
