import Mathlib
import Siteworks.Proofs.Repair.Judging
import Siteworks.Proofs.Repair.Numbering
import Siteworks.Proofs.Repair.Validity
import Siteworks.Proofs.Schema.Rules

/-!
# Documents that repair refuses

What repair cannot do without inventing is said here check by check, each with its place in the
order in which repair goes through a document: the project, the list of pages, and then page by page
and section by section. Repair fails exactly if a check does, and names the first one that does. The
identifiers that it gives on its way never make a check fail.
-/

namespace Siteworks

open Text (allBlank)

namespace Repair

/-! ## What fails a check -/

/-- A check of a section fails. -/
inductive SectionFails (pageId : String) (index : Nat) : Json → List Nat → SpecFault → Prop
  /-- The section is no object. -/
  | notObject {item : Json} : (∀ members, item ≠ .object members) →
    SectionFails pageId index item [0] (.sectionNotObject pageId (index + 1))
  /-- The section has no kind. -/
  | kind {members : List (String × Json)} : ¬ Json.HasText "kind" members →
    SectionFails pageId index (.object members) [1] (.kindMissing pageId (index + 1))

/-- A check of a page fails. -/
inductive PageFails (pageId : String) (index : Nat) : Json → List Nat → SpecFault → Prop
  /-- The page is no object. -/
  | notObject {item : Json} : (∀ members, item ≠ .object members) →
    PageFails pageId index item [0] (.pageNotObject index)
  /-- Two sections of the page carry one identifier. -/
  | sectionId {members : List (String × Json)} {items : List Json} {position : Nat} {id : String} :
    Json.lookup "sections" members = some (.array items) → Repeats items position id →
      PageFails pageId index (.object members) [1, position] (.duplicateSectionId pageId id)
  /-- A check of a section fails. -/
  | inSection {members : List (String × Json)} {items : List Json} {position : Nat} {item : Json}
    {place : List Nat} {fault : SpecFault} :
    Json.lookup "sections" members = some (.array items) → items[position]? = some item →
      SectionFails pageId position item place fault →
        PageFails pageId index (.object members) (2 :: position :: place) fault

/-- A check of a document fails. The place says when the check is made. -/
inductive Fails (document : Json) : List Nat → SpecFault → Prop
  /-- The document is no object. -/
  | root : (∀ root, document ≠ .object root) → Fails document [0] .rootNotObject
  /-- The project has no name. -/
  | name : (∀ name, Schema.FieldAt document .project "name" (.string name) →
      allBlank name.toList = true) → Fails document [1] .nameMissing
  /-- The project has no slug that can stand in a web address, and its name makes none. -/
  | slug {name : String} : Schema.FieldAt document .project "name" (.string name) →
    allBlank name.toList = false →
      (∀ slug, Schema.FieldAt document .project "slug" (.string slug) →
        Slug.isUrlSafe slug = false) →
        Slug.ofName name = "" → Fails document [2] (.emptySlug name)
  /-- There is no list of pages with a page in it. -/
  | pages : (∀ items, Json.at? ["pages"] document = some (.array items) → items = []) →
    Fails document [3] .pagesMissing
  /-- Two pages carry one identifier. -/
  | pageId {items : List Json} {index : Nat} {id : String} :
    Json.at? ["pages"] document = some (.array items) → Repeats items index id →
      Fails document [4, index] (.duplicatePageId id)
  /-- A check of a page fails. -/
  | inPage {items : List Json} {ids : List String} {index : Nat} {item : Json} {pageId : String}
    {place : List Nat} {fault : SpecFault} :
    Json.at? ["pages"] document = some (.array items) → Identified "page" items ids →
      items[index]? = some item → ids[index]? = some pageId →
        PageFails pageId index item place fault → Fails document (5 :: index :: place) fault

/-! ## Sections and pages -/

/-- A section is refused for the first check that it fails. -/
theorem judges_sectionAt (pageId : String) (index : Nat) (taken : List String) (item : Json) :
    Judges (sectionAt pageId index taken item) (SectionFails pageId index item) := by
  cases item with
  | object members =>
    unfold sectionAt
    simp only [Json.members?]
    split
    next hnone =>
      refine Judges.fail (.kind (Json.filledText?_eq_none_iff.mp hnone)) ?_
      rintro _ _ (hother | _)
      · exact (hother members rfl).elim
      · exact le_rfl
    next kind hkind =>
      have hpass : ∀ place fault, ¬ SectionFails pageId index (.object members) place fault := by
        rintro _ _ (hother | hmissing)
        · exact hother members rfl
        · exact hmissing (Json.hasText_iff.mpr ⟨kind, hkind⟩)
      split <;> exact Judges.ok hpass
  | _ =>
    refine Judges.fail (.notObject (by simp)) ?_
    rintro _ _ (_ | _)
    exact le_rfl

/-- The sections of a page are checked one after the other. -/
theorem judges_sectionsFrom (pageId : String) (index : Nat) (taken : List String)
    (items : List Json) :
    Judges (sectionsFrom pageId index taken items)
      (Listed index items (SectionFails pageId)) := by
  induction items generalizing index taken with
  | nil => exact Judges.ok (by simp [Listed])
  | cons item rest ih =>
    have hwalk : sectionsFrom pageId index taken (item :: rest) =
        (sectionAt pageId index taken item).bind fun first =>
          (sectionsFrom pageId (index + 1) first.2 rest).map (first.1 :: ·) := by
      rw [sectionsFrom]
      rcases sectionAt pageId index taken item with e | ⟨first, taken'⟩
      · rfl
      · simp only [Except.bind]
        cases sectionsFrom pageId (index + 1) taken' rest <;> rfl
    rw [hwalk]
    exact (judges_sectionAt pageId index taken item).cons fun value _ =>
      (ih (index + 1) value.2).map _

/-- The sections of a page are refused for a repeated identifier before they are checked. -/
theorem judges_sections (pageId : String) {value : Option Json} {items : List Json}
    (hvalue : value = some (.array items)) :
    Judges (sections pageId value) fun place fault =>
      (∃ position id, place = [1, position] ∧ fault = .duplicateSectionId pageId id ∧
        Repeats items position id) ∨
      ∃ position item rest, place = 2 :: position :: rest ∧ items[position]? = some item ∧
        SectionFails pageId position item rest fault := by
  have hstages : sections pageId value =
      (refuse (.duplicateSectionId pageId) (repeatedId? [] items)).bind fun _ =>
        sectionsFrom pageId 0 (providedIds items) items := by
    simp only [sections, hvalue, Option.bind_some, Json.items?]
    cases repeatedId? [] items <;> rfl
  rw [hstages]
  refine (((judges_repeatedId _ 0 [] items).within [1]).bind (fun _ _ =>
    (judges_sectionsFrom pageId 0 (providedIds items) items).within [2]) ?_).congr
      fun place fault => or_congr ?_ ?_
  · rintro _ _ _ _ ⟨rest, rfl, -⟩ ⟨rest', rfl, -⟩
    exact le_of_head_lt (by omega) rest rest'
  · constructor
    · rintro ⟨_, rfl, position, id, rfl, rfl, hid, hseen⟩
      exact ⟨position, id, by simp, rfl, hid, by simpa using hseen⟩
    · rintro ⟨position, id, rfl, rfl, hid, hearlier⟩
      exact ⟨[position], rfl, position, id, by simp, rfl, hid, Or.inr hearlier⟩
  · simp only [Listed, Nat.zero_add]
    constructor
    · rintro ⟨_, rfl, position, item, rest, hitem, hfails, rfl⟩
      exact ⟨position, item, rest, rfl, hitem, hfails⟩
    · rintro ⟨position, item, rest, rfl, hitem, hfails⟩
      exact ⟨position :: rest, rfl, position, item, rest, hitem, hfails, rfl⟩

/-- Of a page that is an object only its sections can be refused. -/
theorem pageAt_object (index : Nat) (taken : List String) (members : List (String × Json)) :
    pageAt index taken (.object members) =
      (sections (identify "page" (index + 1) taken members).1
        (Json.lookup "sections" members)).map fun parts =>
          let (id, taken) := identify "page" (index + 1) taken members
          (⟨id, (Json.filledText? "name" members).getD (titleCase id),
            (Json.filledText? "route" members).getD (defaultRoute index id), parts⟩, taken) := by
  unfold pageAt identify
  simp only [Json.members?, nextFreeId_eq]
  cases Json.filledText? "id" members with
  | some id =>
    simp only
    cases sections id (Json.lookup "sections" members) <;> rfl
  | none =>
    simp only
    cases sections (freeId "page" (index + 1) taken) (Json.lookup "sections" members) <;> rfl

/-- A page is refused for the first check that it fails. -/
theorem judges_pageAt (index : Nat) (taken : List String) (item : Json) :
    Judges (pageAt index taken item)
      (PageFails (identify "page" (index + 1) taken (item.members?.getD [])).1 index item) := by
  cases item with
  | object members =>
    rw [pageAt_object]
    simp only [Json.members?, Option.getD_some]
    refine Judges.map ?_ _
    cases hitems : (Json.lookup "sections" members).bind Json.items? with
    | none =>
      rw [sections, hitems]
      refine Judges.ok ?_
      rintro _ _ (hother | ⟨hlookup, -⟩ | ⟨hlookup, -, -⟩)
      · exact hother members rfl
      · simp [hlookup, Json.items?] at hitems
      · simp [hlookup, Json.items?] at hitems
    | some items =>
      obtain ⟨value, hlookup, hvalue⟩ := Option.bind_eq_some_iff.mp hitems
      obtain rfl := Json.items?_eq_some_iff.mp hvalue
      refine (judges_sections _ hlookup).congr fun place fault => ?_
      constructor
      · rintro (⟨position, id, rfl, rfl, hrepeats⟩ | ⟨position, item, rest, rfl, hitem, hfails⟩)
        · exact .sectionId hlookup hrepeats
        · exact .inSection hlookup hitem hfails
      · rintro (hother | ⟨hlookup', hrepeats⟩ | ⟨hlookup', hitem, hfails⟩)
        · exact (hother members rfl).elim
        · obtain rfl : items = _ := by simpa [hlookup] using hlookup'
          exact Or.inl ⟨_, _, rfl, rfl, hrepeats⟩
        · obtain rfl : items = _ := by simpa [hlookup] using hlookup'
          exact Or.inr ⟨_, _, _, rfl, hitem, hfails⟩
  | _ =>
    refine Judges.fail (.notObject (by simp)) ?_
    rintro _ _ (_ | _ | _)
    exact le_rfl

/-- The pages are checked one after the other, under the identifiers that they have or get. -/
theorem judges_pagesFrom (index : Nat) (taken : List String) (items : List Json) :
    Judges (pagesFrom index taken items)
      (Listed index (items.zip (idsFrom "page" (index + 1) taken items)) fun position entry =>
        PageFails entry.2 position entry.1) := by
  induction items generalizing index taken with
  | nil => exact Judges.ok (by simp [Listed])
  | cons item rest ih =>
    have hwalk : pagesFrom index taken (item :: rest) =
        (pageAt index taken item).bind fun first =>
          (pagesFrom (index + 1) first.2 rest).map (first.1 :: ·) := by
      rw [pagesFrom]
      rcases pageAt index taken item with e | ⟨first, taken'⟩
      · rfl
      · simp only [Except.bind]
        cases pagesFrom (index + 1) taken' rest <;> rfl
    rw [hwalk, idsFrom, List.zip_cons_cons]
    refine Judges.cons (judges_pageAt index taken item :) fun value hvalue => ?_
    obtain ⟨members, rfl, hid, -⟩ := pageAt_eq_ok hvalue
    simp only [Json.members?, Option.getD_some, hid]
    exact (ih (index + 1) value.2).map _

/-! ## The whole document -/

section Root

variable {root : List (String × Json)}

/-- What is read as the project has the fields of the project. -/
theorem fieldAt_project_iff {key : String} {value : Json} :
    Schema.FieldAt (.object root) .project key value ↔
      Json.lookup key (((Json.lookup "project" root).bind Json.members?).getD []) = some value := by
  rw [Schema.FieldAt, Schema.find?, Json.at?_object]
  cases Json.lookup "project" root with
  | none => simp [Json.lookup]
  | some found => cases found <;> simp [Json.members?, Json.lookup]

/-- The name that is read is the name of the project. -/
theorem filledText?_name_eq_some_iff {name : String} :
    Json.filledText? "name" (((Json.lookup "project" root).bind Json.members?).getD []) =
        some name ↔
      Schema.FieldAt (.object root) .project "name" (.string name) ∧
        allBlank name.toList = false := by
  rw [fieldAt_project_iff, Json.filledText?_eq_some_iff]

/-- The slug that is read is the slug of the project. -/
theorem text?_slug_eq_some_iff {slug : String} :
    (Json.lookup "slug" (((Json.lookup "project" root).bind Json.members?).getD [])).bind
        Json.text? = some slug ↔
      Schema.FieldAt (.object root) .project "slug" (.string slug) := by
  rw [fieldAt_project_iff, Option.bind_eq_some_iff]
  constructor
  · rintro ⟨_ | _ | _ | _ | _ | _, h, htext⟩ <;> cases htext
    exact h
  · exact fun h => ⟨_, h, rfl⟩

/-- The project of a document with a name can only fail for its slug. -/
theorem Fails.slug_of_name {name : String}
    (hname : Schema.FieldAt (.object root) .project "name" (.string name))
    (hfilled : allBlank name.toList = false) {place : List Nat} {fault : SpecFault}
    (h : Fails (.object root) place fault) (hplace : place < [3]) :
    place = [2] ∧ Slug.ofName name = "" ∧
      ∀ slug, Schema.FieldAt (.object root) .project "slug" (.string slug) →
        Slug.isUrlSafe slug = false := by
  obtain hroot | hmissing | ⟨hother, -, hnotSafe, hempty⟩ | _ | _ | _ := h
  · exact (hroot root rfl).elim
  · simp [hmissing name hname] at hfilled
  · obtain rfl : name = _ := by
      simpa using (fieldAt_project_iff.mp hname).symm.trans (fieldAt_project_iff.mp hother)
    exact ⟨rfl, hempty, hnotSafe⟩
  all_goals exact absurd hplace (not_lt.mpr (le_of_head_le (by omega) _))

/-- A slug is made from the name unless there is one that is safe. -/
theorem judges_ofName {name made : String} (hmade : Slug.ofName name = made)
    (hname : Schema.FieldAt (.object root) .project "name" (.string name))
    (hfilled : allBlank name.toList = false)
    (hnotSafe : ∀ slug, Schema.FieldAt (.object root) .project "slug" (.string slug) →
      Slug.isUrlSafe slug = false) :
    Judges (if made = "" then fail (.emptySlug name) else .ok (⟨name, some made⟩ : Project))
      fun place fault => Fails (.object root) place fault ∧ place < [3] := by
  split
  next hempty =>
    refine Judges.fail ⟨.slug hname hfilled hnotSafe (hmade.trans hempty), ?_⟩
      fun place fault h => ?_
    · exact List.cons_lt_cons_iff.mpr (Or.inl (by omega))
    · exact (h.1.slug_of_name hname hfilled h.2).1 ▸ le_rfl
  next hne =>
    exact Judges.ok fun place fault h =>
      hne (hmade.symm.trans (h.1.slug_of_name hname hfilled h.2).2.1)

/-- The project of a document is refused for the first check that it fails. -/
theorem judges_project (root : List (String × Json)) :
    Judges (project root) fun place fault => Fails (.object root) place fault ∧ place < [3] := by
  rw [project]
  cases hfound : Json.filledText? "name"
      (((Json.lookup "project" root).bind Json.members?).getD []) with
  | none =>
    refine Judges.fail ⟨.name fun name hname => ?_, ?_⟩ ?_
    · by_contra hfilled
      rw [filledText?_name_eq_some_iff.mpr ⟨hname, by simpa using hfilled⟩] at hfound
      cases hfound
    · exact List.cons_lt_cons_iff.mpr (Or.inl (by omega))
    · rintro _ _ ⟨hroot | _, -⟩
      · exact (hroot root rfl).elim
      all_goals exact le_of_head_le (by omega) _
  | some name =>
    obtain ⟨hname, hfilled⟩ := filledText?_name_eq_some_iff.mp hfound
    simp only
    -- the slug made of the name is not to be computed
    generalize hmade : Slug.ofName name = made
    cases hsome : (Json.lookup "slug"
        (((Json.lookup "project" root).bind Json.members?).getD [])).bind Json.text? with
    | some slug =>
      have hslug := text?_slug_eq_some_iff.mp hsome
      simp only
      cases hsafe : Slug.isUrlSafe slug with
      | true =>
        rw [if_pos rfl]
        refine Judges.ok fun place fault h => ?_
        simp [(h.1.slug_of_name hname hfilled h.2).2.2 slug hslug] at hsafe
      | false =>
        rw [if_neg Bool.false_ne_true]
        refine judges_ofName hmade hname hfilled fun text htext => ?_
        obtain rfl : slug = text := by
          simpa using (fieldAt_project_iff.mp hslug).symm.trans (fieldAt_project_iff.mp htext)
        exact hsafe
    | none =>
      refine judges_ofName hmade hname hfilled fun text htext => ?_
      cases hsome.symm.trans (text?_slug_eq_some_iff.mpr htext)

/-- A list of pages is searched for a repeated identifier before its pages are checked. -/
theorem pages_eq_bind {items : List Json} (hitems : Json.lookup "pages" root = some (.array items))
    (hne : items ≠ []) : pages root =
      (refuse .duplicatePageId (repeatedId? [] items)).bind fun _ =>
        pagesFrom 0 (providedIds items) items := by
  obtain ⟨first, rest, rfl⟩ := List.exists_cons_of_ne_nil hne
  simp only [pages, hitems, Option.bind_some, Json.items?]
  cases repeatedId? [] (first :: rest) <;> rfl

/-- The pages of a document are refused if there are none, then for a repeated identifier, then for
the first check that one of them fails. -/
theorem judges_pages (root : List (String × Json)) :
    Judges (pages root) fun place fault => Fails (.object root) place fault ∧ [3] ≤ place := by
  by_cases hpages : ∀ items, Json.at? ["pages"] (.object root) = some (.array items) → items = []
  · have hfail : pages root = fail .pagesMissing := by
      unfold pages
      split
      · rfl
      · rfl
      next items hne hitems =>
        obtain ⟨value, hlookup, hvalue⟩ := Option.bind_eq_some_iff.mp hitems
        obtain rfl := Json.items?_eq_some_iff.mp hvalue
        exact (hne (hpages items (by simpa using hlookup))).elim
    rw [hfail]
    exact Judges.fail ⟨.pages hpages, le_rfl⟩ fun place fault h => h.2
  · push Not at hpages
    obtain ⟨items, hitems, hne⟩ := hpages
    have hrepeated := (judges_repeatedId .duplicatePageId 0 [] items).within [4]
    have hwalk := (judges_pagesFrom 0 (providedIds items) items).within [5]
    rw [pages_eq_bind ((Json.at?_object ..).symm.trans hitems) hne]
    refine (hrepeated.bind (fun _ _ => hwalk) ?_).congr fun place fault => ?_
    · rintro _ _ _ _ ⟨rest, rfl, -⟩ ⟨rest', rfl, -⟩
      exact le_of_head_lt (by omega) rest rest'
    · simp only [Listed, Nat.zero_add]
      constructor
      · rintro (⟨_, rfl, index, id, rfl, rfl, hid, hseen⟩ |
          ⟨_, rfl, index, ⟨item, pageId⟩, rest, hentry, hfails, rfl⟩)
        · exact ⟨.pageId hitems ⟨hid, by simpa using hseen⟩, le_of_head_le (by omega) _⟩
        · obtain ⟨hitem, hid⟩ := List.getElem?_zip_eq_some.mp hentry
          exact ⟨.inPage hitems (identified_idsFrom "page" items) hitem hid hfails,
            le_of_head_le (by omega) _⟩
      · rintro ⟨hroot | _ | _ | hnone | ⟨hitems', hrepeats⟩ |
          ⟨hitems', hids, hitem, hid, hfails⟩, hplace⟩
        · exact (hroot root rfl).elim
        · exact absurd hplace (not_le.mpr (List.cons_lt_cons_iff.mpr (Or.inl (by omega))))
        · exact absurd hplace (not_le.mpr (List.cons_lt_cons_iff.mpr (Or.inl (by omega))))
        · exact (hne (hnone items hitems)).elim
        · obtain rfl : items = _ := by simpa [hitems] using hitems'
          exact Or.inl ⟨_, rfl, _, _, rfl, rfl, hrepeats.1, Or.inr hrepeats.2⟩
        · obtain rfl : items = _ := by simpa [hitems] using hitems'
          obtain rfl := hids.unique (identified_idsFrom "page" items)
          exact Or.inr ⟨_, rfl, _, (_, _), _,
            List.getElem?_zip_eq_some.mpr ⟨hitem, hid⟩, hfails, rfl⟩

end Root

/-- A document is refused for the first check that it fails. -/
theorem judges_repair (document : Json) : Judges (Spec.repair document) (Fails document) := by
  cases document with
  | object root =>
    have hstages : Spec.repair (.object root) = (project root).bind fun project =>
        (pages root).map fun pages => {
          project
          architecture :=
            ((Json.lookup "architecture" root).bind Json.text?).bind Architecture.ofName?
          theme := (Json.lookup "theme" root).bind Repair.theme
          pages } := by
      simp only [Spec.repair, Json.members?]
      cases project root with
      | error e => rfl
      | ok project => cases pages root <;> rfl
    rw [hstages]
    refine ((judges_project root).bind (fun _ _ => (judges_pages root).map _) ?_).congr
      fun place fault => ?_
    · exact fun place fault other fault' h h' => (h.2.trans_le h'.2).le
    · rw [← and_or_left, and_iff_left (lt_or_ge place [3])]
  | _ =>
    refine Judges.fail (.root (by simp)) ?_
    rintro _ _ (_ | _ | _ | _ | _ | _)
    all_goals exact le_of_head_le (by omega) _

/-- At one place of a section one check is made. -/
theorem SectionFails.unique {pageId : String} {index : Nat} {item : Json} {place : List Nat}
    {fault fault' : SpecFault} (h : SectionFails pageId index item place fault)
    (h' : SectionFails pageId index item place fault') : fault = fault' := by
  cases h <;> cases h' <;> rfl

/-- At one place of a page one check is made. -/
theorem PageFails.unique {pageId : String} {index : Nat} {item : Json} {place : List Nat}
    {fault fault' : SpecFault} (h : PageFails pageId index item place fault)
    (h' : PageFails pageId index item place fault') : fault = fault' := by
  cases h with
  | notObject _ => cases h'; rfl
  | sectionId hitems hrepeats =>
    obtain _ | ⟨hitems', hrepeats'⟩ | _ := h'
    cases hitems.symm.trans hitems'
    cases hrepeats.1.symm.trans hrepeats'.1
    rfl
  | inSection hitems hitem hfails =>
    obtain _ | _ | ⟨hitems', hitem', hfails'⟩ := h'
    cases hitems.symm.trans hitems'
    cases hitem.symm.trans hitem'
    exact hfails.unique hfails'

/-- At one place of a document one check is made, whichever way the identifiers of its pages are
known. -/
theorem Fails.unique {document : Json} {place : List Nat} {fault fault' : SpecFault}
    (h : Fails document place fault) (h' : Fails document place fault') : fault = fault' := by
  cases h with
  | root _ => cases h'; rfl
  | name _ => cases h'; rfl
  | slug hname _ _ _ =>
    obtain _ | _ | ⟨hname', _, _, _⟩ | _ | _ | _ := h'
    obtain ⟨_, hfind, hlookup⟩ := hname
    obtain ⟨_, hfind', hlookup'⟩ := hname'
    cases hfind.symm.trans hfind'
    cases hlookup.symm.trans hlookup'
    rfl
  | pages _ => cases h'; rfl
  | pageId hitems hrepeats =>
    obtain _ | _ | _ | _ | ⟨hitems', hrepeats'⟩ | _ := h'
    cases hitems.symm.trans hitems'
    cases hrepeats.1.symm.trans hrepeats'.1
    rfl
  | inPage hitems hids hitem hid hfails =>
    obtain _ | _ | _ | _ | _ | ⟨hitems', hids', hitem', hid', hfails'⟩ := h'
    cases hitems.symm.trans hitems'
    cases hids.unique hids'
    cases hitem.symm.trans hitem'
    cases hid.symm.trans hid'
    exact hfails.unique hfails'

end Repair

/-- Repair fails exactly if a check of the document does, always as an unrecoverable spec, and the
fault and its message are those of the first check that fails. -/
theorem Spec.repair_eq_error_iff (document : Json) :
    ((∃ e, Spec.repair document = .error e) ↔ ∃ place fault, Repair.Fails document place fault) ∧
      ∀ e, Spec.repair document = .error e ↔
        ∃ place fault, e = .unrecoverableSpec fault ∧
          e.message = "unrecoverable spec: " ++ fault.message ∧
          Repair.Fails document place fault ∧
            ∀ other fault', Repair.Fails document other fault' → place ≤ other := by
  have hjudged := Repair.judges_repair document
  cases hresult : Spec.repair document with
  | ok spec =>
    rw [hresult] at hjudged
    refine ⟨⟨nofun, ?_⟩, fun e => ⟨nofun, ?_⟩⟩
    · rintro ⟨place, fault, hfails⟩
      exact (hjudged place fault hfails).elim
    · rintro ⟨place, fault, -, -, hfails, -⟩
      exact (hjudged place fault hfails).elim
  | error e =>
    rw [hresult] at hjudged
    obtain ⟨place, fault, rfl, hfails, hfirst⟩ := hjudged
    refine ⟨⟨fun _ => ⟨place, fault, hfails⟩, fun _ => ⟨_, rfl⟩⟩, fun e => ⟨?_, ?_⟩⟩
    · intro he
      cases he
      exact ⟨place, fault, rfl, rfl, hfails, hfirst⟩
    · rintro ⟨other, fault', rfl, -, hfails', hfirst'⟩
      obtain rfl := le_antisymm (hfirst other fault' hfails') (hfirst' place fault hfails)
      rw [hfails.unique hfails']

/-- A document with a section that is no object, on its first page, and a second page that is none
either. -/
def Repair.faultyDocument : Json :=
  .object [("project", .object [("name", .string "Demo")]),
    ("pages", .array [
      .object [("id", .string "home"),
        ("sections", .array [.object [("kind", .string "hero")], .null])],
      .null])]

/-- Of its two faults the message names the section, which comes first. -/
theorem Spec.repair_eq_error_iff_faulty :
    Repair.Fails Repair.faultyDocument [5, 1, 0] (.pageNotObject 1) ∧
    ∃ e place fault, Spec.repair Repair.faultyDocument = .error e ∧
      e.message = "unrecoverable spec: page \"home\" section 2 is not an object" ∧
      Repair.Fails Repair.faultyDocument place fault ∧ place < [5, 1, 0] ∧
        ∀ other fault', Repair.Fails Repair.faultyDocument other fault' → place ≤ other := by
  have hpage : Repair.Fails Repair.faultyDocument [5, 1, 0] (.pageNotObject 1) :=
    .inPage rfl (Repair.identified_idsFrom "page" _) rfl rfl (.notObject (by simp))
  have hresult : Spec.repair Repair.faultyDocument =
      .error (.unrecoverableSpec (.sectionNotObject "home" 2)) := by decide +kernel
  obtain ⟨place, fault, hfault, -, hfails, hfirst⟩ :=
    ((Spec.repair_eq_error_iff Repair.faultyDocument).2 _).mp hresult
  have hbefore : place < [5, 1, 0] := by
    refine lt_of_le_of_ne (hfirst _ _ hpage) fun hplace => ?_
    rw [hplace] at hfails
    cases GenerationError.unrecoverableSpec.inj hfault ▸ hfails.unique hpage
  exact ⟨hpage, _, place, fault, hresult, by decide +kernel, hfails, hbefore, hfirst⟩

end Siteworks
