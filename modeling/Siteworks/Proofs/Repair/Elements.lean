import Mathlib
import Siteworks.Proofs.Repair.FixedPoints
import Siteworks.Proofs.Repair.Numbering
import Siteworks.Proofs.Schema.Rules

/-!
# What the elements of a document are repaired to

A document is repaired element by element: every item of its list of pages becomes a page, and every
item of a page's list of sections a section, in the same order. What an element provides is kept as
it stands, what it lacks is made in one way only, and anything else is left out. Its identifier is
the one that it carries, or else the first free one behind its position.
-/

namespace Siteworks

open Text (allBlank)

namespace Json

/-- The value is an object with a text under a key, and the text is not blank. -/
def Provides (value : Json) (key text : String) : Prop :=
  at? [key] value = some (.string text) ∧ allBlank text.toList = false

/-- The text of a value is there if it is a string. -/
theorem text?_eq_some_iff {value : Json} {text : String} :
    value.text? = some text ↔ value = .string text := by
  cases value <;> simp [text?]

/-- What is read as a text is what an object provides. -/
theorem filledText?_eq_some_iff_provides {members : List (String × Json)} {key text : String} :
    filledText? key members = some text ↔ (object members).Provides key text := by
  rw [filledText?_eq_some_iff, Provides, at?_object]

/-- A text with a default is what an object provides. -/
theorem getD_filledText?_of_provides {members : List (String × Json)} {key text : String}
    (h : (object members).Provides key text) (default : String) :
    (filledText? key members).getD default = text := by
  rw [filledText?_eq_some_iff_provides.mpr h, Option.getD_some]

/-- A text with a default is the default where an object provides none. -/
theorem getD_filledText?_of_forall_not_provides {members : List (String × Json)} {key : String}
    (h : ∀ text, ¬ (object members).Provides key text) (default : String) :
    (filledText? key members).getD default = default := by
  have hnone : filledText? key members = none :=
    Option.eq_none_iff_forall_ne_some.mpr fun text htext =>
      h text (filledText?_eq_some_iff_provides.mp htext)
  rw [hnone, Option.getD_none]

end Json

/-- The items of a page's list of sections; there are none if it has no such list. -/
def Repair.sectionItems (item : Json) : List Json :=
  ((Json.at? ["sections"] item).bind Json.items?).getD []

/-! ## What is kept of an element -/

/-- The section has what an item provides for it, and no more. -/
structure Section.Retains (part : Section) (item : Json) : Prop where
  /-- The kind is the one provided. -/
  kind : item.Provides "kind" part.kind
  /-- The variant is the one provided, if there is one. -/
  variant : ∀ variant, part.variant = some variant ↔ item.Provides "variant" variant
  /-- The content is the object provided, if there is one, with its members in order. -/
  content : ∀ content, part.content = some content ↔
    Json.at? ["content"] item = some (.object content)

/-- The page at a position, counted from zero, has what an item provides for it, and what is missing
is made of its identifier and its position. -/
structure Page.Retains (page : Page) (index : Nat) (item : Json) : Prop where
  /-- A name that is provided is kept. -/
  name : ∀ name, item.Provides "name" name → page.name = name
  /-- A missing name is made of the words between the underscores of the identifier, each with its
  first character in upper case. -/
  name_made : (∀ name, ¬ item.Provides "name" name) → page.name.toList =
    [' '].intercalate (((page.id.toList.splitOn '_').filter (· ≠ [])).map Repair.capitalize)
  /-- A route that is provided is kept. -/
  route : ∀ route, item.Provides "route" route → page.route = route
  /-- A missing route is the root for the first page, and the identifier for any other. -/
  route_made : (∀ route, ¬ item.Provides "route" route) →
    page.route = if index = 0 then "/" else "/" ++ page.id
  /-- Every item of the list of sections becomes a section. -/
  sections : List.Forall₂ (fun item part => Section.Retains part item) (Repair.sectionItems item)
    page.sections

namespace Repair

/-- A title is made of the words between underscores. -/
theorem toList_titleCase (id : String) : (titleCase id).toList =
    [' '].intercalate (((id.toList.splitOn '_').filter (· ≠ [])).map capitalize) := by
  have hseparator : (fun c : Char => !decide (c ≠ '_')) = (· == '_') := by
    funext c
    by_cases hc : c = '_' <;> simp [hc]
  have hword : (fun run : List Char => !run.isEmpty) = fun run => decide (run ≠ []) := by
    funext run
    cases run <;> rfl
  rw [titleCase, String.toList_ofList, Text.runs, hseparator, hword, List.splitOn]

/-- A repaired section has what its item provides. -/
theorem retains_of_sectionAt {pageId : String} {index : Nat} {taken taken' : List String}
    {item : Json} {part : Section} (h : sectionAt pageId index taken item = .ok (part, taken')) :
    part.Retains item := by
  obtain ⟨members, rfl, -, hkind, hvariant, hcontent⟩ := sectionAt_eq_ok h
  refine ⟨Json.filledText?_eq_some_iff_provides.mp hkind, fun variant => ?_, fun content => ?_⟩
  · rw [hvariant, Json.filledText?_eq_some_iff_provides]
  · rw [hcontent, Json.at?_object, Option.bind_eq_some_iff]
    simp only [Json.members?_eq_some_iff, exists_eq_right]

/-- An element gets the next identifier of a walk, and the walk goes on. -/
theorem idsFrom_object {stem id : String} {number : Nat} {taken taken' : List String}
    {members : List (String × Json)} (rest : List Json)
    (h : identify stem number taken members = (id, taken')) :
    idsFrom stem number taken (.object members :: rest) =
      id :: idsFrom stem (number + 1) taken' rest := by
  simp only [idsFrom, Json.members?, Option.getD_some, h]

/-- Every item from a position on is repaired to a section under the identifier that it has or
gets. -/
theorem elements_of_sectionsFrom {pageId : String} {index : Nat} {taken : List String}
    {items : List Json} {parts : List Section}
    (h : sectionsFrom pageId index taken items = .ok parts) :
    parts.map Section.id = idsFrom ("sec_" ++ pageId) (index + 1) taken items ∧
      List.Forall₂ (fun item part => Section.Retains part item) items parts := by
  induction items generalizing index taken parts with
  | nil =>
    cases h
    exact ⟨rfl, .nil⟩
  | cons item rest ih =>
    unfold sectionsFrom at h
    split at h
    · cases h
    next first taken' hfirst =>
      split at h
      · cases h
      next others hothers =>
        cases h
        obtain ⟨hids, hretained⟩ := ih hothers
        obtain ⟨members, rfl, hid, -⟩ := sectionAt_eq_ok hfirst
        refine ⟨?_, .cons (retains_of_sectionAt hfirst) hretained⟩
        rw [List.map_cons, hids, idsFrom_object rest hid]

/-- Every item of a page's list of sections is repaired to a section under the identifier that it
has or gets. -/
theorem elements_of_sections {pageId : String} {members : List (String × Json)}
    {parts : List Section} (h : sections pageId (Json.lookup "sections" members) = .ok parts) :
    Identified ("sec_" ++ pageId) (sectionItems (.object members)) (parts.map Section.id) ∧
      List.Forall₂ (fun item part => Section.Retains part item) (sectionItems (.object members))
        parts := by
  unfold sections at h
  rw [sectionItems, Json.at?_object]
  split at h
  next hnone =>
    cases h
    rw [hnone]
    exact ⟨identified_idsFrom _ _, .nil⟩
  next items hitems =>
    rw [hitems, Option.getD_some]
    split at h
    · cases h
    · obtain ⟨hids, hretained⟩ := elements_of_sectionsFrom h
      exact ⟨hids ▸ identified_idsFrom _ _, hretained⟩

/-- A repaired page has what its item provides, and its sections are identified. -/
theorem retains_of_pageAt {index : Nat} {taken taken' : List String} {item : Json} {page : Page}
    (h : pageAt index taken item = .ok (page, taken')) :
    page.Retains index item ∧
      Identified ("sec_" ++ page.id) (sectionItems item) (page.sections.map Section.id) := by
  obtain ⟨members, rfl, -, hname, hroute, hsections⟩ := pageAt_eq_ok h
  obtain ⟨hids, hretained⟩ := elements_of_sections hsections
  refine ⟨⟨fun name hprovided => ?_, fun hnone => ?_, fun route hprovided => ?_, fun hnone => ?_,
    hretained⟩, hids⟩
  · rw [hname, Json.getD_filledText?_of_provides hprovided]
  · rw [hname, Json.getD_filledText?_of_forall_not_provides hnone, toList_titleCase]
  · rw [hroute, Json.getD_filledText?_of_provides hprovided]
  · rw [hroute, Json.getD_filledText?_of_forall_not_provides hnone, defaultRoute]

/-- Every item from a position on is repaired to a page under the identifier that it has or gets. -/
theorem elements_of_pagesFrom {index : Nat} {taken : List String} {items : List Json}
    {pages : List Page} (h : pagesFrom index taken items = .ok pages) :
    pages.map Page.id = idsFrom "page" (index + 1) taken items ∧
      List.Forall₂ (fun entry page => Page.Retains page entry.2 entry.1 ∧
        Identified ("sec_" ++ page.id) (sectionItems entry.1) (page.sections.map Section.id))
        (items.zipIdx index) pages := by
  induction items generalizing index taken pages with
  | nil =>
    cases h
    exact ⟨rfl, .nil⟩
  | cons item rest ih =>
    unfold pagesFrom at h
    split at h
    · cases h
    next first taken' hfirst =>
      split at h
      · cases h
      next others hothers =>
        cases h
        obtain ⟨hids, hretained⟩ := ih hothers
        obtain ⟨members, rfl, hid, -⟩ := pageAt_eq_ok hfirst
        refine ⟨?_, .cons (retains_of_pageAt hfirst) hretained⟩
        rw [List.map_cons, hids, idsFrom_object rest hid]

end Repair

end Siteworks
