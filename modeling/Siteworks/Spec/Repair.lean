import Siteworks.Spec.Violation

/-!
# Repairing documents

The spec that a document means. What is missing and follows from the rest is filled in: the slug,
the identifiers, a page's name and route. What is optional and malformed is left out. Nothing else
is invented: without a project name, pages and the kind of every section there is no spec. Nor is
anything that was provided changed, so that two elements that carry one identifier stay a fault.
-/

namespace Siteworks

namespace Repair

/-- What ends a repair. -/
abbrev Outcome := Except GenerationError

/-- A repair that fails. -/
def fail {α : Type} (fault : SpecFault) : Outcome α := .error (.unrecoverableSpec fault)

/-- The identifier for a number behind a stem. -/
def numberedId (stem : String) (number : Nat) : String := stem ++ "_" ++ toString number

/-- The number behind a stem and an underscore. -/
def numberBehind (stem id : String) : Nat :=
  Nat.ofDigitChars 10 (id.toList.drop (stem.length + 1)) 0

/-- The number behind the stem of a numbered identifier is its number. -/
theorem numberBehind_numberedId (stem : String) (number : Nat) :
    numberBehind stem (numberedId stem number) = number := by
  simp [numberBehind, numberedId, ← String.length_toList]

/-- How many identifiers are taken whose number is not below the given one. -/
def ahead (stem : String) (number : Nat) (taken : List String) : Nat :=
  (taken.filter fun id => number ≤ numberBehind stem id).length

/-- Behind a number whose identifier is taken, fewer are taken. -/
theorem ahead_lt {stem : String} {number : Nat} {taken : List String}
    (h : numberedId stem number ∈ taken) : ahead stem (number + 1) taken < ahead stem number taken := by
  have hfilter : (taken.filter fun id => number + 1 ≤ numberBehind stem id) =
      (taken.filter fun id => number ≤ numberBehind stem id).filter
        fun id => number + 1 ≤ numberBehind stem id := by
    rw [List.filter_filter]
    refine List.filter_congr fun id _ => ?_
    by_cases hlt : number + 1 ≤ numberBehind stem id
    · simp [hlt, Nat.le_of_succ_le hlt]
    · simp [hlt]
  rw [ahead, ahead, hfilter, List.length_filter_lt_length_iff_exists]
  exact ⟨numberedId stem number, by simp [h, numberBehind_numberedId],
    by simp [numberBehind_numberedId]⟩

/-- The first identifier from a number on that is not taken, and what is taken with it. The search
ends because each identifier that it finds taken has another number. The number stands for a machine
word as long as the word has room for the start and one more for each identifier taken, as it has for
the positions in a list in memory and the identifiers of its items (`nextFreeId_ends`). -/
def nextFreeId (stem : String) (number : Nat) (taken : List String) : String × List String :=
  if numberedId stem number ∈ taken then nextFreeId stem (number + 1) taken
  else (numberedId stem number, numberedId stem number :: taken)
termination_by ahead stem number taken
decreasing_by exact ahead_lt ‹_›

/-- A word with its first character in upper case. -/
def capitalize : List Char → List Char
  | [] => []
  | first :: rest => Text.uppercase first ++ rest

/-- The words of an identifier, each with its first character in upper case. -/
def titleCase (id : String) : String :=
  String.ofList ([' '].intercalate ((Text.runs (· ≠ '_') id.toList).map capitalize))

/-- The first identifier that an earlier item of the list carries too. -/
def repeatedId? (seen : List String) : List Json → Option String
  | [] => none
  | item :: rest =>
    match Violation.itemId? item with
    | none => repeatedId? seen rest
    | some id => if id ∈ seen then some id else repeatedId? (seen ++ [id]) rest

/-- The identifiers that the items of a list carry. -/
def providedIds (items : List Json) : List String := items.filterMap Violation.itemId?

/-- Repair the project: its slug follows from its name unless it is URL-safe as provided. -/
def project (root : List (String × Json)) : Outcome Project :=
  let members := ((Json.lookup "project" root).bind Json.members?).getD []
  match Json.filledText? "name" members with
  | none => fail .nameMissing
  | some name =>
    match (Json.lookup "slug" members).bind Json.text? with
    | some slug =>
      if Slug.isUrlSafe slug then .ok ⟨name, some slug⟩
      else if Slug.ofName name = "" then fail (.emptySlug name)
      else .ok ⟨name, some (Slug.ofName name)⟩
    | none =>
      if Slug.ofName name = "" then fail (.emptySlug name)
      else .ok ⟨name, some (Slug.ofName name)⟩

/-- Repair the theme: a colour or font that is malformed is left out, and so is a theme with
neither. -/
def theme (value : Json) : Option Theme :=
  match value.members? with
  | none => none
  | some members =>
    let primaryColor := ((Json.lookup "primaryColor" members).bind Json.text?).filter
      fun text => (Rgb.ofHex? text).isSome
    let font := Json.filledText? "font" members
    if primaryColor.isNone && font.isNone then none else some ⟨primaryColor, font⟩

/-- Repair the section at a position of a page, counted from zero; answers the section and the
identifiers taken after it. -/
def sectionAt (pageId : String) (index : Nat) (taken : List String) (item : Json) :
    Outcome (Section × List String) :=
  match item.members? with
  | none => fail (.sectionNotObject pageId (index + 1))
  | some members =>
    match Json.filledText? "kind" members with
    | none => fail (.kindMissing pageId (index + 1))
    | some kind =>
      let variant := Json.filledText? "variant" members
      let content := (Json.lookup "content" members).bind Json.members?
      match Json.filledText? "id" members with
      | some id => .ok (⟨id, kind, variant, content⟩, taken)
      | none =>
        let (id, taken) := nextFreeId ("sec_" ++ pageId) (index + 1) taken
        .ok (⟨id, kind, variant, content⟩, taken)

/-- Repair the sections of a page from a position on. -/
def sectionsFrom (pageId : String) (index : Nat) (taken : List String) :
    List Json → Outcome (List Section)
  | [] => .ok []
  | item :: rest =>
    match sectionAt pageId index taken item with
    | .error e => .error e
    | .ok (first, taken) =>
      match sectionsFrom pageId (index + 1) taken rest with
      | .error e => .error e
      | .ok others => .ok (first :: others)

/-- Repair the sections of a page; there are none unless they are an array. -/
def sections (pageId : String) (value : Option Json) : Outcome (List Section) :=
  match value.bind Json.items? with
  | none => .ok []
  | some items =>
    match repeatedId? [] items with
    | some id => fail (.duplicateSectionId pageId id)
    | none => sectionsFrom pageId 0 (providedIds items) items

/-- The route of a page that provides none. -/
def defaultRoute (index : Nat) (id : String) : String := if index = 0 then "/" else "/" ++ id

/-- Repair the page at a position, counted from zero; answers the page and the identifiers taken
after it. -/
def pageAt (index : Nat) (taken : List String) (item : Json) : Outcome (Page × List String) :=
  match item.members? with
  | none => fail (.pageNotObject index)
  | some members =>
    let (id, taken) := match Json.filledText? "id" members with
      | some id => (id, taken)
      | none => nextFreeId "page" (index + 1) taken
    let name := (Json.filledText? "name" members).getD (titleCase id)
    let route := (Json.filledText? "route" members).getD (defaultRoute index id)
    match sections id (Json.lookup "sections" members) with
    | .error e => .error e
    | .ok parts => .ok (⟨id, name, route, parts⟩, taken)

/-- Repair the pages from a position on. -/
def pagesFrom (index : Nat) (taken : List String) : List Json → Outcome (List Page)
  | [] => .ok []
  | item :: rest =>
    match pageAt index taken item with
    | .error e => .error e
    | .ok (first, taken) =>
      match pagesFrom (index + 1) taken rest with
      | .error e => .error e
      | .ok others => .ok (first :: others)

/-- Repair the pages of a document. -/
def pages (root : List (String × Json)) : Outcome (List Page) :=
  match (Json.lookup "pages" root).bind Json.items? with
  | none | some [] => fail .pagesMissing
  | some items =>
    match repeatedId? [] items with
    | some id => fail (.duplicatePageId id)
    | none => pagesFrom 0 (providedIds items) items

end Repair

/-- The spec that a document means. -/
def Spec.repair (document : Json) : Except GenerationError Spec :=
  match document.members? with
  | none => Repair.fail .rootNotObject
  | some root =>
    match Repair.project root with
    | .error e => .error e
    | .ok project =>
      match Repair.pages root with
      | .error e => .error e
      | .ok pages =>
        .ok {
          project
          architecture :=
            ((Json.lookup "architecture" root).bind Json.text?).bind Architecture.ofName?
          theme := (Json.lookup "theme" root).bind Repair.theme
          pages }

end Siteworks
