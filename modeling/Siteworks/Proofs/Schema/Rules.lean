import Mathlib
import Siteworks.Proofs.Repair.Agreement

/-!
# The schema and its rules

The schema is stated twice, without the check: as what a document must be, and rule by rule, as
what it means that the rule a violation names is broken. A rule about the fields of a container is
broken only if the container is there. Every rule has a place in the order of a document.
-/

namespace Siteworks

open Text (allBlank)

/-! ## What a document must be -/

/-- The member is there and a string that is not blank. -/
def Json.HasText (key : String) (members : List (String × Json)) : Prop :=
  ∃ text, lookup key members = some (.string text) ∧ allBlank text.toList = false

namespace Schema

/-- The members describe a section. -/
structure IsSection (members : List (String × Json)) : Prop where
  /-- There is an identifier. -/
  id : Json.HasText "id" members
  /-- There is a kind. -/
  kind : Json.HasText "kind" members
  /-- A variant is a string that is not blank. -/
  variant : ∀ value, Json.lookup "variant" members = some value →
    ∃ text, value = .string text ∧ allBlank text.toList = false
  /-- A content is an object. -/
  content : ∀ value, Json.lookup "content" members = some value →
    ∃ content, value = .object content

/-- The members describe a page. -/
structure IsPage (members : List (String × Json)) : Prop where
  /-- There is an identifier. -/
  id : Json.HasText "id" members
  /-- There is a name. -/
  name : Json.HasText "name" members
  /-- There is a route. -/
  route : Json.HasText "route" members
  /-- There is an array of sections with different identifiers. -/
  sections : ∃ items, Json.lookup "sections" members = some (.array items) ∧
    (∀ item ∈ items, ∃ part, item = .object part ∧ IsSection part) ∧
      items.Pairwise fun a b => Json.at? ["id"] a ≠ Json.at? ["id"] b

/-- The members describe a theme. -/
structure IsTheme (members : List (String × Json)) : Prop where
  /-- A colour is one in hexadecimal notation. -/
  primaryColor : ∀ value, Json.lookup "primaryColor" members = some value →
    ∃ text, value = .string text ∧ (Rgb.ofHex? text).isSome
  /-- A font is a string that is not blank. -/
  font : ∀ value, Json.lookup "font" members = some value →
    ∃ text, value = .string text ∧ allBlank text.toList = false

/-- The members describe a project. -/
structure IsProject (members : List (String × Json)) : Prop where
  /-- There is a name. -/
  name : Json.HasText "name" members
  /-- A slug can stand in a web address. -/
  slug : ∀ value, Json.lookup "slug" members = some value →
    ∃ text, value = .string text ∧ Slug.isUrlSafe text = true

/-- The members describe a site. -/
structure IsSpec (members : List (String × Json)) : Prop where
  /-- There is a project. -/
  project : ∃ project, Json.lookup "project" members = some (.object project) ∧ IsProject project
  /-- An architecture is the name of one. -/
  architecture : ∀ value, Json.lookup "architecture" members = some value →
    ∃ architecture : Architecture, value = .string architecture.name
  /-- A theme is an object that describes one. -/
  theme : ∀ value, Json.lookup "theme" members = some value →
    ∃ theme, value = .object theme ∧ IsTheme theme
  /-- There are pages, with different identifiers. -/
  pages : ∃ items, Json.lookup "pages" members = some (.array items) ∧ items ≠ [] ∧
    (∀ item ∈ items, ∃ page, item = .object page ∧ IsPage page) ∧
      items.Pairwise fun a b => Json.at? ["id"] a ≠ Json.at? ["id"] b

/-! ## What it means to break a rule -/

/-- The page of a document at a position. -/
def page? (document : Json) (index : Nat) : Option Json :=
  ((Json.at? ["pages"] document).bind Json.items?).bind (·[index]?)

/-- What a document has at a position. -/
def find? (document : Json) : Position → Option Json
  | .project => Json.at? ["project"] document
  | .page index => page? document index
  | .inPage pageIndex index =>
    (((page? document pageIndex).bind (Json.at? ["sections"])).bind Json.items?).bind (·[index]?)

/-- What stands at a position is an object with a field. -/
def FieldAt (document : Json) (position : Position) (key : String) (value : Json) : Prop :=
  ∃ members, find? document position = some (.object members) ∧
    Json.lookup key members = some value

/-- What stands at a position is an object without a field. -/
def NoFieldAt (document : Json) (position : Position) (key : String) : Prop :=
  ∃ members, find? document position = some (.object members) ∧ Json.lookup key members = none

/-- What stands at a position carries an identifier. -/
def CarriesId (document : Json) (position : Position) (id : String) : Prop :=
  FieldAt document position "id" (.string id) ∧ allBlank id.toList = false

/-- The fields without which an object at a position says too little. -/
def required : Position → List String
  | .project => ["name"]
  | .page _ => ["id", "name", "route"]
  | .inPage _ _ => ["id", "kind"]

/-- The document breaks the rule that a violation names, where it names it. -/
def Breaks (document : Json) : Violation → Prop
  | .rootNotObject => ∀ root, document ≠ .object root
  | .projectMissing => ∃ root, document = .object root ∧ Json.lookup "project" root = none
  | .projectNotObject =>
    ∃ value, find? document .project = some value ∧ ∀ members, value ≠ .object members
  | .textMissing position field => field ∈ required position ∧
    ∃ members, find? document position = some (.object members) ∧ ¬ Json.HasText field members
  | .slugNotUrlSafe slug =>
    FieldAt document .project "slug" (.string slug) ∧ Slug.isUrlSafe slug = false
  | .slugNotText =>
    ∃ value, FieldAt document .project "slug" value ∧ ∀ text, value ≠ .string text
  | .unknownArchitecture value => Json.at? ["architecture"] document = some value ∧
    ∀ architecture : Architecture, value ≠ .string architecture.name
  | .themeNotObject =>
    ∃ value, Json.at? ["theme"] document = some value ∧ ∀ members, value ≠ .object members
  | .badColor value => Json.at? ["theme", "primaryColor"] document = some value ∧
    ∀ text, value = .string text → Rgb.ofHex? text = none
  | .badFont => ∃ value, Json.at? ["theme", "font"] document = some value ∧
    ∀ text, value = .string text → allBlank text.toList = true
  | .pagesMissing => ∃ root, document = .object root ∧ Json.lookup "pages" root = none
  | .pagesNotArray =>
    ∃ value, Json.at? ["pages"] document = some value ∧ ∀ items, value ≠ .array items
  | .pagesEmpty => Json.at? ["pages"] document = some (.array [])
  | .notObject position => position ≠ .project ∧
    ∃ item, find? document position = some item ∧ ∀ members, item ≠ .object members
  | .duplicatePageId index id => CarriesId document (.page index) id ∧
    ∃ earlier < index, CarriesId document (.page earlier) id
  | .sectionsMissing index => NoFieldAt document (.page index) "sections"
  | .sectionsNotArray index =>
    ∃ value, FieldAt document (.page index) "sections" value ∧ ∀ items, value ≠ .array items
  | .duplicateSectionId page index id => CarriesId document (.inPage page index) id ∧
    ∃ earlier < index, CarriesId document (.inPage page earlier) id
  | .variantEmpty page index => ∃ text,
    FieldAt document (.inPage page index) "variant" (.string text) ∧ allBlank text.toList = true
  | .variantNotText page index =>
    ∃ value, FieldAt document (.inPage page index) "variant" value ∧ ∀ text, value ≠ .string text
  | .contentNotObject page index =>
    ∃ value, FieldAt document (.inPage page index) "content" value ∧
      ∀ members, value ≠ .object members

end Schema

/-- Where a position stands in the order of a document: behind the project, the architecture and the
theme come the pages, and in a page the sections behind the other fields. -/
def Position.place : Position → List Nat
  | .project => [1]
  | .page index => [4, index]
  | .inPage pageIndex index => [4, pageIndex, 3, index]

/-- Where the rule that a violation names stands in the order of a document. Violations of one rule
are at one place. -/
def Violation.place : Violation → List Nat
  | .rootNotObject => [0]
  | .projectMissing | .projectNotObject => Position.project.place
  | .textMissing position field => position.place ++ [(Schema.required position).idxOf field]
  | .slugNotUrlSafe _ | .slugNotText => Position.project.place ++ [1]
  | .unknownArchitecture _ => [2]
  | .themeNotObject => [3]
  | .badColor _ => [3, 0]
  | .badFont => [3, 1]
  | .pagesMissing | .pagesNotArray | .pagesEmpty => [4]
  | .notObject position => position.place
  | .duplicatePageId index _ => (Position.page index).place ++ [0]
  | .sectionsMissing index | .sectionsNotArray index => (Position.page index).place ++ [3]
  | .duplicateSectionId page index _ => (Position.inPage page index).place ++ [0]
  | .variantEmpty page index | .variantNotText page index =>
    (Position.inPage page index).place ++ [2]
  | .contentNotObject page index => (Position.inPage page index).place ++ [3]

/-! ## Reading members -/

namespace Json

/-- A member of an object is what one key leads to. -/
@[simp] theorem at?_object (key : String) (members : List (String × Json)) :
    at? [key] (.object members) = lookup key members := by
  simp [at?, members?]

/-- Only objects have members. -/
theorem at?_eq_some_iff {key : String} {value found : Json} :
    at? [key] value = some found ↔
      ∃ members, value = .object members ∧ lookup key members = some found := by
  cases value <;> simp [at?, members?]

/-- What two keys lead to is a member of an object in an object. -/
theorem at?_pair_eq_some_iff {key key' : String} {value found : Json} :
    at? [key, key'] value = some found ↔
      ∃ members inner, value = .object members ∧ lookup key members = some (.object inner) ∧
        lookup key' inner = some found := by
  have hinner (middle : Json) : at? [key'] middle = some found ↔
      ∃ inner, middle = .object inner ∧ lookup key' inner = some found := at?_eq_some_iff
  rw [at?, Option.bind_eq_some_iff]
  cases value <;> simp [members?, hinner]

/-- The items of a value are there if it is an array. -/
theorem items?_eq_some_iff {value : Json} {items : List Json} :
    value.items? = some items ↔ value = .array items := by
  cases value <;> simp [items?]

/-- The members of a value are there if it is an object. -/
theorem members?_eq_some_iff {value : Json} {members : List (String × Json)} :
    value.members? = some members ↔ value = .object members := by
  cases value <;> simp [members?]

/-- Without members a value is no object. -/
theorem members?_eq_none_iff {value : Json} :
    value.members? = none ↔ ∀ members, value ≠ .object members := by
  cases value <;> simp [members?]

/-- A text is read exactly from a member with a text. -/
theorem hasText_iff {key : String} {members : List (String × Json)} :
    HasText key members ↔ ∃ text, filledText? key members = some text := by
  simp only [HasText, filledText?_eq_some_iff]

/-- No text is read exactly from a member without a text. -/
theorem filledText?_eq_none_iff {key : String} {members : List (String × Json)} :
    filledText? key members = none ↔ ¬ HasText key members := by
  rw [hasText_iff, Option.eq_none_iff_forall_ne_some]
  simp

end Json

namespace Schema

variable {document : Json} {root members : List (String × Json)}

/-! ## Finding pages and sections -/

/-- The pages of a document are the items of its list of pages. -/
theorem find?_page {items : List Json} (hpages : Json.lookup "pages" root = some (.array items))
    (index : Nat) : find? (.object root) (.page index) = items[index]? := by
  simp [find?, page?, hpages, Json.items?]

/-- A page is an item of the list of pages. -/
theorem exists_of_find?_page {index : Nat} {item : Json}
    (h : find? document (.page index) = some item) :
    ∃ root items, document = .object root ∧ Json.lookup "pages" root = some (.array items) ∧
      items[index]? = some item := by
  simp only [find?, page?, Option.bind_eq_some_iff, Json.at?_eq_some_iff,
    Json.items?_eq_some_iff] at h
  obtain ⟨items, ⟨value, ⟨root, rfl, hroot⟩, rfl⟩, hitem⟩ := h
  exact ⟨root, items, rfl, hroot, hitem⟩

/-- The sections of a page are the items of its list of sections. -/
theorem find?_inPage {page : Nat} {items : List Json}
    (hpage : find? document (.page page) = some (.object members))
    (hsections : Json.lookup "sections" members = some (.array items)) (index : Nat) :
    find? document (.inPage page index) = items[index]? := by
  rw [find?] at hpage
  simp [find?, hpage, hsections, Json.items?]

/-- A section is an item of the list of sections of a page. -/
theorem exists_of_find?_inPage {page index : Nat} {item : Json}
    (h : find? document (.inPage page index) = some item) :
    ∃ members items, find? document (.page page) = some (.object members) ∧
      Json.lookup "sections" members = some (.array items) ∧ items[index]? = some item := by
  simp only [find?, Option.bind_eq_some_iff, Json.at?_eq_some_iff, Json.items?_eq_some_iff] at h
  obtain ⟨items, ⟨value, ⟨_, hpage, members, rfl, hsections⟩, rfl⟩, hitem⟩ := h
  exact ⟨members, items, hpage, hsections, hitem⟩

/-- An item carries the identifier that its text says. -/
theorem carriesId_iff {position : Position} {id : String} : CarriesId document position id ↔
    ∃ item, find? document position = some item ∧ Violation.itemId? item = some id := by
  simp only [CarriesId, FieldAt, Violation.itemId?, Option.bind_eq_some_iff,
    Json.members?_eq_some_iff, Json.filledText?_eq_some_iff]
  constructor
  · rintro ⟨⟨members, hfind, hlookup⟩, hfilled⟩
    exact ⟨_, hfind, members, rfl, hlookup, hfilled⟩
  · rintro ⟨_, hfind, members, rfl, hlookup, hfilled⟩
    exact ⟨⟨members, hfind, hlookup⟩, hfilled⟩

end Schema

end Siteworks
