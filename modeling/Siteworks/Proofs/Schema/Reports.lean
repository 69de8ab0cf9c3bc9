import Mathlib
import Siteworks.Proofs.Schema.Rules

/-!
# What the check reports

The check goes through a document field by field. Whatever it reports is a rule that is broken, and
every rule that is broken is reported: no violation of one field keeps another from being reported,
and a repeated identifier is reported exactly where an earlier item of the same list carries it.
-/

namespace Siteworks

namespace Violation

open Schema

/-! ## Lists of items -/

/-- The violations of an item of a list. -/
def ofItem (missing : Nat → Violation)
    (ofMembers : Nat → List String → List (String × Json) → List Violation)
    (index : Nat) (seen : List String) (item : Json) : List Violation :=
  match item.members? with
  | none => [missing index]
  | some members => ofMembers index seen members

/-- The violations of the items of a list from a position on. -/
def ofItems (missing : Nat → Violation)
    (ofMembers : Nat → List String → List (String × Json) → List Violation)
    (index : Nat) (seen : List String) : List Json → List Violation
  | [] => []
  | item :: rest =>
    ofItem missing ofMembers index seen item
      ++ ofItems missing ofMembers (index + 1) (seen ++ (itemId? item).toList) rest

/-- Sections are checked item by item. -/
theorem ofSections_eq (page index : Nat) (seen : List String) (items : List Json) :
    ofSections page index seen items =
      ofItems (fun i => .notObject (.inPage page i)) (ofSectionMembers page) index seen items := by
  induction items generalizing index seen with
  | nil => rfl
  | cons item rest ih => rw [ofSections, ofItems, ih]; rfl

/-- Pages are checked item by item. -/
theorem ofPages_eq (index : Nat) (seen : List String) (items : List Json) :
    ofPages index seen items =
      ofItems (fun i => .notObject (.page i)) ofPageMembers index seen items := by
  induction items generalizing index seen with
  | nil => rfl
  | cons item rest ih => rw [ofPages, ofItems, ih]; rfl

variable {missing : Nat → Violation} {violation : Violation}
  {ofMembers : Nat → List String → List (String × Json) → List Violation}

/-- What is reported about a list is what is reported about an item behind the identifiers of the
items before it. -/
theorem mem_ofItems {index : Nat} {seen : List String} {items : List Json} :
    violation ∈ ofItems missing ofMembers index seen items ↔
      ∃ k item, items[k]? = some item ∧ violation ∈
        ofItem missing ofMembers (index + k) (seen ++ Repair.providedIds (items.take k)) item := by
  induction items generalizing index seen with
  | nil => simp [ofItems]
  | cons first rest ih =>
    rw [ofItems, List.mem_append, ih]
    constructor
    · rintro (hfirst | ⟨k, item, hitem, hmem⟩)
      · exact ⟨0, first, rfl, by simpa [Repair.providedIds] using hfirst⟩
      · refine ⟨k + 1, item, hitem, ?_⟩
        cases hid : itemId? first <;>
          simpa [Repair.providedIds, hid, Nat.add_assoc, Nat.add_comm 1] using hmem
    · rintro ⟨_ | k, item, hitem, hmem⟩
      · obtain rfl : first = item := by simpa using hitem
        exact Or.inl (by simpa [Repair.providedIds] using hmem)
      · refine Or.inr ⟨k, item, hitem, ?_⟩
        cases hid : itemId? first <;>
          simpa [Repair.providedIds, hid, Nat.add_assoc, Nat.add_comm 1] using hmem

variable {document : Json} {root members : List (String × Json)} {v : Violation}

/-! ## The fields of one object -/

/-- A required text is reported exactly if it is missing. -/
theorem mem_ofRequired {position : Position} {field : String} :
    v ∈ ofRequired position field members ↔
      v = .textMissing position field ∧ ¬ Json.HasText field members := by
  unfold ofRequired
  split
  next text htext => simp [Json.hasText_iff, htext]
  next hnone => simp [Json.filledText?_eq_none_iff.mp hnone]

/-- What is reported about the project is broken there. -/
theorem breaks_of_mem_ofProject (h : v ∈ ofProject root) :
    Breaks (.object root) v := by
  unfold ofProject at h
  split at h
  next hnone =>
    obtain rfl := List.mem_singleton.mp h
    exact ⟨root, rfl, hnone⟩
  next members hmembers =>
    have hfind : find? (.object root) .project = some (.object members) := by
      simpa [find?] using hmembers
    rcases List.mem_append.mp h with h | h
    · obtain ⟨rfl, hmissing⟩ := mem_ofRequired.mp h
      exact ⟨by simp [required], members, hfind, hmissing⟩
    · split at h
      next => cases h
      next slug hslug =>
        split at h
        next => cases h
        next hnotSafe =>
          obtain rfl := List.mem_singleton.mp h
          exact ⟨⟨members, hfind, hslug⟩, by simpa using hnotSafe⟩
      next value hother hvalue =>
        obtain rfl := List.mem_singleton.mp h
        exact ⟨value, ⟨members, hfind, hvalue⟩, hother⟩
  next value hother hvalue =>
    obtain rfl := List.mem_singleton.mp h
    exact ⟨value, by simpa [find?] using hvalue, hother⟩

/-- What is reported about the architecture is broken there. -/
theorem breaks_of_mem_ofArchitecture (h : v ∈ ofArchitecture root) :
    Breaks (.object root) v := by
  unfold ofArchitecture at h
  split at h
  next => cases h
  next value hvalue =>
    split at h
    next => cases h
    next hunknown =>
      obtain rfl := List.mem_singleton.mp h
      refine ⟨by simpa using hvalue, fun architecture harchitecture => ?_⟩
      simp [harchitecture, Json.text?, Architecture.ofName?_name] at hunknown

/-- What is reported about a colour is broken there. -/
theorem breaks_of_mem_ofColor (hroot : Json.lookup "theme" root = some (.object members))
    (h : v ∈ ofColor members) : Breaks (.object root) v := by
  unfold ofColor at h
  split at h
  next => cases h
  next value hvalue =>
    split at h
    next => cases h
    next hnone =>
      obtain rfl := List.mem_singleton.mp h
      refine ⟨by simp [Json.at?, Json.members?, hroot, hvalue], fun text htext => ?_⟩
      simpa [htext, Json.text?] using hnone

/-- What is reported about a font is broken there. -/
theorem breaks_of_mem_ofFont (hroot : Json.lookup "theme" root = some (.object members))
    (h : v ∈ ofFont members) : Breaks (.object root) v := by
  unfold ofFont at h
  split at h
  next => cases h
  next value hvalue =>
    split at h
    next => cases h
    next hnone =>
      obtain rfl := List.mem_singleton.mp h
      refine ⟨value, by simp [Json.at?, Json.members?, hroot, hvalue], fun text htext => ?_⟩
      rw [Json.filledText?_eq_none_iff] at hnone
      by_contra hfilled
      exact hnone ⟨text, htext ▸ hvalue, by simpa using hfilled⟩

/-- What is reported about the theme is broken there. -/
theorem breaks_of_mem_ofTheme (h : v ∈ ofTheme root) :
    Breaks (.object root) v := by
  unfold ofTheme at h
  split at h
  next => cases h
  next members hmembers =>
    rcases List.mem_append.mp h with h | h
    · exact breaks_of_mem_ofColor hmembers h
    · exact breaks_of_mem_ofFont hmembers h
  next value hother hvalue =>
    obtain rfl := List.mem_singleton.mp h
    exact ⟨value, by simpa using hvalue, hother⟩

/-- What is reported about a variant is broken there. -/
theorem breaks_of_mem_ofVariant {page index : Nat}
    (hfind : find? document (.inPage page index) = some (.object members))
    (h : v ∈ ofVariant page index members) :
    Breaks document v := by
  unfold ofVariant at h
  split at h
  next => cases h
  next text htext =>
    split at h
    next hblank =>
      obtain rfl := List.mem_singleton.mp h
      exact ⟨text, ⟨members, hfind, htext⟩, hblank⟩
    next => cases h
  next value hother hvalue =>
    obtain rfl := List.mem_singleton.mp h
    exact ⟨value, ⟨members, hfind, hvalue⟩, hother⟩

/-- What is reported about a content is broken there. -/
theorem breaks_of_mem_ofContent {page index : Nat}
    (hfind : find? document (.inPage page index) = some (.object members))
    (h : v ∈ ofContent page index members) : Breaks document v := by
  unfold ofContent at h
  split at h
  next => cases h
  next => cases h
  next value hother hvalue =>
    obtain rfl := List.mem_singleton.mp h
    exact ⟨value, ⟨members, hfind, hvalue⟩, hother⟩

/-- The report on the identifier of an object. -/
def ofId (position : Position) (duplicate : String → Violation) (seen : List String)
    (members : List (String × Json)) : List Violation :=
  match Json.filledText? "id" members with
  | none => [.textMissing position "id"]
  | some id => if id ∈ seen then [duplicate id] else []

/-- An identifier is reported if it is missing or has been seen. -/
theorem mem_ofId {position : Position} {duplicate : String → Violation} {seen : List String} :
    v ∈ ofId position duplicate seen members ↔
      (v = .textMissing position "id" ∧ ¬ Json.HasText "id" members) ∨
        ∃ id ∈ seen, Json.filledText? "id" members = some id ∧ v = duplicate id := by
  unfold ofId
  split
  next hnone => simp [hnone, Json.filledText?_eq_none_iff.mp hnone]
  next id hid =>
    by_cases hseen : id ∈ seen
    · simp [hid, hseen, Json.hasText_iff]
    · simp [hid, hseen, Json.hasText_iff]

/-! ## Pages and sections -/

/-- The identifiers before a position are those that earlier items carry. -/
theorem mem_providedIds_take {items : List Json} {k : Nat} {id : String} :
    id ∈ Repair.providedIds (items.take k) ↔
      ∃ m < k, ∃ item, items[m]? = some item ∧ itemId? item = some id := by
  have htake (item : Json) : item ∈ items.take k ↔ ∃ m < k, items[m]? = some item := by
    simp only [List.mem_iff_getElem?, List.getElem?_take, Option.ite_none_right_eq_some]
  simp only [Repair.providedIds, List.mem_filterMap, htake]
  constructor
  · rintro ⟨item, ⟨m, hm, hitem⟩, hid⟩
    exact ⟨m, hm, item, hitem, hid⟩
  · rintro ⟨m, hm, item, hitem, hid⟩
    exact ⟨item, ⟨m, hm, hitem⟩, hid⟩

/-- A section is checked field by field. -/
theorem ofSectionMembers_eq (page index : Nat) (seen : List String)
    (members : List (String × Json)) : ofSectionMembers page index seen members =
      ofId (.inPage page index) (.duplicateSectionId page index) seen members
        ++ ofRequired (.inPage page index) "kind" members ++ ofVariant page index members
        ++ ofContent page index members :=
  rfl

/-- What is reported about a section is broken there. -/
theorem breaks_of_mem_ofSectionMembers {page index : Nat} {seen : List String}
    (hfind : find? document (.inPage page index) = some (.object members))
    (hseen : ∀ id ∈ seen, ∃ earlier < index, CarriesId document (.inPage page earlier) id)
    (h : v ∈ ofSectionMembers page index seen members) : Breaks document v := by
  simp only [ofSectionMembers_eq, List.mem_append] at h
  rcases h with ((h | h) | h) | h
  · rcases mem_ofId.mp h with ⟨rfl, hmissing⟩ | ⟨id, hid, hfound, rfl⟩
    · exact ⟨by simp [required], members, hfind, hmissing⟩
    · exact ⟨carriesId_iff.mpr ⟨_, hfind, hfound⟩, hseen id hid⟩
  · obtain ⟨rfl, hmissing⟩ := mem_ofRequired.mp h
    exact ⟨by simp [required], members, hfind, hmissing⟩
  · exact breaks_of_mem_ofVariant hfind h
  · exact breaks_of_mem_ofContent hfind h

/-- What is reported about the sections of a page is broken there. -/
theorem breaks_of_mem_ofSections {page : Nat} {items : List Json}
    (hpage : find? document (.page page) = some (.object members))
    (hsections : Json.lookup "sections" members = some (.array items))
    (h : v ∈ ofSections page 0 [] items) : Breaks document v := by
  have hfind := find?_inPage hpage hsections
  rw [ofSections_eq] at h
  obtain ⟨k, item, hitem, h⟩ := mem_ofItems.mp h
  rw [Nat.zero_add, List.nil_append] at h
  unfold ofItem at h
  split at h
  next hnone =>
    obtain rfl := List.mem_singleton.mp h
    exact ⟨by simp, item, (hfind k).trans hitem, Json.members?_eq_none_iff.mp hnone⟩
  next part hpart =>
    obtain rfl := Json.members?_eq_some_iff.mp hpart
    refine breaks_of_mem_ofSectionMembers ((hfind k).trans hitem) (fun id hid => ?_) h
    obtain ⟨m, hm, other, hother, hcarries⟩ := mem_providedIds_take.mp hid
    exact ⟨m, hm, carriesId_iff.mpr ⟨other, (hfind m).trans hother, hcarries⟩⟩

/-- The report on the sections of a page. -/
def ofSectionList (page : Nat) (members : List (String × Json)) : List Violation :=
  match Json.lookup "sections" members with
  | none => [.sectionsMissing page]
  | some (.array sections) => ofSections page 0 [] sections
  | some _ => [.sectionsNotArray page]

/-- A page is checked field by field. -/
theorem ofPageMembers_eq (index : Nat) (seen : List String) (members : List (String × Json)) :
    ofPageMembers index seen members =
      ofId (.page index) (.duplicatePageId index) seen members
        ++ ofRequired (.page index) "name" members ++ ofRequired (.page index) "route" members
        ++ ofSectionList index members :=
  rfl

/-- What is reported about a page is broken there. -/
theorem breaks_of_mem_ofPageMembers {index : Nat} {seen : List String}
    (hfind : find? document (.page index) = some (.object members))
    (hseen : ∀ id ∈ seen, ∃ earlier < index, CarriesId document (.page earlier) id)
    (h : v ∈ ofPageMembers index seen members) : Breaks document v := by
  simp only [ofPageMembers_eq, List.mem_append] at h
  rcases h with ((h | h) | h) | h
  · rcases mem_ofId.mp h with ⟨rfl, hmissing⟩ | ⟨id, hid, hfound, rfl⟩
    · exact ⟨by simp [required], members, hfind, hmissing⟩
    · exact ⟨carriesId_iff.mpr ⟨_, hfind, hfound⟩, hseen id hid⟩
  · obtain ⟨rfl, hmissing⟩ := mem_ofRequired.mp h
    exact ⟨by simp [required], members, hfind, hmissing⟩
  · obtain ⟨rfl, hmissing⟩ := mem_ofRequired.mp h
    exact ⟨by simp [required], members, hfind, hmissing⟩
  · unfold ofSectionList at h
    split at h
    next hnone =>
      obtain rfl := List.mem_singleton.mp h
      exact ⟨members, hfind, hnone⟩
    next items hitems => exact breaks_of_mem_ofSections hfind hitems h
    next value hother hvalue =>
      obtain rfl := List.mem_singleton.mp h
      exact ⟨value, ⟨members, hfind, hvalue⟩, hother⟩

/-- What is reported about the pages is broken there. -/
theorem breaks_of_mem_ofPageList (h : v ∈ ofPageList root) : Breaks (.object root) v := by
  unfold ofPageList at h
  split at h
  next hnone =>
    obtain rfl := List.mem_singleton.mp h
    exact ⟨root, rfl, hnone⟩
  next hempty =>
    obtain rfl := List.mem_singleton.mp h
    simpa [Breaks] using hempty
  next items _ hitems =>
    have hfind := find?_page hitems
    rw [ofPages_eq] at h
    obtain ⟨k, item, hitem, h⟩ := mem_ofItems.mp h
    rw [Nat.zero_add, List.nil_append] at h
    unfold ofItem at h
    split at h
    next hnone =>
      obtain rfl := List.mem_singleton.mp h
      exact ⟨by simp, item, (hfind k).trans hitem, Json.members?_eq_none_iff.mp hnone⟩
    next page hpage =>
      obtain rfl := Json.members?_eq_some_iff.mp hpage
      refine breaks_of_mem_ofPageMembers ((hfind k).trans hitem) (fun id hid => ?_) h
      obtain ⟨m, hm, other, hother, hcarries⟩ := mem_providedIds_take.mp hid
      exact ⟨m, hm, carriesId_iff.mpr ⟨other, (hfind m).trans hother, hcarries⟩⟩
  next value _ hother hvalue =>
    obtain rfl := List.mem_singleton.mp h
    exact ⟨value, by simpa using hvalue, hother⟩

/-! ## Every broken rule is reported -/

/-- What is reported about a page is reported about the document, with the identifiers of the pages
before it seen. -/
theorem exists_seen_of_page {index : Nat} {item : Json}
    (hfind : find? document (.page index) = some item) :
    ∃ seen, (∀ id, (∃ earlier < index, CarriesId document (.page earlier) id) → id ∈ seen) ∧
      ofItem (fun i => .notObject (.page i)) ofPageMembers index seen item ⊆
        Spec.violations document := by
  obtain ⟨root, items, rfl, hpages, hitem⟩ := exists_of_find?_page hfind
  refine ⟨Repair.providedIds (items.take index), ?_, fun v hv => ?_⟩
  · rintro id ⟨earlier, hlt, hcarries⟩
    obtain ⟨other, hother, hid⟩ := carriesId_iff.mp hcarries
    rw [find?_page hpages] at hother
    exact mem_providedIds_take.mpr ⟨earlier, hlt, other, hother, hid⟩
  · have hmem : v ∈ ofPages 0 [] items := by
      rw [ofPages_eq]
      exact mem_ofItems.mpr ⟨index, item, hitem, by simpa using hv⟩
    have hlist : v ∈ ofPageList root := by
      unfold ofPageList
      rw [hpages]
      cases items with
      | nil => simp at hitem
      | cons => exact hmem
    exact List.mem_append_right _ hlist

/-- What is reported about a section is reported about the document, with the identifiers of the
sections before it on its page seen. -/
theorem exists_seen_of_inPage {page index : Nat} {item : Json}
    (hfind : find? document (.inPage page index) = some item) :
    ∃ seen, (∀ id, (∃ earlier < index, CarriesId document (.inPage page earlier) id) → id ∈ seen) ∧
      ofItem (fun i => .notObject (.inPage page i)) (ofSectionMembers page) index seen item ⊆
        Spec.violations document := by
  obtain ⟨members, items, hpage, hsections, hitem⟩ := exists_of_find?_inPage hfind
  refine ⟨Repair.providedIds (items.take index), ?_, fun v hv => ?_⟩
  · rintro id ⟨earlier, hlt, hcarries⟩
    obtain ⟨other, hother, hid⟩ := carriesId_iff.mp hcarries
    rw [find?_inPage hpage hsections] at hother
    exact mem_providedIds_take.mpr ⟨earlier, hlt, other, hother, hid⟩
  · have hmem : v ∈ ofSections page 0 [] items := by
      rw [ofSections_eq]
      exact mem_ofItems.mpr ⟨index, item, hitem, by simpa using hv⟩
    obtain ⟨seen, -, hreported⟩ := exists_seen_of_page hpage
    refine hreported ?_
    simp only [ofItem, Json.members?, ofPageMembers_eq, List.mem_append, ofSectionList, hsections]
    exact Or.inr hmem

/-- A required text that is missing is reported. -/
theorem mem_of_textMissing {position : Position} {field : String}
    (hfield : field ∈ required position)
    (hfind : find? document position = some (.object members))
    (hmissing : ¬ Json.HasText field members) :
    .textMissing position field ∈ Spec.violations document := by
  have hnone := Json.filledText?_eq_none_iff.mpr hmissing
  cases position with
  | project =>
    obtain rfl : field = "name" := by simpa [required] using hfield
    obtain ⟨root, rfl, hroot⟩ := Json.at?_eq_some_iff.mp hfind
    simp [Spec.violations, Json.members?, ofProject, hroot, ofRequired, hnone]
  | page index =>
    obtain ⟨seen, -, hreported⟩ := exists_seen_of_page hfind
    refine hreported ?_
    simp only [ofItem, Json.members?, ofPageMembers_eq, List.mem_append]
    simp only [required, List.mem_cons, List.not_mem_nil, or_false] at hfield
    rcases hfield with rfl | rfl | rfl
    · exact Or.inl (Or.inl (Or.inl (mem_ofId.mpr (Or.inl ⟨rfl, hmissing⟩))))
    · exact Or.inl (Or.inl (Or.inr (mem_ofRequired.mpr ⟨rfl, hmissing⟩)))
    · exact Or.inl (Or.inr (mem_ofRequired.mpr ⟨rfl, hmissing⟩))
  | inPage page index =>
    obtain ⟨seen, -, hreported⟩ := exists_seen_of_inPage hfind
    refine hreported ?_
    simp only [ofItem, Json.members?, ofSectionMembers_eq, List.mem_append]
    simp only [required, List.mem_cons, List.not_mem_nil, or_false] at hfield
    rcases hfield with rfl | rfl
    · exact Or.inl (Or.inl (Or.inl (mem_ofId.mpr (Or.inl ⟨rfl, hmissing⟩))))
    · exact Or.inl (Or.inl (Or.inr (mem_ofRequired.mpr ⟨rfl, hmissing⟩)))

/-- An item that is no object is reported. -/
theorem mem_of_notObject {position : Position} {item : Json} (hposition : position ≠ .project)
    (hfind : find? document position = some item) (hother : ∀ members, item ≠ .object members) :
    .notObject position ∈ Spec.violations document := by
  have hnone := Json.members?_eq_none_iff.mpr hother
  cases position with
  | project => exact absurd rfl hposition
  | page index =>
    obtain ⟨seen, -, hreported⟩ := exists_seen_of_page hfind
    exact hreported (by simp [ofItem, hnone])
  | inPage page index =>
    obtain ⟨seen, -, hreported⟩ := exists_seen_of_inPage hfind
    exact hreported (by simp [ofItem, hnone])

/-- Every rule that a document breaks is reported. -/
theorem mem_violations_of_breaks (h : Breaks document v) : v ∈ Spec.violations document := by
  cases v with
  | rootNotObject => simp [Spec.violations, Json.members?_eq_none_iff.mpr h]
  | projectMissing =>
    obtain ⟨root, rfl, hnone⟩ := h
    simp [Spec.violations, Json.members?, ofProject, hnone]
  | projectNotObject =>
    obtain ⟨value, hvalue, hother⟩ := h
    obtain ⟨root, rfl, hroot⟩ := Json.at?_eq_some_iff.mp hvalue
    cases value with
    | object members => exact absurd rfl (hother members)
    | _ => simp [Spec.violations, Json.members?, ofProject, hroot]
  | textMissing position field =>
    obtain ⟨hfield, members, hfind, hmissing⟩ := h
    exact mem_of_textMissing hfield hfind hmissing
  | slugNotUrlSafe slug =>
    obtain ⟨⟨members, hfind, hslug⟩, hnotSafe⟩ := h
    obtain ⟨root, rfl, hroot⟩ := Json.at?_eq_some_iff.mp hfind
    simp [Spec.violations, Json.members?, ofProject, hroot, hslug, hnotSafe]
  | slugNotText =>
    obtain ⟨value, ⟨members, hfind, hvalue⟩, hother⟩ := h
    obtain ⟨root, rfl, hroot⟩ := Json.at?_eq_some_iff.mp hfind
    cases value with
    | string text => exact absurd rfl (hother text)
    | _ => simp [Spec.violations, Json.members?, ofProject, hroot, hvalue]
  | unknownArchitecture value =>
    obtain ⟨hvalue, hunknown⟩ := h
    obtain ⟨root, rfl, hroot⟩ := Json.at?_eq_some_iff.mp hvalue
    have hnone : value.text?.bind Architecture.ofName? = none := by
      cases value with
      | string text =>
        refine Option.eq_none_iff_forall_ne_some.mpr fun architecture hfound => ?_
        have hname : architecture.name = text := by simpa using List.find?_some hfound
        exact hunknown architecture (hname ▸ rfl)
      | _ => rfl
    simp [Spec.violations, Json.members?, ofArchitecture, hroot, hnone]
  | themeNotObject =>
    obtain ⟨value, hvalue, hother⟩ := h
    obtain ⟨root, rfl, hroot⟩ := Json.at?_eq_some_iff.mp hvalue
    cases value with
    | object members => exact absurd rfl (hother members)
    | _ => simp [Spec.violations, Json.members?, ofTheme, hroot]
  | badColor value =>
    obtain ⟨hvalue, hbad⟩ := h
    obtain ⟨root, theme, rfl, hroot, htheme⟩ := Json.at?_pair_eq_some_iff.mp hvalue
    have hnone : value.text?.bind Rgb.ofHex? = none := by
      cases value with
      | string text => exact hbad text rfl
      | _ => rfl
    simp [Spec.violations, Json.members?, ofTheme, hroot, ofColor, htheme, hnone]
  | badFont =>
    obtain ⟨value, hvalue, hbad⟩ := h
    obtain ⟨root, theme, rfl, hroot, htheme⟩ := Json.at?_pair_eq_some_iff.mp hvalue
    have hnone : Json.filledText? "font" theme = none := by
      refine Json.filledText?_eq_none_iff.mpr ?_
      rintro ⟨text, htext, hfilled⟩
      obtain rfl : value = .string text := Option.some.inj (htheme.symm.trans htext)
      exact absurd (hbad text rfl) (by simp [hfilled])
    simp [Spec.violations, Json.members?, ofTheme, hroot, ofFont, htheme, hnone]
  | pagesMissing =>
    obtain ⟨root, rfl, hnone⟩ := h
    simp [Spec.violations, Json.members?, ofPageList, hnone]
  | pagesNotArray =>
    obtain ⟨value, hvalue, hother⟩ := h
    obtain ⟨root, rfl, hroot⟩ := Json.at?_eq_some_iff.mp hvalue
    cases value with
    | array items => exact absurd rfl (hother items)
    | _ => simp [Spec.violations, Json.members?, ofPageList, hroot]
  | pagesEmpty =>
    obtain ⟨root, rfl, hroot⟩ := Json.at?_eq_some_iff.mp h
    simp [Spec.violations, Json.members?, ofPageList, hroot]
  | notObject position =>
    obtain ⟨hposition, item, hfind, hother⟩ := h
    exact mem_of_notObject hposition hfind hother
  | duplicatePageId index id =>
    obtain ⟨hcarries, hearlier⟩ := h
    obtain ⟨item, hfind, hid⟩ := carriesId_iff.mp hcarries
    obtain ⟨members, hmembers, hfound⟩ := Option.bind_eq_some_iff.mp hid
    obtain ⟨seen, hseen, hreported⟩ := exists_seen_of_page hfind
    refine hreported ?_
    simp only [ofItem, hmembers, ofPageMembers_eq, List.mem_append]
    exact Or.inl (Or.inl (Or.inl (mem_ofId.mpr (Or.inr ⟨id, hseen id hearlier, hfound, rfl⟩))))
  | sectionsMissing index =>
    obtain ⟨members, hfind, hnone⟩ := h
    obtain ⟨seen, -, hreported⟩ := exists_seen_of_page hfind
    exact hreported (by simp [ofItem, Json.members?, ofPageMembers_eq, ofSectionList, hnone])
  | sectionsNotArray index =>
    obtain ⟨value, ⟨members, hfind, hvalue⟩, hother⟩ := h
    obtain ⟨seen, -, hreported⟩ := exists_seen_of_page hfind
    refine hreported ?_
    cases value with
    | array items => exact absurd rfl (hother items)
    | _ => simp [ofItem, Json.members?, ofPageMembers_eq, ofSectionList, hvalue]
  | duplicateSectionId page index id =>
    obtain ⟨hcarries, hearlier⟩ := h
    obtain ⟨item, hfind, hid⟩ := carriesId_iff.mp hcarries
    obtain ⟨members, hmembers, hfound⟩ := Option.bind_eq_some_iff.mp hid
    obtain ⟨seen, hseen, hreported⟩ := exists_seen_of_inPage hfind
    refine hreported ?_
    simp only [ofItem, hmembers, ofSectionMembers_eq, List.mem_append]
    exact Or.inl (Or.inl (Or.inl (mem_ofId.mpr (Or.inr ⟨id, hseen id hearlier, hfound, rfl⟩))))
  | variantEmpty page index =>
    obtain ⟨text, ⟨members, hfind, htext⟩, hblank⟩ := h
    obtain ⟨seen, -, hreported⟩ := exists_seen_of_inPage hfind
    exact hreported (by simp [ofItem, Json.members?, ofSectionMembers_eq, ofVariant, htext, hblank])
  | variantNotText page index =>
    obtain ⟨value, ⟨members, hfind, hvalue⟩, hother⟩ := h
    obtain ⟨seen, -, hreported⟩ := exists_seen_of_inPage hfind
    refine hreported ?_
    cases value with
    | string text => exact absurd rfl (hother text)
    | _ => simp [ofItem, Json.members?, ofSectionMembers_eq, ofVariant, hvalue]
  | contentNotObject page index =>
    obtain ⟨value, ⟨members, hfind, hvalue⟩, hother⟩ := h
    obtain ⟨seen, -, hreported⟩ := exists_seen_of_inPage hfind
    refine hreported ?_
    cases value with
    | object content => exact absurd rfl (hother content)
    | _ => simp [ofItem, Json.members?, ofSectionMembers_eq, ofContent, hvalue]

/-- Every rule that is reported is broken. -/
theorem breaks_of_mem_violations (h : v ∈ Spec.violations document) : Breaks document v := by
  unfold Spec.violations at h
  split at h
  next hnone =>
    obtain rfl := List.mem_singleton.mp h
    exact Json.members?_eq_none_iff.mp hnone
  next root hroot =>
    obtain rfl := Json.members?_eq_some_iff.mp hroot
    simp only [List.mem_append] at h
    rcases h with ((h | h) | h) | h
    · exact breaks_of_mem_ofProject h
    · exact breaks_of_mem_ofArchitecture h
    · exact breaks_of_mem_ofTheme h
    · exact breaks_of_mem_ofPageList h

end Violation

end Siteworks
