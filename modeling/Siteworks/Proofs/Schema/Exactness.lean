import Mathlib
import Siteworks.Proofs.Schema.Order

/-!
# The check is exact

A document is as the schema declares it exactly if it breaks no rule. So the check finds a document
valid exactly if the schema declares it; otherwise it reports every rule that the document breaks,
once, in the order of the document.
-/

namespace Siteworks

namespace Schema

open Violation

variable {document : Json} {members : List (String × Json)}

/-- Different positions of a list carry different identifiers if no item repeats one. -/
theorem pairwise_of_not_repeated {items : List Json}
    (hids : ∀ item ∈ items, ∃ members, item = .object members ∧ Json.HasText "id" members)
    (h : ∀ (i j : Nat) (id : String), i < j → items[i]?.bind itemId? = some id →
      items[j]?.bind itemId? ≠ some id) :
    items.Pairwise fun a b => Json.at? ["id"] a ≠ Json.at? ["id"] b := by
  refine List.pairwise_iff_getElem.mpr fun i j hi hj hij hsame => ?_
  obtain ⟨members, hmembers, text, htext, hfilled⟩ := hids _ (List.getElem_mem hi)
  obtain ⟨members', hmembers', -⟩ := hids _ (List.getElem_mem hj)
  rw [hmembers, hmembers', Json.at?_object, Json.at?_object, htext] at hsame
  refine h i j text hij ?_ ?_
  · rw [List.getElem?_eq_getElem hi, hmembers]
    exact Json.filledText?_eq_some_iff.mpr ⟨htext, hfilled⟩
  · rw [List.getElem?_eq_getElem hj, hmembers']
    exact Json.filledText?_eq_some_iff.mpr ⟨hsame.symm, hfilled⟩

/-- A section that breaks no rule is one as the schema declares it. -/
theorem isSection_of_unbroken (h : ∀ v, ¬ Breaks document v) {page index : Nat}
    (hfind : find? document (.inPage page index) = some (.object members)) : IsSection members where
  id := by_contra fun hmissing =>
    h (.textMissing (.inPage page index) "id") ⟨by simp [required], members, hfind, hmissing⟩
  kind := by_contra fun hmissing =>
    h (.textMissing (.inPage page index) "kind") ⟨by simp [required], members, hfind, hmissing⟩
  variant := fun value hvalue => by
    cases value with
    | string text =>
      refine ⟨text, rfl, ?_⟩
      by_contra hblank
      exact h (.variantEmpty page index)
        ⟨text, ⟨members, hfind, hvalue⟩, by simpa using hblank⟩
    | _ => exact (h (.variantNotText page index) ⟨_, ⟨members, hfind, hvalue⟩, by simp⟩).elim
  content := fun value hvalue => by
    cases value with
    | object content => exact ⟨content, rfl⟩
    | _ => exact (h (.contentNotObject page index) ⟨_, ⟨members, hfind, hvalue⟩, by simp⟩).elim

/-- A page that breaks no rule is one as the schema declares it. -/
theorem isPage_of_unbroken (h : ∀ v, ¬ Breaks document v) {index : Nat}
    (hfind : find? document (.page index) = some (.object members)) : IsPage members where
  id := by_contra fun hmissing =>
    h (.textMissing (.page index) "id") ⟨by simp [required], members, hfind, hmissing⟩
  name := by_contra fun hmissing =>
    h (.textMissing (.page index) "name") ⟨by simp [required], members, hfind, hmissing⟩
  route := by_contra fun hmissing =>
    h (.textMissing (.page index) "route") ⟨by simp [required], members, hfind, hmissing⟩
  sections := by
    cases hsections : Json.lookup "sections" members with
    | none => exact (h (.sectionsMissing index) ⟨members, hfind, hsections⟩).elim
    | some value =>
      cases value with
      | array items =>
        have hparts := find?_inPage hfind hsections
        have hall : ∀ item ∈ items, ∃ part, item = .object part ∧ IsSection part := by
          intro item hitem
          obtain ⟨k, hk⟩ := List.mem_iff_getElem?.mp hitem
          cases item with
          | object part => exact ⟨part, rfl, isSection_of_unbroken h ((hparts k).trans hk)⟩
          | _ =>
            exact (h (.notObject (.inPage index k)) ⟨by simp, _, (hparts k).trans hk, by simp⟩).elim
        refine ⟨items, rfl, hall, pairwise_of_not_repeated (fun item hitem => ?_) ?_⟩
        · obtain ⟨part, rfl, hpart⟩ := hall item hitem
          exact ⟨part, rfl, hpart.id⟩
        · intro i j id hij hi hj
          rw [← hparts, Option.bind_eq_some_iff, ← carriesId_iff] at hi hj
          exact h (.duplicateSectionId index j id) ⟨hj, i, hij, hi⟩
      | _ => exact (h (.sectionsNotArray index) ⟨_, ⟨members, hfind, hsections⟩, by simp⟩).elim

/-- A project that breaks no rule is one as the schema declares it. -/
theorem isProject_of_unbroken (h : ∀ v, ¬ Breaks document v)
    (hfind : find? document .project = some (.object members)) : IsProject members where
  name := by_contra fun hmissing =>
    h (.textMissing .project "name") ⟨by simp [required], members, hfind, hmissing⟩
  slug := fun value hvalue => by
    cases value with
    | string slug =>
      refine ⟨slug, rfl, ?_⟩
      by_contra hnotSafe
      exact h (.slugNotUrlSafe slug) ⟨⟨members, hfind, hvalue⟩, by simpa using hnotSafe⟩
    | _ => exact (h .slugNotText ⟨_, ⟨members, hfind, hvalue⟩, by simp⟩).elim

/-- A theme that breaks no rule is one as the schema declares it. -/
theorem isTheme_of_unbroken {root : List (String × Json)} (h : ∀ v, ¬ Breaks (.object root) v)
    (htheme : Json.lookup "theme" root = some (.object members)) : IsTheme members where
  primaryColor := fun value hvalue => by
    have hat : Json.at? ["theme", "primaryColor"] (.object root) = some value :=
      Json.at?_pair_eq_some_iff.mpr ⟨root, members, rfl, htheme, hvalue⟩
    by_contra hbad
    refine h (.badColor value) ⟨hat, fun text htext => ?_⟩
    by_contra hsome
    exact hbad ⟨text, htext, Option.isSome_iff_ne_none.mpr hsome⟩
  font := fun value hvalue => by
    have hat : Json.at? ["theme", "font"] (.object root) = some value :=
      Json.at?_pair_eq_some_iff.mpr ⟨root, members, rfl, htheme, hvalue⟩
    by_contra hbad
    refine h .badFont ⟨value, hat, fun text htext => ?_⟩
    by_contra hfilled
    exact hbad ⟨text, htext, by simpa using hfilled⟩

/-- A document that breaks no rule is one as the schema declares it. -/
theorem isSpec_of_unbroken {root : List (String × Json)} (h : ∀ v, ¬ Breaks (.object root) v) :
    IsSpec root where
  project := by
    cases hproject : Json.lookup "project" root with
    | none => exact (h .projectMissing ⟨root, rfl, hproject⟩).elim
    | some value =>
      have hfind : find? (.object root) .project = some value := by simpa [find?] using hproject
      cases value with
      | object members => exact ⟨members, rfl, isProject_of_unbroken h hfind⟩
      | _ => exact (h .projectNotObject ⟨_, hfind, by simp⟩).elim
  architecture := fun value hvalue => by
    by_contra hunknown
    exact h (.unknownArchitecture value) ⟨by simpa using hvalue, fun architecture harchitecture =>
      hunknown ⟨architecture, harchitecture⟩⟩
  theme := fun value hvalue => by
    have hat : Json.at? ["theme"] (.object root) = some value := by simpa using hvalue
    cases value with
    | object members => exact ⟨members, rfl, isTheme_of_unbroken h hvalue⟩
    | _ => exact (h .themeNotObject ⟨_, hat, by simp⟩).elim
  pages := by
    cases hpages : Json.lookup "pages" root with
    | none => exact (h .pagesMissing ⟨root, rfl, hpages⟩).elim
    | some value =>
      have hat : Json.at? ["pages"] (.object root) = some value := by simpa using hpages
      cases value with
      | array items =>
        have hitems := find?_page hpages
        have hall : ∀ item ∈ items, ∃ page, item = .object page ∧ IsPage page := by
          intro item hitem
          obtain ⟨k, hk⟩ := List.mem_iff_getElem?.mp hitem
          cases item with
          | object page => exact ⟨page, rfl, isPage_of_unbroken h ((hitems k).trans hk)⟩
          | _ => exact (h (.notObject (.page k)) ⟨by simp, _, (hitems k).trans hk, by simp⟩).elim
        refine ⟨items, rfl, ?_, hall, pairwise_of_not_repeated (fun item hitem => ?_) ?_⟩
        · rintro rfl
          exact h .pagesEmpty hat
        · obtain ⟨page, rfl, hpage⟩ := hall item hitem
          exact ⟨page, rfl, hpage.id⟩
        · intro i j id hij hi hj
          rw [← hitems, Option.bind_eq_some_iff, ← carriesId_iff] at hi hj
          exact h (.duplicatePageId j id) ⟨hj, i, hij, hi⟩
      | _ => exact (h .pagesNotArray ⟨_, hat, by simp⟩).elim

/-! ## Declared documents -/

/-- What the schema declares of an object at a position. -/
def IsAt : Position → List (String × Json) → Prop
  | .project => IsProject
  | .page _ => IsPage
  | .inPage _ _ => IsSection

/-- An object as the schema declares it has the texts without which it says too little. -/
theorem IsAt.hasText {position : Position} {field : String} (h : IsAt position members)
    (hfield : field ∈ required position) : Json.HasText field members := by
  cases position with
  | project =>
    obtain rfl : field = "name" := by simpa [required] using hfield
    exact h.name
  | page index =>
    simp only [required, List.mem_cons, List.not_mem_nil, or_false] at hfield
    rcases hfield with rfl | rfl | rfl
    · exact h.id
    · exact h.name
    · exact h.route
  | inPage page index =>
    simp only [required, List.mem_cons, List.not_mem_nil, or_false] at hfield
    rcases hfield with rfl | rfl
    · exact h.id
    · exact h.kind

section Declared

variable {root : List (String × Json)}

/-- What stands at a position of a declared document is an object as the schema declares it. -/
theorem IsSpec.exists_of_find? (h : IsSpec root) {position : Position} {value : Json}
    (hfind : find? (.object root) position = some value) :
    ∃ members, value = .object members ∧ IsAt position members := by
  have hpage {index : Nat} {value : Json}
      (hfind : find? (.object root) (.page index) = some value) :
      ∃ page, value = .object page ∧ IsPage page := by
    obtain ⟨items, hitems, -, hall, -⟩ := h.pages
    rw [find?_page hitems] at hfind
    exact hall value (List.mem_of_getElem? hfind)
  cases position with
  | project =>
    obtain ⟨project, hproject, hrules⟩ := h.project
    rw [find?, Json.at?_object, hproject, Option.some.injEq] at hfind
    exact ⟨project, hfind.symm, hrules⟩
  | page index => exact hpage hfind
  | inPage page index =>
    obtain ⟨members, items, hmembers, hsections, hitem⟩ := exists_of_find?_inPage hfind
    obtain ⟨_, heq, hrules⟩ := hpage hmembers
    cases heq
    obtain ⟨items', hsections', hall, -⟩ := hrules.sections
    obtain rfl : items = items' := by simpa [hsections] using hsections'
    exact hall value (List.mem_of_getElem? hitem)

/-- An object at a position of a declared document is as the schema declares it. -/
theorem IsSpec.isAt_of_find? (h : IsSpec root) {position : Position}
    (hfind : find? (.object root) position = some (.object members)) : IsAt position members := by
  obtain ⟨_, heq, hrules⟩ := h.exists_of_find? hfind
  cases heq
  exact hrules

/-- The theme of a declared document is one. -/
theorem IsSpec.isTheme (h : IsSpec root)
    (htheme : Json.lookup "theme" root = some (.object members)) : IsTheme members := by
  obtain ⟨_, heq, hrules⟩ := h.theme _ htheme
  cases heq
  exact hrules

/-- Two items of a list with different identifiers do not carry the same. -/
theorem not_carries_both {items : List Json} {position : Nat → Position} {i j : Nat} {id : String}
    (hfind : ∀ k, find? document (position k) = items[k]?)
    (hids : items.Pairwise fun a b => Json.at? ["id"] a ≠ Json.at? ["id"] b) (hij : i < j)
    (hi : CarriesId document (position i) id) (hj : CarriesId document (position j) id) :
    False := by
  obtain ⟨⟨members, hmembers, htext⟩, -⟩ := hi
  obtain ⟨⟨members', hmembers', htext'⟩, -⟩ := hj
  rw [hfind] at hmembers hmembers'
  obtain ⟨hi, hmembers⟩ := List.getElem?_eq_some_iff.mp hmembers
  obtain ⟨hj, hmembers'⟩ := List.getElem?_eq_some_iff.mp hmembers'
  refine List.pairwise_iff_getElem.mp hids i j hi hj hij ?_
  rw [hmembers, hmembers', Json.at?_object, Json.at?_object, htext, htext']

/-- A declared document breaks no rule. -/
theorem IsSpec.unbroken (h : IsSpec root) (v : Violation) : ¬ Breaks (.object root) v := by
  intro hbreaks
  cases v with
  | rootNotObject => exact hbreaks root rfl
  | projectMissing =>
    obtain ⟨_, hroot, hnone⟩ := hbreaks
    cases hroot
    obtain ⟨project, hproject, -⟩ := h.project
    cases hnone.symm.trans hproject
  | projectNotObject =>
    obtain ⟨value, hfind, hother⟩ := hbreaks
    obtain ⟨project, rfl, -⟩ := h.exists_of_find? hfind
    exact hother project rfl
  | textMissing position field =>
    obtain ⟨hfield, members, hfind, hmissing⟩ := hbreaks
    exact hmissing ((h.isAt_of_find? hfind).hasText hfield)
  | slugNotUrlSafe slug =>
    obtain ⟨⟨members, hfind, hslug⟩, hnotSafe⟩ := hbreaks
    obtain ⟨_, htext, hsafe⟩ := (h.isAt_of_find? hfind).slug _ hslug
    cases htext
    exact absurd hsafe (by simp [hnotSafe])
  | slugNotText =>
    obtain ⟨value, ⟨members, hfind, hvalue⟩, hother⟩ := hbreaks
    obtain ⟨text, rfl, -⟩ := (h.isAt_of_find? hfind).slug _ hvalue
    exact hother text rfl
  | unknownArchitecture value =>
    obtain ⟨hvalue, hunknown⟩ := hbreaks
    obtain ⟨architecture, rfl⟩ := h.architecture value (by simpa using hvalue)
    exact hunknown architecture rfl
  | themeNotObject =>
    obtain ⟨value, hvalue, hother⟩ := hbreaks
    obtain ⟨theme, rfl, -⟩ := h.theme value (by simpa using hvalue)
    exact hother theme rfl
  | badColor value =>
    obtain ⟨hvalue, hbad⟩ := hbreaks
    obtain ⟨_, theme, hroot, htheme, hcolor⟩ := Json.at?_pair_eq_some_iff.mp hvalue
    cases hroot
    obtain ⟨text, rfl, hhex⟩ := (h.isTheme htheme).primaryColor _ hcolor
    simp [hbad text rfl] at hhex
  | badFont =>
    obtain ⟨value, hvalue, hbad⟩ := hbreaks
    obtain ⟨_, theme, hroot, htheme, hfont⟩ := Json.at?_pair_eq_some_iff.mp hvalue
    cases hroot
    obtain ⟨text, rfl, hfilled⟩ := (h.isTheme htheme).font _ hfont
    simp [hbad text rfl] at hfilled
  | pagesMissing =>
    obtain ⟨_, hroot, hnone⟩ := hbreaks
    cases hroot
    obtain ⟨items, hitems, -⟩ := h.pages
    cases hnone.symm.trans hitems
  | pagesNotArray =>
    obtain ⟨value, hvalue, hother⟩ := hbreaks
    obtain ⟨items, hitems, -⟩ := h.pages
    rw [Json.at?_object, hitems, Option.some.injEq] at hvalue
    exact hother items hvalue.symm
  | pagesEmpty =>
    obtain ⟨items, hitems, hne, -⟩ := h.pages
    refine hne ?_
    simpa [Breaks, hitems] using hbreaks
  | notObject position =>
    obtain ⟨-, item, hfind, hother⟩ := hbreaks
    obtain ⟨members, rfl, -⟩ := h.exists_of_find? hfind
    exact hother members rfl
  | duplicatePageId index id =>
    obtain ⟨hcarries, earlier, hlt, hearlier⟩ := hbreaks
    obtain ⟨items, hitems, -, -, hids⟩ := h.pages
    exact not_carries_both (find?_page hitems) hids hlt hearlier hcarries
  | sectionsMissing index =>
    obtain ⟨members, hfind, hnone⟩ := hbreaks
    obtain ⟨items, hitems, -⟩ := (h.isAt_of_find? hfind).sections
    cases hnone.symm.trans hitems
  | sectionsNotArray index =>
    obtain ⟨value, ⟨members, hfind, hvalue⟩, hother⟩ := hbreaks
    obtain ⟨items, hitems, -⟩ := (h.isAt_of_find? hfind).sections
    rw [hitems, Option.some.injEq] at hvalue
    exact hother items hvalue.symm
  | duplicateSectionId page index id =>
    obtain ⟨hcarries, earlier, hlt, hearlier⟩ := hbreaks
    obtain ⟨item, hfind, -⟩ := carriesId_iff.mp hcarries
    obtain ⟨members, items, hpage, hsections, -⟩ := exists_of_find?_inPage hfind
    obtain ⟨items', hsections', -, hids⟩ := (h.isAt_of_find? hpage).sections
    exact not_carries_both (find?_inPage hpage hsections') hids hlt hearlier hcarries
  | variantEmpty page index =>
    obtain ⟨text, ⟨members, hfind, htext⟩, hblank⟩ := hbreaks
    obtain ⟨_, hvariant, hfilled⟩ := (h.isAt_of_find? hfind).variant _ htext
    cases hvariant
    simp [hblank] at hfilled
  | variantNotText page index =>
    obtain ⟨value, ⟨members, hfind, hvalue⟩, hother⟩ := hbreaks
    obtain ⟨text, rfl, -⟩ := (h.isAt_of_find? hfind).variant _ hvalue
    exact hother text rfl
  | contentNotObject page index =>
    obtain ⟨value, ⟨members, hfind, hvalue⟩, hother⟩ := hbreaks
    obtain ⟨content, rfl⟩ := (h.isAt_of_find? hfind).content _ hvalue
    exact hother content rfl

end Declared

end Schema

/-- The check is exact. A document is valid exactly if it is as the schema declares it; a violation
is reported exactly if the document breaks the rule it names; and the report follows the document,
with one violation for a rule at most. -/
theorem Spec.violations_exact (document : Json) :
    (Spec.isValid document = true ↔ ∃ root, document = .object root ∧ Schema.IsSpec root) ∧
      (∀ v, v ∈ Spec.violations document ↔ Schema.Breaks document v) ∧
      (Spec.violations document).Pairwise fun v w => v.place < w.place := by
  have hmem (v : Violation) : v ∈ Spec.violations document ↔ Schema.Breaks document v :=
    ⟨Violation.breaks_of_mem_violations, Violation.mem_violations_of_breaks⟩
  refine ⟨?_, hmem, Violation.pairwise_violations document⟩
  rw [Spec.isValid, List.isEmpty_iff, List.eq_nil_iff_forall_not_mem]
  simp only [hmem]
  constructor
  · intro hunbroken
    cases document with
    | object root => exact ⟨root, rfl, Schema.isSpec_of_unbroken hunbroken⟩
    | _ => exact (hunbroken .rootNotObject (by simp [Schema.Breaks])).elim
  · rintro ⟨root, rfl, hroot⟩
    exact hroot.unbroken

end Siteworks
