import Mathlib
import Siteworks.Proofs.FileSystem.Storing
import Siteworks.Proofs.Page.Encoding

/-!
# Pages that cannot be made

What is wrong with a page is told by the first thing that is: that there is none, then a section
without a component, then a component without its source file, then a key that cannot name an
attribute. A page with none of these faults is made, and only then its file is written.
-/

namespace Siteworks

/-! ## First items -/

/-- The item is the first one of a list with a property. -/
def IsFirst {α : Type} (p : α → Prop) (items : List α) (item : α) : Prop :=
  ∃ before behind, items = before ++ item :: behind ∧ p item ∧ ∀ other ∈ before, ¬ p other

namespace IsFirst

variable {α : Type} {p : α → Prop} {items : List α} {item first : α}

/-- No item is the first one of none. -/
theorem nil_iff : IsFirst p [] item ↔ False := by simp [IsFirst]

/-- The first item of a list is its head, or the first one behind that. -/
theorem cons_iff : IsFirst p (first :: items) item ↔
    p first ∧ item = first ∨ ¬ p first ∧ IsFirst p items item := by
  constructor
  · rintro ⟨_ | ⟨other, before⟩, behind, hitems, hitem, hbefore⟩
    · obtain ⟨rfl, -⟩ := List.cons.inj hitems
      exact Or.inl ⟨hitem, rfl⟩
    · obtain ⟨rfl, hrest⟩ := List.cons.inj hitems
      obtain ⟨hfirst, hothers⟩ := List.forall_mem_cons.mp hbefore
      exact Or.inr ⟨hfirst, before, behind, hrest, hitem, hothers⟩
  · rintro (⟨hfirst, rfl⟩ | ⟨hfirst, before, behind, rfl, hitem, hbefore⟩)
    · exact ⟨[], items, rfl, hfirst, nofun⟩
    · exact ⟨first :: before, behind, rfl, hitem, List.forall_mem_cons.mpr ⟨hfirst, hbefore⟩⟩

/-- The first item with a property is there and has it. -/
theorem mem (h : IsFirst p items item) : item ∈ items ∧ p item := by
  obtain ⟨before, behind, rfl, hitem, -⟩ := h
  exact ⟨by simp, hitem⟩

/-- If an item has a property, one is the first with it. -/
theorem exists_of_mem (hitem : item ∈ items) (h : p item) : ∃ first, IsFirst p items first := by
  induction items with
  | nil => cases hitem
  | cons head rest ih =>
    simp only [cons_iff]
    by_cases hhead : p head
    · exact ⟨head, Or.inl ⟨hhead, rfl⟩⟩
    · rcases List.mem_cons.mp hitem with rfl | hrest
      · exact absurd h hhead
      · obtain ⟨first, hfirst⟩ := ih hrest
        exact ⟨first, Or.inr ⟨hhead, hfirst⟩⟩

/-- In a list in order the first item with a property is the least one. -/
theorem iff_of_pairwise {before : α → α → Prop} (horder : items.Pairwise before)
    (hasymm : ∀ a b, before a b → ¬ before b a) :
    IsFirst p items item ↔ item ∈ items ∧ p item ∧
      ∀ other ∈ items, p other → other = item ∨ before item other := by
  have hleast : ∀ {first}, IsFirst p items first →
      ∀ other ∈ items, p other → other = first ∨ before first other := by
    rintro first ⟨front, behind, rfl, -, hfront⟩ other hother hp
    rcases List.mem_append.mp hother with hother | hother
    · exact absurd hp (hfront other hother)
    · rcases List.mem_cons.mp hother with rfl | hother
      · exact Or.inl rfl
      · exact Or.inr ((List.pairwise_cons.mp (List.pairwise_append.mp horder).2.1).1 other hother)
  refine ⟨fun h => ⟨h.mem.1, h.mem.2, hleast h⟩, fun ⟨hitem, hp, hall⟩ => ?_⟩
  obtain ⟨first, hfirst⟩ := exists_of_mem hitem hp
  -- neither of the two is before the other
  rcases hall first hfirst.mem.1 hfirst.mem.2 with rfl | hbefore
  · exact hfirst
  · rcases hleast hfirst item hitem hp with rfl | hbehind
    · exact hfirst
    · exact absurd hbefore (hasymm _ _ hbehind)

/-- A search finds the first item. -/
theorem find?_eq_some_iff {q : α → Bool} (hq : ∀ a, q a = true ↔ p a) :
    items.find? q = some item ↔ IsFirst p items item := by
  induction items with
  | nil => simp [nil_iff]
  | cons first rest ih =>
    rw [cons_iff, ← ih, ← hq, List.find?_cons]
    cases q first <;> simp [eq_comm]

end IsFirst

/-! ## Names of attributes -/

/-- The character is an ASCII letter. -/
def AsciiLetter (c : Char) : Prop := 'a' ≤ c ∧ c ≤ 'z' ∨ 'A' ≤ c ∧ c ≤ 'Z'

/-- The text is an ASCII attribute name: a letter or an underscore, and behind it letters, digits,
underscores and hyphens. -/
def IsAttribute (key : String) : Prop :=
  ∃ first rest, key.toList = first :: rest ∧ (AsciiLetter first ∨ first = '_') ∧
    ∀ c ∈ rest, AsciiLetter c ∨ '0' ≤ c ∧ c ≤ '9' ∨ c = '_' ∨ c = '-'

/-- The keys that can name an attribute are the attribute names. -/
theorem isAttributeName_iff {key : String} : isAttributeName key = true ↔ IsAttribute key := by
  have hletter : ∀ c : Char, c.isAlpha = true ↔ AsciiLetter c := by
    intro c
    simp only [Char.isAlpha, Char.isUpper, Char.isLower, AsciiLetter, Char.le_def, ge_iff_le]
    simp [or_comm]
  have hdigit : ∀ c : Char, c.isDigit = true ↔ '0' ≤ c ∧ c ≤ '9' := by
    intro c
    simp only [Char.isDigit, Char.le_def, ge_iff_le]
    simp
  unfold isAttributeName IsAttribute
  cases key.toList with
  | nil => simp
  | cons first rest => simp [Char.isAlphanum, hletter, hdigit, or_assoc]

/-! ## Stages of a page -/

/-- No component is registered for the section. -/
def Section.Unregistered (part : Section) : Prop :=
  Component.find? part.kind part.variantOrDefault = none

/-- A key of the section's content is no attribute name. -/
def Section.Misnamed (part : Section) : Prop :=
  ∃ entry ∈ part.content.getD [], ¬ IsAttribute entry.1

/-- The components of sections are not found for the first section without one. -/
theorem Component.ofSections_eq_error_iff {parts : List Section} {e : GenerationError} :
    ofSections parts = .error e ↔ ∃ part, IsFirst Section.Unregistered parts part ∧
      e = .unknownComponent part.kind part.variantOrDefault pairs := by
  induction parts with
  | nil => simp [ofSections, IsFirst.nil_iff]
  | cons part rest ih =>
    simp only [IsFirst.cons_iff, Section.Unregistered, ofSections]
    cases hfound : find? part.kind part.variantOrDefault with
    | none => simp [eq_comm]
    | some component =>
      simp only [reduceCtorEq, false_and, not_false_iff, true_and, false_or]
      rw [← ih]
      cases ofSections rest <;> simp

namespace Page

/-- The attributes of a section are not made for the first key that is no attribute name. -/
theorem attributesOf_eq_error_iff {part : Section} {e : GenerationError} :
    attributesOf part = .error e ↔ ∃ entry, IsFirst (fun entry => ¬ IsAttribute entry.1)
      (part.content.getD []) entry ∧ e = .invalidAttribute part.id entry.1 := by
  have hnot : ∀ entry : String × Json, (!isAttributeName entry.1) = true ↔ ¬ IsAttribute entry.1 := by
    simp [← isAttributeName_iff]
  simp only [← IsFirst.find?_eq_some_iff hnot]
  unfold attributesOf renderAttributes
  cases part.content with
  | none => simp
  | some content =>
    simp only [Option.getD_some]
    split
    next key value hfound => simp [hfound, eq_comm]
    next hfound => simp [hfound]

/-- The attributes of a section are not made exactly if a key is no attribute name. -/
theorem exists_attributesOf_eq_error_iff {part : Section} :
    (∃ e, attributesOf part = .error e) ↔ part.Misnamed := by
  simp only [attributesOf_eq_error_iff]
  constructor
  · rintro ⟨_, entry, hfirst, -⟩
    exact ⟨entry, hfirst.mem⟩
  · rintro ⟨entry, hmem, hname⟩
    obtain ⟨first, hfirst⟩ := IsFirst.exists_of_mem (p := fun entry : String × Json =>
      ¬ IsAttribute entry.1) hmem hname
    exact ⟨_, first, hfirst, rfl⟩

/-- The tags of sections are not made for the first section with a key that is no attribute name. -/
theorem tagLines_eq_error_iff {parts : List Section} {components : List Component}
    {e : GenerationError} (hlength : parts.length = components.length) :
    tagLines (parts.zip components) = .error e ↔
      ∃ part, IsFirst Section.Misnamed parts part ∧ attributesOf part = .error e := by
  induction parts generalizing components with
  | nil => simp [tagLines, IsFirst.nil_iff]
  | cons part rest ih =>
    cases components with
    | nil => cases hlength
    | cons component others =>
      replace ih := ih (Nat.succ.inj hlength)
      have hpart : (∃ e, attributesOf part = .error e) ↔ part.Misnamed :=
        exists_attributesOf_eq_error_iff
      simp only [List.zip_cons_cons, tagLines, IsFirst.cons_iff]
      cases hattributes : attributesOf part with
      | error e' =>
        have hmisnamed : part.Misnamed := hpart.mp ⟨e', hattributes⟩
        simp [hmisnamed, hattributes]
      | ok attributes =>
        have hnamed : ¬ part.Misnamed := by simp [← hpart, hattributes]
        simp only [hnamed, false_and, not_false_iff, true_and, false_or]
        rw [← ih]
        cases tagLines (rest.zip others) <;> simp

end Page

/-! ## Faults of a page -/

/-- A section of the page shows the component. -/
def Page.Uses (page : Page) (component : Component) : Prop :=
  ∃ part ∈ page.sections, Component.find? part.kind part.variantOrDefault = some component

/-- The page of a spec can be made below a root: there is a first page, each of its sections has a
component, each of these its source file, and each key of a content is an attribute name. -/
structure Spec.Drawable (fs : FileSystem) (spec : Spec) (root : Path) (page : Page) : Prop where
  /-- The page is the first one. -/
  first : spec.pages.head? = some page
  /-- Each section has a component. -/
  registered : ∀ part ∈ page.sections, ¬ part.Unregistered
  /-- Each component has its source file. -/
  present : ∀ component, page.Uses component → fs.isFile (component.sourceFile root) = true
  /-- Each key is an attribute name. -/
  named : ∀ part ∈ page.sections, ¬ part.Misnamed

/-- The first thing that is wrong with the page of a spec below a root. -/
inductive Spec.FirstFault (fs : FileSystem) (spec : Spec) (root : Path) : GenerationError → Prop
  /-- There is no page. -/
  | absent (hpages : spec.pages = []) :
    spec.FirstFault fs root (.unrecoverableSpec .nothingToWrite)
  /-- A section has no component. -/
  | unregistered (page : Page) (part : Section) (hpage : spec.pages.head? = some page)
      (first : IsFirst Section.Unregistered page.sections part) :
    spec.FirstFault fs root (.unknownComponent part.kind part.variantOrDefault Component.pairs)
  /-- A component has no source file, and none before it in the order of the identifiers. -/
  | missing (page : Page) (component : Component) (hpage : spec.pages.head? = some page)
      (registered : ∀ part ∈ page.sections, ¬ part.Unregistered)
      (uses : page.Uses component) (missing : fs.isFile (component.sourceFile root) = false)
      (least : ∀ other, page.Uses other → fs.isFile (other.sourceFile root) = false →
        other = component ∨ component.Precedes other) :
    spec.FirstFault fs root
      (.template (component.sourceFile root) (.sectionMissing component.ident))
  /-- A key is no attribute name. -/
  | misnamed (page : Page) (part : Section) (entry : String × Json)
      (hpage : spec.pages.head? = some page)
      (registered : ∀ part ∈ page.sections, ¬ part.Unregistered)
      (present : ∀ component, page.Uses component → fs.isFile (component.sourceFile root) = true)
      (first : IsFirst Section.Misnamed page.sections part)
      (key : IsFirst (fun entry => ¬ IsAttribute entry.1) (part.content.getD []) entry) :
    spec.FirstFault fs root (.invalidAttribute part.id entry.1)

namespace Page

variable {fs : FileSystem} {spec : Spec} {root : Path} {page : Page}

/-- The components are found exactly if each section has one. -/
theorem exists_ofSections_iff : (∃ components, Component.ofSections page.sections = .ok components) ↔
    ∀ part ∈ page.sections, ¬ part.Unregistered := by
  constructor
  · rintro ⟨components, hcomponents⟩ part hpart hunregistered
    obtain ⟨first, hfirst⟩ := IsFirst.exists_of_mem hpart hunregistered
    cases hcomponents.symm.trans (Component.ofSections_eq_error_iff.mpr ⟨first, hfirst, rfl⟩)
  · intro h
    cases hcomponents : Component.ofSections page.sections with
    | error e =>
      obtain ⟨part, hfirst, -⟩ := Component.ofSections_eq_error_iff.mp hcomponents
      exact absurd hfirst.mem.2 (h part hfirst.mem.1)
    | ok components => exact ⟨components, rfl⟩

section Components

variable {components : List Component} (h : Component.ofSections page.sections = .ok components)
include h

/-- The components without repetitions are those that the page uses. -/
theorem mem_distinct_iff_uses {component : Component} :
    component ∈ Component.distinct components ↔ page.Uses component := by
  rw [Component.mem_distinct_iff (Component.registered_of_ofSections h),
    Component.mem_iff_of_forall₂ (Component.ofSections_eq_ok_iff.mp h)]
  rfl

/-- The component that is found missing is the least one. -/
theorem find?_missing_eq_some_iff {component : Component} :
    (Component.distinct components).find? (fun component => !fs.isFile (component.sourceFile root)) =
        some component ↔
      page.Uses component ∧ fs.isFile (component.sourceFile root) = false ∧
        ∀ other, page.Uses other → fs.isFile (other.sourceFile root) = false →
          other = component ∨ component.Precedes other := by
  have hmissing : ∀ component : Component, (!fs.isFile (component.sourceFile root)) = true ↔
      fs.isFile (component.sourceFile root) = false := by simp
  rw [IsFirst.find?_eq_some_iff hmissing, IsFirst.iff_of_pairwise
    (Component.pairwise_distinct (Component.registered_of_ofSections h))
    fun _ _ => Component.Precedes.asymm]
  simp only [mem_distinct_iff_uses h]

/-- No component is found missing if each of them has its source file. -/
theorem find?_missing_eq_none_iff :
    (Component.distinct components).find? (fun component => !fs.isFile (component.sourceFile root)) =
        none ↔
      ∀ component, page.Uses component → fs.isFile (component.sourceFile root) = true := by
  simp [List.find?_eq_none, mem_distinct_iff_uses h]

/-- The tags are not made for the first section with a key that is no attribute name, and the first
such key. -/
theorem tagLines_eq_error_iff_key {e : GenerationError} :
    tagLines (page.sections.zip components) = .error e ↔
      ∃ part entry, IsFirst Section.Misnamed page.sections part ∧
        IsFirst (fun entry => ¬ IsAttribute entry.1) (part.content.getD []) entry ∧
          e = .invalidAttribute part.id entry.1 := by
  rw [tagLines_eq_error_iff (Component.ofSections_eq_ok_iff.mp h).length_eq]
  simp only [attributesOf_eq_error_iff]
  constructor
  · rintro ⟨part, hfirst, entry, hkey, rfl⟩
    exact ⟨part, entry, hfirst, hkey, rfl⟩
  · rintro ⟨part, entry, hfirst, hkey, rfl⟩
    exact ⟨part, hfirst, entry, hkey, rfl⟩

end Components

/-- The source of a page is refused for the first thing that is wrong with it. -/
theorem source_eq_error_iff {e : GenerationError} :
    source fs spec root = .error e ↔ spec.FirstFault fs root e := by
  constructor
  · intro h
    unfold source at h
    split at h
    next hpages =>
      cases h
      exact .absent hpages
    next page pages hpages =>
      have hpage : spec.pages.head? = some page := by rw [hpages, List.head?_cons]
      split at h
      next hcomponents =>
        cases h
        obtain ⟨part, hfirst, rfl⟩ := Component.ofSections_eq_error_iff.mp hcomponents
        exact .unregistered page part hpage hfirst
      next components hcomponents =>
        have hregistered := exists_ofSections_iff.mp ⟨components, hcomponents⟩
        simp only at h
        split at h
        next component hmissing =>
          cases h
          obtain ⟨huses, hnot, hleast⟩ := (find?_missing_eq_some_iff hcomponents).mp hmissing
          exact .missing page component hpage hregistered huses hnot hleast
        next hnone =>
          split at h
          next htags =>
            cases h
            obtain ⟨part, entry, hfirst, hkey, rfl⟩ :=
              (tagLines_eq_error_iff_key hcomponents).mp htags
            exact .misnamed page part entry hpage hregistered
              ((find?_missing_eq_none_iff hcomponents).mp hnone) hfirst hkey
          · cases h
  · rintro (hpages | ⟨page, part, hpage, hfirst⟩ |
      ⟨page, component, hpage, hregistered, huses, hnot, hleast⟩ |
      ⟨page, part, entry, hpage, hregistered, hpresent, hfirst, hkey⟩)
    · simp [source, hpages]
    · obtain ⟨pages, hpages⟩ := List.head?_eq_some_iff.mp hpage
      have hcomponents := Component.ofSections_eq_error_iff.mpr ⟨part, hfirst, rfl⟩
      simp [source, hpages, hcomponents]
    · obtain ⟨pages, hpages⟩ := List.head?_eq_some_iff.mp hpage
      obtain ⟨components, hcomponents⟩ := exists_ofSections_iff.mpr hregistered
      have hmissing := (find?_missing_eq_some_iff hcomponents).mpr ⟨huses, hnot, hleast⟩
      simp [source, hpages, hcomponents, hmissing]
    · obtain ⟨pages, hpages⟩ := List.head?_eq_some_iff.mp hpage
      obtain ⟨components, hcomponents⟩ := exists_ofSections_iff.mpr hregistered
      have hnone := (find?_missing_eq_none_iff hcomponents).mpr hpresent
      have htags := (tagLines_eq_error_iff_key hcomponents).mpr ⟨part, entry, hfirst, hkey, rfl⟩
      simp [source, hpages, hcomponents, hnone, htags]

/-- A page that can be made has nothing wrong with it. -/
theorem not_firstFault_of_drawable (h : spec.Drawable fs root page) (e : GenerationError) :
    ¬ spec.FirstFault fs root e := by
  have hsame : ∀ {other}, spec.pages.head? = some other → other = page := fun hother =>
    Option.some.inj (hother.symm.trans h.first)
  rintro (hpages | ⟨other, part, hpage, hfirst⟩ | ⟨other, component, hpage, -, huses, hnot, -⟩ |
    ⟨other, part, entry, hpage, -, -, hfirst, -⟩)
  · have hfirst := h.first
    rw [hpages] at hfirst
    cases hfirst
  · obtain rfl := hsame hpage
    exact h.registered part hfirst.mem.1 hfirst.mem.2
  · obtain rfl := hsame hpage
    cases hnot.symm.trans (h.present component huses)
  · obtain rfl := hsame hpage
    exact h.named part hfirst.mem.1 hfirst.mem.2

/-- A page has its source exactly if it can be made. -/
theorem exists_source_iff :
    (∃ text, source fs spec root = .ok text) ↔ ∃ page, spec.Drawable fs root page := by
  constructor
  · rintro ⟨text, h⟩
    obtain ⟨page, pages, components, tags, hpages, hcomponents, hfiles, htags, -⟩ :=
      source_eq_ok_iff_filled.mp h
    have hfound := Component.ofSections_eq_ok_iff.mp hcomponents
    refine ⟨page, by rw [hpages, List.head?_cons], exists_ofSections_iff.mp ⟨components, hcomponents⟩,
      fun component huses => hfiles component ((Component.mem_iff_of_forall₂ hfound).mpr huses),
      fun part hpart hmisnamed => ?_⟩
    obtain ⟨first, hfirst⟩ := IsFirst.exists_of_mem hpart hmisnamed
    obtain ⟨e, hattributes⟩ := exists_attributesOf_eq_error_iff.mpr hfirst.mem.2
    cases htags.symm.trans ((tagLines_eq_error_iff hfound.length_eq).mpr ⟨first, hfirst, hattributes⟩)
  · rintro ⟨page, h⟩
    cases hsource : source fs spec root with
    | error e => exact absurd (source_eq_error_iff.mp hsource) (not_firstFault_of_drawable h e)
    | ok text => exact ⟨text, rfl⟩

/-- Only the first page of a spec has a source. -/
theorem source_congr {other : Spec} (h : other.pages.head? = spec.pages.head?) :
    source fs other root = source fs spec root := by
  unfold source
  cases hpages : spec.pages <;> cases hothers : other.pages <;> simp_all

/-- A page whose source is refused, or whose file cannot be written, changes nothing. -/
theorem write_eq_error {e : GenerationError} {after : FileSystem}
    (h : write fs spec root = (.error e, after)) : after = fs := by
  unfold write at h
  split at h
  · exact (Prod.ext_iff.mp h).2.symm
  · split at h
    · exact (Prod.ext_iff.mp h).2.symm
    · cases h

/-- A page that is written has its source stored in its file. -/
theorem write_eq_ok {path : Path} {after : FileSystem}
    (h : write fs spec root = (.ok path, after)) : path = root.join file ∧ ∃ text place,
      source fs spec root = .ok text ∧ fs.Stores path (.ofText text) place after ∧
        ∀ base, fs.Enters root base → fs.Bare base → place = base ++ ["app", "page.tsx"] := by
  unfold write at h
  split at h
  · cases h
  next text hsource =>
    split at h
    · cases h
    next hwrite =>
      cases h
      obtain ⟨place, hstores⟩ := FileSystem.exists_stores_of_write hwrite
      refine ⟨rfl, text, place, hsource, hstores, fun base hbase hbare => ?_⟩
      exact hstores.place_eq (hbase.leads (by decide) (by decide)) (by decide) hbare

/-- A page is made exactly if it can be, and refused for the first thing that is wrong with it; only
the first page of a spec counts. Its file is written if it is made, and nothing else ever changes. -/
theorem made_or_refused (fs : FileSystem) (spec : Spec) (root : Path) :
    ((∃ text, source fs spec root = .ok text) ↔ ∃ page, spec.Drawable fs root page) ∧
      (∀ e, source fs spec root = .error e ↔ spec.FirstFault fs root e) ∧
      (∀ other : Spec, other.pages.head? = spec.pages.head? →
        source fs other root = source fs spec root ∧ write fs other root = write fs spec root) ∧
      (∀ e, source fs spec root = .error e → write fs spec root = (.error e, fs)) ∧
      (∀ e after, write fs spec root = (.error e, after) → after = fs) ∧
      (∀ path after, write fs spec root = (.ok path, after) → path = root.join file ∧
        ∃ text place, source fs spec root = .ok text ∧ fs.Stores path (.ofText text) place after ∧
          ∀ base, fs.Enters root base → fs.Bare base → place = base ++ ["app", "page.tsx"]) := by
  refine ⟨exists_source_iff, fun _ => source_eq_error_iff, fun other hother => ?_, fun e he => ?_,
    fun _ _ => write_eq_error, fun _ _ => write_eq_ok⟩
  · have hsource : source fs other root = source fs spec root := source_congr hother
    exact ⟨hsource, by rw [write, write, hsource]⟩
  · rw [write, he]

end Page

end Siteworks
