import Mathlib
import Siteworks.Proofs.Json.Printing
import Siteworks.Proofs.Page.Template

/-!
# What a page's text says

The text of a page is made of tags alone: the components of the first page's sections, each with
its content. Read from the left, a tag shows where each attribute and the tag itself end, whatever
the content is, so that no two lists of tags have one text.
-/

namespace Siteworks

open Text (append_inj_of_forall flatMap_append_inj)

/-- What a section shows: its component, and its content in order, absent content being none. -/
def Section.shown (part : Section) : Option Component × List (String × Json) :=
  (Component.find? part.kind part.variantOrDefault, part.content.getD [])

/-- The sections of the first page. -/
def Spec.firstSections (spec : Spec) : List Section :=
  match spec.pages with
  | [] => []
  | page :: _ => page.sections

/-! ## Attributes -/

/-- The escape of a character in a quoted attribute shows where it ends. -/
theorem escapeAttributeChar_append_inj {c d : Char} {r s : List Char}
    (h : escapeAttributeChar c ++ r = escapeAttributeChar d ++ s) : c = d ∧ r = s := by
  unfold escapeAttributeChar at h
  split at h <;> split at h
  · simpa using h
  next hd => exact absurd (Or.inl (List.cons.inj h).1.symm) hd
  next hc _ => exact absurd (Or.inl (List.cons.inj h).1) hc
  · simpa using h

/-- No escape in a quoted attribute begins with a quote. -/
theorem escapeAttributeChar_append_ne (c : Char) (r s : List Char) :
    escapeAttributeChar c ++ r ≠ '"' :: s := by
  unfold escapeAttributeChar
  split
  · simp
  next h =>
    intro hquote
    exact h (Or.inr (List.cons.inj hquote).1)

/-- A value that is not a string stands in braces. -/
theorem toList_renderAttributeValue_of_ne {value : Json} (h : ∀ text, value ≠ .string text) :
    (renderAttributeValue value).toList = '\x7b' :: value.render.toList ++ ['\x7d'] := by
  cases value with
  | string text => exact absurd rfl (h text)
  | _ => simp [renderAttributeValue]

/-- A quoted string stands in quotes. -/
theorem toList_renderAttributeValue_string (text : String) :
    (renderAttributeValue (.string text)).toList =
      '"' :: text.toList.flatMap escapeAttributeChar ++ ['"'] := by
  simp [renderAttributeValue]

/-- The value of an attribute can be told from what follows it, and no other value has its text. -/
theorem renderAttributeValue_append_inj {v w : Json} {r s : List Char}
    (h : (renderAttributeValue v).toList ++ r = (renderAttributeValue w).toList ++ s) :
    v = w ∧ r = s := by
  by_cases hv : ∃ text, v = .string text <;> by_cases hw : ∃ text, w = .string text
  · obtain ⟨a, rfl⟩ := hv
    obtain ⟨b, rfl⟩ := hw
    rw [toList_renderAttributeValue_string, toList_renderAttributeValue_string, List.cons_append,
      List.cons_append, List.append_assoc, List.append_assoc] at h
    obtain ⟨htext, hrs⟩ := flatMap_append_inj (fun _ => True) _ (fun _ _ => trivial)
      (fun _ => trivial) (fun _ _ _ _ _ _ _ _ => escapeAttributeChar_append_inj)
      (fun c _ => escapeAttributeChar_append_ne c) (List.cons.inj h).2
    exact ⟨congrArg Json.string (String.toList_inj.mp htext), hrs⟩
  · obtain ⟨a, rfl⟩ := hv
    rw [toList_renderAttributeValue_string, toList_renderAttributeValue_of_ne (not_exists.mp hw)] at h
    exact absurd (List.cons.inj h).1 (by decide)
  · obtain ⟨b, rfl⟩ := hw
    rw [toList_renderAttributeValue_string, toList_renderAttributeValue_of_ne (not_exists.mp hv)] at h
    exact absurd (List.cons.inj h).1 (by decide)
  · rw [toList_renderAttributeValue_of_ne (not_exists.mp hv),
      toList_renderAttributeValue_of_ne (not_exists.mp hw), List.cons_append, List.cons_append,
      List.append_assoc, List.append_assoc] at h
    obtain ⟨hvw, hrs⟩ := Json.render_append_inj (r := '\x7d' :: r) (s := '\x7d' :: s)
      (by simp [Json.Delimited]) (by simp [Json.Delimited]) (List.cons.inj h).2
    exact ⟨hvw, (List.cons.inj hrs).2⟩

/-- An attribute's name does not begin with a slash, and no character of it is an equals sign. -/
theorem exists_cons_of_isAttributeName {key : String} (h : isAttributeName key = true) :
    ∃ c rest, key.toList = c :: rest ∧ c ≠ '/' ∧ ∀ d ∈ key.toList, d ≠ '=' := by
  unfold isAttributeName at h
  split at h
  · cases h
  next first rest hkey =>
    rw [Bool.and_eq_true, List.all_eq_true] at h
    refine ⟨first, rest, hkey, ?_, hkey ▸ List.forall_mem_cons.mpr ⟨?_, ?_⟩⟩
    · rintro rfl
      exact absurd h.1 (by decide)
    · rintro rfl
      exact absurd h.1 (by decide)
    · rintro c hc rfl
      exact absurd (h.2 _ hc) (by decide)

/-- An attribute can be told from what follows it, and no other attribute has its text. -/
theorem renderAttribute_append_inj {x y : String × Json} {r s : List Char}
    (hx : isAttributeName x.1 = true) (hy : isAttributeName y.1 = true)
    (h : (renderAttribute x).toList ++ r = (renderAttribute y).toList ++ s) : x = y ∧ r = s := by
  simp only [renderAttribute, String.toList_append, List.append_assoc] at h
  obtain ⟨-, -, -, -, hxs⟩ := exists_cons_of_isAttributeName hx
  obtain ⟨-, -, -, -, hys⟩ := exists_cons_of_isAttributeName hy
  obtain ⟨hkey, hrest⟩ := append_inj_of_forall hxs hys (by simp) (by simp) h
  obtain ⟨hvalue, hrs⟩ := renderAttributeValue_append_inj (List.append_cancel_left hrest)
  exact ⟨Prod.ext (String.toList_inj.mp hkey) hvalue, hrs⟩

/-- The attributes of a content with an entry are not empty. -/
theorem intercalate_renderAttribute_ne (entry : String × Json) (entries : List (String × Json)) :
    " ".intercalate ((entry :: entries).map renderAttribute) ≠ "" := by
  intro hempty
  have hlist := congrArg String.toList hempty
  cases entries <;> simp [renderAttribute, String.toList_intercalate] at hlist

/-! ## Tags -/

namespace Component

/-- No blank is in the identifier of a component. -/
theorem ne_space_of_mem_ident :
    ∀ component ∈ registered, ∀ c ∈ component.ident.toList, c ≠ ' ' := by
  simp [registered]

/-- No tag is opened in the line that imports a component. -/
theorem ne_less_of_mem_importLine :
    ∀ component ∈ registered, ∀ c ∈ component.importLine.toList, c ≠ '<' := by
  have hnot : ∀ component ∈ registered, '<' ∉ component.importLine.toList := by
    simp [registered, importLine, importDirectory]
  exact fun component hmem c hc => ne_of_mem_of_not_mem hc (hnot component hmem)

end Component

namespace Page

/-- A component and the content that it shows. -/
@[ext]
structure Tag where
  /-- The component. -/
  component : Component
  /-- The content, in order. -/
  content : List (String × Json)
  /-- The component is one of those that a scaffold has. -/
  registered : component ∈ Component.registered
  /-- Every key names an attribute. -/
  named : ∀ entry ∈ content, isAttributeName entry.1 = true

namespace Tag

/-- The line of a tag. -/
def line (tag : Tag) : String :=
  tagLine tag.component (" ".intercalate (tag.content.map renderAttribute))

/-- The attributes of a tag, with a blank behind each of them. -/
def attributes (tag : Tag) : List Char :=
  tag.content.flatMap fun entry => (renderAttribute entry).toList ++ [' ']

/-- The line of a tag with its end. -/
def text (tag : Tag) : List Char :=
  [' ', ' ', ' ', ' ', ' ', ' ', '<'] ++
    (tag.component.ident.toList ++ ' ' :: (tag.attributes ++ ['/', '>', '\n']))

/-- Texts between blanks, with a blank behind the last one. -/
theorem intercalate_space_append {texts : List (List Char)} (h : texts ≠ []) :
    [' '].intercalate texts ++ [' '] = texts.flatMap fun text => text ++ [' '] := by
  induction texts with
  | nil => exact absurd rfl h
  | cons text rest ih =>
    cases rest with
    | nil => simp
    | cons next rest =>
      rw [List.intercalate_cons_cons, List.append_assoc, List.append_assoc, ih (by simp)]
      simp

/-- What the line of a tag is made of. -/
theorem toList_line (tag : Tag) : tag.line.toList ++ ['\n'] = tag.text := by
  by_cases hcontent : tag.content = []
  · simp [line, text, attributes, tagLine, hcontent]
  · have hne : " ".intercalate (tag.content.map renderAttribute) ≠ "" := by
      obtain ⟨entry, rest, hcons⟩ := List.exists_cons_of_ne_nil hcontent
      exact hcons ▸ intercalate_renderAttribute_ne entry rest
    have hjoined : [' '].intercalate (tag.content.map fun entry => (renderAttribute entry).toList) ++
        [' '] = tag.attributes := by
      rw [intercalate_space_append (by simpa using hcontent), List.flatMap_map, attributes]
    simp [line, tagLine, if_neg hne, text, ← hjoined, String.toList_intercalate, Function.comp_def]

/-- A tag can be told from what follows it, and no other tag has its text. -/
theorem text_append_inj {x y : Tag} {r s : List Char} (h : x.text ++ r = y.text ++ s) :
    x = y ∧ r = s := by
  have hidents : x.component.ident.toList ++ ' ' :: (x.attributes ++ (['/', '>', '\n'] ++ r)) =
      y.component.ident.toList ++ ' ' :: (y.attributes ++ (['/', '>', '\n'] ++ s)) := by
    simpa [text] using h
  obtain ⟨hident, hrest⟩ := append_inj_of_forall
    (Component.ne_space_of_mem_ident _ x.registered)
    (Component.ne_space_of_mem_ident _ y.registered)
    (by simp) (by simp) hidents
  have hclose : ∀ e ∈ x.content ++ y.content, ∀ r s,
      (renderAttribute e).toList ++ [' '] ++ r ≠ ['/', '>', '\n'] ++ s := by
    intro e he r s hslash
    have hnamed := (List.mem_append.mp he).elim (x.named e) (y.named e)
    obtain ⟨c, rest, hkey, hc, -⟩ := exists_cons_of_isAttributeName hnamed
    simp [renderAttribute, hkey, hc] at hslash
  obtain ⟨hcontent, hrs⟩ := flatMap_append_inj (fun _ => True) _ (fun _ _ => trivial)
    (fun _ => trivial) (fun e he f hf r s _ _ hentry => by
      rw [List.append_assoc, List.append_assoc] at hentry
      obtain ⟨hef, hrs⟩ := renderAttribute_append_inj (x.named e he) (y.named f hf) hentry
      exact ⟨hef, List.append_cancel_left hrs⟩) hclose (List.cons.inj hrest).2
  exact ⟨Tag.ext (Component.eq_of_ident_eq _ x.registered _ y.registered
    (String.toList_inj.mp hident)) hcontent, hrs⟩

end Tag

/-! ## Pages -/

/-- The text of the page with the given tags. -/
def textOf (tags : List Tag) : String :=
  sourceText ((Component.distinct (tags.map Tag.component)).map Component.importLine)
    (tags.map Tag.line)

/-- What stands behind the tags of a page. -/
def footer : String := "    </main>\n  );\n\x7d\n"

/-- The text of a page up to its first angle bracket, and what stands behind it. -/
theorem exists_toList_textOf (tags : List Tag) : ∃ before, (∀ c ∈ before, c ≠ '<') ∧
    (textOf tags).toList = before ++ '<' :: ("main>\n".toList ++
      (tags.flatMap Tag.text ++ (footer.toList ++ []))) := by
  have hregistered : ∀ component ∈ tags.map Tag.component, component ∈ Component.registered := by
    intro component hcomponent
    obtain ⟨tag, -, rfl⟩ := List.mem_map.mp hcomponent
    exact tag.registered
  have hused : ∀ component ∈ Component.distinct (tags.map Tag.component),
      component ∈ Component.registered := fun component hcomponent =>
    hregistered component ((Component.mem_distinct_iff hregistered).mp hcomponent)
  refine ⟨(block ((Component.distinct (tags.map Tag.component)).map Component.importLine)
    "\n\n").toList ++ "export default function Page() \x7b\n  return (\n    ".toList, ?_, ?_⟩
  · intro c hc
    rw [List.mem_append] at hc
    rcases hc with hc | hc
    · rcases mem_of_mem_block hc with rfl | ⟨line, hline, hc⟩
      · decide
      · obtain ⟨component, hcomponent, rfl⟩ := List.mem_map.mp hline
        exact Component.ne_less_of_mem_importLine _ (hused component hcomponent) c hc
    · rintro rfl
      simp at hc
  · rw [textOf, sourceText_eq hused]
    simp [toList_block_newline, List.flatMap_map, footer, Tag.toList_line]

/-- No two lists of tags have one page text. -/
theorem textOf_injective : Function.Injective textOf := by
  intro tags others h
  obtain ⟨before, hbefore, htext⟩ := exists_toList_textOf tags
  obtain ⟨before', hbefore', htext'⟩ := exists_toList_textOf others
  rw [h, htext'] at htext
  obtain ⟨-, hmain⟩ := append_inj_of_forall hbefore' hbefore (by simp) (by simp) htext
  have hclose : ∀ tag ∈ others ++ tags, ∀ r s, tag.text ++ r ≠ footer.toList ++ s := by
    intro tag _ r s hopen
    simp [Tag.text, footer] at hopen
  exact (flatMap_append_inj (fun _ => True) _ (fun _ _ => trivial) (fun _ => trivial)
    (fun _ _ _ _ _ _ _ _ => Tag.text_append_inj) hclose
    (List.append_cancel_left (List.cons.inj hmain).2)).1.symm

/-- The attributes of a section are those of its content, and each of them has a name. -/
theorem attributesOf_eq_ok {part : Section} {attributes : String}
    (h : attributesOf part = .ok attributes) :
    attributes = " ".intercalate ((part.content.getD []).map renderAttribute) ∧
      ∀ entry ∈ part.content.getD [], isAttributeName entry.1 = true := by
  unfold attributesOf at h
  cases hcontent : part.content with
  | none =>
    rw [hcontent] at h
    cases h
    simp
  | some content =>
    simp only [hcontent, renderAttributes] at h
    split at h
    · cases h
    next hnone =>
      cases h
      refine ⟨rfl, fun entry hentry => ?_⟩
      simpa using List.find?_eq_none.mp hnone entry hentry

/-- The sections of a page and their components make tags, and the tags' lines. -/
theorem exists_tags {parts : List Section} {components : List Component} {lines : List String}
    (hcomponents : Component.ofSections parts = .ok components)
    (hlines : tagLines (parts.zip components) = .ok lines) :
    ∃ tags : List Tag, parts.map Section.shown = tags.map (fun tag =>
      (some tag.component, tag.content)) ∧ components = tags.map Tag.component ∧
        lines = tags.map Tag.line := by
  induction parts generalizing components lines with
  | nil =>
    cases hcomponents
    cases hlines
    exact ⟨[], rfl, rfl, rfl⟩
  | cons part parts ih =>
    unfold Component.ofSections at hcomponents
    split at hcomponents
    · cases hcomponents
    next component hcomponent =>
      split at hcomponents
      · cases hcomponents
      next rest hrest =>
        cases hcomponents
        simp only [List.zip_cons_cons, tagLines] at hlines
        split at hlines
        · cases hlines
        next attributes hattributes =>
          split at hlines
          · cases hlines
          next others hothers =>
            cases hlines
            obtain ⟨tags, hshown, hcs, hls⟩ := ih hrest hothers
            obtain ⟨hjoined, hnamed⟩ := attributesOf_eq_ok hattributes
            refine ⟨⟨component, part.content.getD [], List.mem_of_find?_eq_some hcomponent,
              hnamed⟩ :: tags, ?_, ?_, ?_⟩
            · simp [Section.shown, hcomponent, hshown]
            · simp [hcs]
            · simp [Tag.line, hjoined, hls]

/-- A page that has its text is made of tags, and these show what its sections show. -/
theorem exists_textOf_eq_of_source {fs : FileSystem} {spec : Spec} {root : Path} {text : String}
    (h : source fs spec root = .ok text) :
    ∃ tags : List Tag, text = textOf tags ∧ spec.firstSections.map Section.shown =
      tags.map fun tag => (some tag.component, tag.content) := by
  obtain ⟨page, pages, components, lines, hpages, hcomponents, -, hlines, rfl⟩ :=
    source_eq_ok_iff_filled.mp h
  have hregistered := Component.registered_of_ofSections hcomponents
  obtain ⟨tags, hshown, rfl, rfl⟩ := exists_tags hcomponents hlines
  refine ⟨tags, (sourceText_eq (fun component hused => ?_) _).symm, ?_⟩
  · exact hregistered component ((Component.mem_distinct_iff hregistered).mp hused)
  · simpa only [Spec.firstSections, hpages] using hshown

/-- Two page texts are the same exactly if the first pages show the same: their sections, in order,
have the same components and the same contents. -/
theorem source_eq_iff {fs gs : FileSystem} {spec other : Spec} {root target : Path}
    {text text' : String} (h : source fs spec root = .ok text)
    (h' : source gs other target = .ok text') :
    text = text' ↔ spec.firstSections.map Section.shown = other.firstSections.map Section.shown := by
  obtain ⟨tags, rfl, hshown⟩ := exists_textOf_eq_of_source h
  obtain ⟨others, rfl, hshown'⟩ := exists_textOf_eq_of_source h'
  have hinj : Function.Injective fun tag : Tag => (some tag.component, tag.content) := by
    intro x y hxy
    simp only [Prod.mk.injEq, Option.some.injEq] at hxy
    exact Tag.ext hxy.1 hxy.2
  rw [hshown, hshown', textOf_injective.eq_iff, (List.map_injective_iff.mpr hinj).eq_iff]

/-- A tree with one component. -/
def heroTree : FileSystem :=
  [(["site"], Node.directory), (["site", "components"], .directory),
    (["site", "components", "sections"], .directory),
    (["site", "components", "sections", "hero.tsx"], .file .empty)].foldl
      (fun fs (place, node) => fs.put place node) .empty

/-- A spec with one section, which shows a title. -/
def titledSpec (id title : String) : Spec where
  project := ⟨"Demo", none⟩
  architecture := none
  theme := none
  pages := [⟨"home", "Home", "/", [⟨id, "hero", none, some [("title", .string title)]⟩]⟩]

/-- The page of a section that shows a title, given the title in quotes. -/
def titledText (quoted : String) : String :=
  "import Hero from \"@/components/sections/hero\";\n\nexport default function Page() \x7b\n"
    ++ "  return (\n    <main>\n      <Hero title=" ++ quoted ++ " />\n    </main>\n  );\n\x7d\n"

/-- The component of a section that shows a title. -/
def hero : Component := ⟨"hero", "default", "Hero", "hero", .default⟩

/-- The page of a section that shows a title has the title in quotes. -/
theorem source_titledSpec (id title : String) : source heroTree (titledSpec id title) ⟨["site"]⟩ =
    .ok (titledText (renderAttributeValue (.string title))) := by
  have hfile : heroTree.isFile (hero.sourceFile ⟨["site"]⟩) = true := by decide +kernel
  have hnamed : isAttributeName "title" = true := by decide +kernel
  have hne : renderAttribute ("title", .string title) ≠ "" := by
    simpa using intercalate_renderAttribute_ne ("title", .string title) []
  have hopen : "      <" ++ hero.ident ++ " " = "      <Hero " := by decide +kernel
  have htags : tagLines [(⟨id, "hero", none, some [("title", .string title)]⟩, hero)] =
      .ok ["      <Hero " ++ renderAttribute ("title", .string title) ++ " />"] := by
    simp only [tagLines, attributesOf, renderAttributes, List.find?_cons, hnamed, Bool.not_true,
      List.find?_nil, List.map_cons, List.map_nil, String.intercalate_singleton, tagLine, if_neg hne,
      hopen]
  have hfound : Component.find? "hero" "default" = some hero := by decide +kernel
  refine source_eq_ok_iff_filled.mpr ⟨_, _, [hero], _, rfl,
    Component.ofSections_eq_ok_iff.mpr (.cons hfound .nil), List.forall_mem_singleton.mpr hfile,
    htags, ?_⟩
  have himports : block ((Component.distinct [hero]).map Component.importLine) "\n\n" =
      "import Hero from \"@/components/sections/hero\";\n\n" := by decide +kernel
  rw [himports]
  delta titledText
  apply String.toList_injective
  simp [renderAttribute, toList_block_newline]

/-- Titles that would close their quotes and the tag make different pages; the identifier of the
section makes none. -/
theorem source_eq_iff_closing :
    (titledText "\"\\\" />\"" = titledText "\"\\\" />\"" ↔
      (titledSpec "a" "\" />").firstSections.map Section.shown =
        (titledSpec "b" "\" />").firstSections.map Section.shown) ∧
    (titledText "\"\\\" />\"" = titledText "\"\\\\\\\" />\"" ↔
      (titledSpec "a" "\" />").firstSections.map Section.shown =
        (titledSpec "a" "\\\" />").firstSections.map Section.shown) := by
  have hplain : titledText (renderAttributeValue (.string "\" />")) = titledText "\"\\\" />\"" := by
    decide +kernel
  have hescaped : titledText (renderAttributeValue (.string "\\\" />")) =
      titledText "\"\\\\\\\" />\"" := by
    decide +kernel
  have ha := hplain ▸ source_titledSpec "a" "\" />"
  have hb := hplain ▸ source_titledSpec "b" "\" />"
  have hc := hescaped ▸ source_titledSpec "a" "\\\" />"
  exact ⟨source_eq_iff ha hb, source_eq_iff ha hc⟩

end Page

end Siteworks
