import Mathlib
import Siteworks.Proofs.Page.Imports

/-!
# Filling the template of a page

The placeholders of the template start with an underscore, and neither the rest of the template nor
an import line has one. So the first placeholder is filled where it stands, the second one as well,
and no tag line is searched for either: a page source is the template with both blocks in their
places, whatever the tags say.
-/

namespace Siteworks

/-- No underscore is in the line that imports a component. -/
theorem Component.underscore_not_mem_importLine :
    ∀ component ∈ registered, '_' ∉ component.importLine.toList := by
  simp [registered, importLine, importDirectory]

namespace Page

/-- A text whose placeholder is the first thing in it that starts with an underscore is filled there. -/
theorem fill_eq {placeholder part front back : String} (hpart : placeholder.toList = '_' :: part.toList)
    (hfront : '_' ∉ front.toList) (lines : String) :
    fill placeholder lines (front ++ placeholder ++ back) =
      front ++ lines ++ fill placeholder lines back := by
  apply String.toList_injective
  simp only [fill, String.toList_ofList, String.toList_append, hpart]
  exact Text.replaceAll_append hfront part.toList lines.toList back.toList

/-- A text without the placeholder stays as it is. -/
theorem fill_eq_self {placeholder text : String}
    (htext : Text.contains placeholder.toList text.toList = false) (lines : String) :
    fill placeholder lines text = text := by
  rw [fill, Text.replaceAll_eq_self htext, String.ofList_toList]

/-- Each line of a block is one with a line break behind it, and so is the block. -/
theorem toList_block_newline (lines : List String) :
    (block lines "\n").toList = lines.flatMap fun line => line.toList ++ ['\n'] := by
  cases lines with
  | nil => simp [block]
  | cons line rest =>
    have hjoined : ∀ line : String, ("\n".intercalate (line :: rest) ++ "\n").toList =
        (line :: rest).flatMap fun line => line.toList ++ ['\n'] := by
      induction rest with
      | nil => simp
      | cons next rest ih =>
        intro line
        rw [String.intercalate_cons_cons, List.flatMap_cons, ← ih next]
        simp
    exact hjoined line

/-- A character of a block with an empty line behind it ends a line, or is in one. -/
theorem mem_of_mem_block {c : Char} {lines : List String}
    (h : c ∈ (block lines "\n\n").toList) : c = '\n' ∨ ∃ line ∈ lines, c ∈ line.toList := by
  cases lines with
  | nil => simp [block] at h
  | cons line rest =>
    have hblock : block (line :: rest) "\n\n" = block (line :: rest) "\n" ++ "\n" := by
      simp [block, String.append_assoc]
    rw [hblock, String.toList_append, toList_block_newline, List.mem_append, List.mem_flatMap] at h
    rcases h with ⟨line, hline, hc⟩ | hc
    · rw [List.mem_append] at hc
      exact hc.elim (fun hc => Or.inr ⟨line, hline, hc⟩) fun hc => Or.inl (by simpa using hc)
    · exact Or.inl (by simpa using hc)

/-- The template with the import lines of components and any tag lines. -/
theorem sourceText_eq {used : List Component} (hused : ∀ component ∈ used, component ∈ Component.registered)
    (tags : List String) :
    sourceText (used.map Component.importLine) tags = block (used.map Component.importLine) "\n\n"
      ++ "export default function Page() \x7b\n  return (\n    <main>\n" ++ block tags "\n"
      ++ "    </main>\n  );\n\x7d\n" := by
  have hfirst : "__IMPORTS__".toList = '_' :: "_IMPORTS__".toList := by decide
  have hsecond : "__SECTIONS__".toList = '_' :: "_SECTIONS__".toList := by decide
  generalize himports : used.map Component.importLine = imports
  have hblock : '_' ∉ (block imports "\n\n").toList := by
    intro hmem
    rcases mem_of_mem_block hmem with hbreak | ⟨line, hline, hc⟩
    · exact absurd hbreak (by decide)
    · rw [← himports, List.mem_map] at hline
      obtain ⟨component, hcomponent, rfl⟩ := hline
      exact Component.underscore_not_mem_importLine component (hused component hcomponent) hc
  have hopening : '_' ∉ (block imports "\n\n"
      ++ "export default function Page() \x7b\n  return (\n    <main>\n").toList := by
    rw [String.toList_append, List.mem_append, not_or]
    exact ⟨hblock, by decide⟩
  have himported : fill "__IMPORTS__" (block imports "\n\n") template = block imports "\n\n"
      ++ "export default function Page() \x7b\n  return (\n    <main>\n" ++ "__SECTIONS__"
      ++ "    </main>\n  );\n\x7d\n" := by
    have htemplate : template = "" ++ "__IMPORTS__"
        ++ ("export default function Page() \x7b\n  return (\n    <main>\n" ++ "__SECTIONS__"
          ++ "    </main>\n  );\n\x7d\n") := by decide
    rw [htemplate, fill_eq hfirst (by decide), fill_eq_self (by decide)]
    simp [String.append_assoc]
  rw [sourceText, himported, fill_eq hsecond hopening, fill_eq_self (by decide)]

/-- A page has its source exactly if each of its sections has a component, each component its source
file, and each section its tag; then the source is the template with the blocks in their places. -/
theorem source_eq_ok_iff_filled {fs : FileSystem} {spec : Spec} {root : Path} {text : String} :
    source fs spec root = .ok text ↔ ∃ page pages components tags,
      spec.pages = page :: pages ∧ Component.ofSections page.sections = .ok components ∧
      (∀ component ∈ components, fs.isFile (component.sourceFile root) = true) ∧
      tagLines (page.sections.zip components) = .ok tags ∧
      text = block ((Component.distinct components).map Component.importLine) "\n\n"
        ++ "export default function Page() \x7b\n  return (\n    <main>\n" ++ block tags "\n"
        ++ "    </main>\n  );\n\x7d\n" := by
  constructor
  · intro h
    unfold source at h
    split at h
    · cases h
    next page pages hpages =>
      split at h
      · cases h
      next components hcomponents =>
        have hregistered := Component.registered_of_ofSections hcomponents
        have hmem : ∀ {component}, component ∈ Component.distinct components ↔
            component ∈ components := Component.mem_distinct_iff hregistered
        simp only at h
        split at h
        · cases h
        next hnone =>
          split at h
          · cases h
          next tags htags =>
            obtain rfl := Except.ok.inj h
            refine ⟨page, pages, components, tags, hpages, hcomponents, fun component hused => ?_,
              htags, sourceText_eq (fun component hused => hregistered component (hmem.mp hused)) tags⟩
            simpa using List.find?_eq_none.mp hnone component (hmem.mpr hused)
  · rintro ⟨page, pages, components, tags, hpages, hcomponents, hfiles, htags, rfl⟩
    have hregistered := Component.registered_of_ofSections hcomponents
    have hmem : ∀ {component}, component ∈ Component.distinct components ↔ component ∈ components :=
      Component.mem_distinct_iff hregistered
    have hnone : (Component.distinct components).find? (fun component =>
        !fs.isFile (component.sourceFile root)) = none := by
      rw [List.find?_eq_none]
      intro component hused
      simpa using hfiles component (hmem.mp hused)
    unfold source
    simp only [hpages, hcomponents, hnone, htags]
    rw [sourceText_eq fun component hused => hregistered component (hmem.mp hused)]

end Page

end Siteworks
