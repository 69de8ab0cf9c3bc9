import Mathlib
import Siteworks.Proofs.Theme.CarriedTexts
import Siteworks.Proofs.Theme.LastFont

/-!
# The imports of fonts in a new layout

After a font was applied its own import is the only line that imports from the module of fonts, exactly
if no text that is carried along does. Such texts are the lines of an import that is spread over several
lines, imports of types, and imports that stand inside a call.
-/

namespace Siteworks

open Layout

namespace Text

variable {part head tail text : List Char} {c : Char}

/-- A text whose last character is missing behind another text is found in the latter. -/
theorem contains_append_of_getLast? (hlast : part.getLast? = some c) (htail : c ∉ tail) :
    contains part (text ++ tail) = contains part text := by
  obtain ⟨init, rfl⟩ := List.getLast?_eq_some_iff.mp hlast
  rw [Bool.eq_iff_iff, contains_iff_isInfix, contains_iff_isInfix]
  constructor
  · rintro ⟨start, rest, hcut⟩
    have hcut : (start ++ init) ++ c :: rest = text ++ tail := by simpa using hcut
    obtain ⟨between, rfl⟩ := exists_of_append_cons_eq hcut htail
    exact ⟨start, between, by simp⟩
  · exact fun hpart => hpart.trans (List.prefix_append _ _).isInfix

/-- A text whose first character is missing in front of another text is found in the latter. -/
theorem contains_append_of_head? (hfirst : part.head? = some c) (hhead : c ∉ head) :
    contains part (head ++ text) = contains part text := by
  obtain ⟨rest, rfl⟩ := List.head?_eq_some_iff.mp hfirst
  rw [Bool.eq_iff_iff, contains_iff_isInfix, contains_iff_isInfix]
  constructor
  · rintro ⟨start, behind, hcut⟩
    rw [List.append_assoc] at hcut
    rcases List.append_eq_append_iff.mp hcut with ⟨between, rfl, hrest⟩ | ⟨between, rfl, hrest⟩
    · cases between with
      | nil => exact ⟨[], behind, by simpa using hrest⟩
      | cons d between =>
        obtain ⟨rfl, -⟩ := List.cons.inj hrest
        exact absurd (by simp) hhead
    · exact ⟨between, behind, by rw [hrest]; simp⟩
  · exact fun hpart => hpart.trans (List.suffix_append _ _).isInfix

end Text

namespace Layout

variable {binding : List Char}

/-- What stands at the end of an import from the module of fonts. -/
def fontModule : List Char := "from \"next/font/".toList

/-- A line imports from the module of fonts. -/
def importsFonts (line : List Char) : Bool := Text.contains fontModule line

/-- The classes that are put in import nothing, and neither do they together with the others. -/
theorem importsFonts_rootClasses (h : IsConstant binding) (value : List Char) :
    importsFonts ([' '].intercalate (rootClasses binding value)) =
      importsFonts ([' '].intercalate (otherClasses value)) := by
  have hlast : fontModule.getLast? = some '/' := by decide
  have hfirst : fontModule.head? = some 'f' := by decide
  have hfont : fontClass = "font".toList ++ '-' :: "sans".toList := by decide
  -- the hyphen of the font class parts the text
  obtain ⟨first, rest, hcons⟩ := List.exists_cons_of_ne_nil
    (l := otherClasses value ++ [smoothClass]) (by simp)
  have hcut : [' '].intercalate (rootClasses binding value) =
      (fontReference binding ++ " font".toList) ++ '-' ::
        ("sans ".toList ++ [' '].intercalate (otherClasses value ++ [smoothClass])) := by
    rw [rootClasses_eq, hcons, List.intercalate_cons_cons, List.intercalate_cons_cons, hfont]
    simp
  have hreference : importsFonts (fontReference binding ++ " font".toList) = false := by
    refine Text.contains_eq_false (c := '"') (by decide) fun hmem => ?_
    rcases List.mem_append.mp hmem with hmem | hmem
    · exact absurd (h.isNaming_of_mem hmem) (by decide)
    · exact absurd hmem (by decide)
  have hothers : importsFonts ([' '].intercalate (otherClasses value ++ [smoothClass])) =
      importsFonts ([' '].intercalate (otherClasses value)) := by
    by_cases hnone : otherClasses value = []
    · rw [hnone]
      decide
    · rw [intercalate_concat hnone]
      exact Text.contains_append_of_getLast? hlast (by decide)
  calc importsFonts ([' '].intercalate (rootClasses binding value))
      = (importsFonts (fontReference binding ++ " font".toList) || importsFonts ("sans ".toList ++
          [' '].intercalate (otherClasses value ++ [smoothClass]))) := by
        rw [hcut]
        exact Text.contains_append_cons (by decide)
    _ = importsFonts ([' '].intercalate (otherClasses value ++ [smoothClass])) := by
        rw [hreference, Bool.false_or]
        exact Text.contains_append_of_head? hfirst (by decide)
    _ = importsFonts ([' '].intercalate (otherClasses value)) := hothers

/-- Importing fonts is a sign that no class bears. -/
theorem sign_importsFonts (h : IsConstant binding) : Sign binding importsFonts where
  nil := by decide
  cut := by
    intro c hc before after
    refine Text.contains_append_cons fun hmem => ?_
    have hall : (['=', '\x7b', '\x60', '\x7d', '\r'].all fun c => !fontModule.contains c) = true := by
      decide
    have hnot := List.all_eq_true.mp hall c hc
    simp [hmem] at hnot
  className := fun before =>
    Text.contains_append_of_getLast? (c := '/') (by decide) (by decide)
  classes := importsFonts_rootClasses h

end Layout

namespace Font

variable {font : Font}

/-- The import of a font imports fonts. -/
theorem importsFonts_importLine (font : Font) : importsFonts font.importLine.toList = true := by
  have hmodule : " \x7d from \"next/font/google\";".toList =
      " \x7d ".toList ++ (fontModule ++ "google\";".toList) := by decide
  rw [importsFonts, Text.contains_iff_isInfix, toList_importLine, hmodule]
  exact ⟨"import \x7b ".toList ++ font.ident.toList ++ " \x7d ".toList, "google\";".toList, by
    simp only [List.append_assoc]⟩

/-- No line of a declaration imports fonts. -/
theorem Usable.importsFonts_factoryLines (h : font.Usable) :
    ∀ line ∈ font.factoryLines.map String.toList, importsFonts line = false := by
  have hident : '/' ∉ font.ident.toList := fun hmem => absurd (h.ident_word _ hmem) (by decide)
  have hbinding : '/' ∉ font.binding.toList := fun hmem => absurd (h.binding_word _ hmem) (by decide)
  have hvariable : '/' ∉ font.cssVariable.toList :=
    fun hmem => absurd (h.variable_plain _ hmem) (by decide)
  have hslash : ∀ line ∈ font.factoryLines.map String.toList, '/' ∉ line := by
    simp [factoryLines, weight, String.toList_append, hident, hbinding, hvariable]
  exact fun line hline => Text.contains_eq_false (c := '/') (by decide) (hslash line hline)

/-- A font has one line that imports fonts. -/
theorem Usable.countP_importsFonts (h : font.Usable) : font.newLines.countP importsFonts = 1 := by
  have hnone : (font.factoryLines.map String.toList).countP importsFonts = 0 := by
    rw [List.countP_eq_zero]
    intro line hline
    rw [h.importsFonts_factoryLines line hline]
    exact Bool.false_ne_true
  rw [newLines, List.countP_cons, hnone, importsFonts_importLine]
  rfl

end Font

/-- The import of the new font is the only line that imports fonts exactly if no text that is carried
along does. -/
theorem filter_importsFonts_iff {name : String} {font : Font}
    {layout layout' stylesheet stylesheet' : List Char} (hfont : Font.ofName name = .ok font)
    (happlied : applyFont font layout stylesheet = .ok (layout', stylesheet')) :
    (linesOf layout').filter importsFonts = [font.importLine.toList] ↔
      ∀ text ∈ carriedTexts layout, importsFonts text = false := by
  have husable := Font.usable_of_ofName hfont
  have hcount := (husable.countP_linesOf_applyFont happlied
    (sign_importsFonts husable.isConstant)).2
  rw [husable.countP_importsFonts, List.countP_eq_length_filter] at hcount
  rw [← hcount]
  constructor
  · intro honly
    rw [honly]
    rfl
  · intro hone
    obtain ⟨line, hline⟩ := List.length_eq_one_iff.mp hone
    have hmem : font.importLine.toList ∈ (linesOf layout').filter importsFonts :=
      List.mem_filter.mpr ⟨husable.importLine_mem_linesOf_applyFont happlied,
        Font.importsFonts_importLine font⟩
    rw [hline, List.mem_singleton] at hmem
    rw [hline, hmem]

/-- Where a font is imported on one line, that line goes. -/
theorem filter_importsFonts_iff_one_line :
    (∀ text ∈ carriedTexts (layoutWithFont "\x7d);"), importsFonts text = false) ∧
      (linesOf (interTexts "\x7d);").1).filter importsFonts = [interFont.importLine.toList] := by
  have hcarried : ∀ text ∈ carriedTexts (layoutWithFont "\x7d);"), importsFonts text = false := by
    decide +kernel
  exact ⟨hcarried, (filter_importsFonts_iff ofName_inter applyFont_inter_semicolon).mpr hcarried⟩

/-- An import of fonts that is spread over several lines stays. -/
theorem exists_filter_importsFonts_ne :
    ¬ ∀ (name : String) (font : Font) (layout layout' stylesheet stylesheet' : List Char),
      Font.ofName name = .ok font → applyFont font layout stylesheet = .ok (layout', stylesheet') →
        (linesOf layout').filter importsFonts = [font.importLine.toList] := by
  intro hall
  obtain ⟨layout', stylesheet', happlied, hother⟩ := exists_applyFont_of_any interFont
    (layoutBelow ["import \x7b", "  Geist,", "\x7d from \"next/font/google\";"]) stylesheetWithFont
    (fun layout' => (linesOf layout').filter importsFonts ≠ [interFont.importLine.toList])
    (by decide +kernel)
  exact of_decide_eq_true hother
    (hall "Inter" interFont _ layout' _ stylesheet' ofName_inter happlied)

end Siteworks
