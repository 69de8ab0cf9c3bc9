import Mathlib
import Siteworks.Proofs.Layout.Dressing

/-!
# The lines that put a font into a layout

The import of a font is told apart as one, and its declaration is a call that configures a font, bound
to the font's constant. None of these lines has a class attribute or is broken in two.
-/

namespace Siteworks.Font

open Layout

variable {font : Font}

/-- The characters of the import of a font. -/
theorem toList_importLine (font : Font) : font.importLine.toList =
    "import \x7b ".toList ++ font.ident.toList ++ " \x7d from \"next/font/google\";".toList := by
  simp only [importLine, String.toList_append]

/-- The import is told apart as one of fonts. -/
theorem importBlock?_importLine (font : Font) :
    importBlock? font.importLine.toList = some (.fontImport font.importLine.toList) := by
  have hline := toList_importLine font
  have hstart : Text.trimStart font.importLine.toList = font.importLine.toList := by
    rw [hline]
    rfl
  have hmodule : Text.contains "next/font/".toList font.importLine.toList = true := by
    rw [Text.contains_iff_isInfix, hline]
    exact ⟨"import \x7b ".toList ++ font.ident.toList ++ " \x7d from \"".toList,
      "google\";".toList, by simp⟩
  have htype : "import type ".toList.isPrefixOf font.importLine.toList = false := by
    rw [hline]
    rfl
  have himport : "import ".toList.isPrefixOf font.importLine.toList = true := by
    rw [hline]
    rfl
  simp only [importBlock?, hstart, htype, himport, hmodule]
  rfl

namespace Usable

/-- The constant is a name of letters and digits. -/
theorem isConstant (h : font.Usable) : IsConstant font.binding.toList :=
  ⟨h.binding_ne_nil, h.binding_word⟩

/-- The identifier is a word. -/
theorem isWord_ident (h : font.Usable) : ∀ c ∈ font.ident.toList, Text.isWord c = true := by
  intro c hc
  rcases h.ident_word c hc with halpha | rfl
  · exact Text.isWord_of_isAlphanum halpha
  · rfl

/-- The constant is a word. -/
theorem isWord_binding (h : font.Usable) : ∀ c ∈ font.binding.toList, Text.isWord c = true :=
  fun c hc => Text.isWord_of_isAlphanum (h.binding_word c hc)

/-- The variable ends no declaration of a stylesheet. -/
theorem semicolon_not_mem (h : font.Usable) : ';' ∉ font.cssVariable.toList :=
  fun hmem => absurd (h.variable_plain _ hmem) (by decide)

/-- The import has no class attribute. -/
theorem classAttribute?_importLine (h : font.Usable) :
    classAttribute? font.importLine.toList = none := by
  rw [Option.eq_none_iff_forall_ne_some]
  rintro ⟨before, value, follow⟩ hfound
  obtain ⟨⟨quoted, -, hline⟩, -⟩ := classAttribute?_eq_some_iff.mp hfound
  have hmem : '=' ∈ font.importLine.toList := by
    rw [hline]
    simp
  rw [toList_importLine, List.mem_append, List.mem_append] at hmem
  rcases hmem with (hmem | hmem) | hmem
  · exact absurd hmem (by decide)
  · exact absurd (h.isWord_ident _ hmem) (by simp [Text.isWord_of_gap (c := '=') rfl])
  · exact absurd hmem (by decide)

/-- The first line of the declaration binds the constant. -/
theorem factoryBinding?_first (h : font.Usable) :
    factoryBinding? ("const " ++ font.binding ++ " = " ++ font.ident ++ "(\x7b").toList =
      some font.binding.toList := by
  have hspace : Text.isWord ' ' = false := Text.isWord_of_gap rfl
  have hparen : Text.isWord '(' = false := Text.isWord_of_gap rfl
  have halpha : ∀ c : Char, c.isAlphanum = true → Text.isBlank c = false :=
    fun _ => Text.isBlank_of_isAlphanum
  have hline : ("const " ++ font.binding ++ " = " ++ font.ident ++ "(\x7b").toList =
      "const".toList ++ ([' '] ++ (font.binding.toList ++
        ' ' :: '=' :: ' ' :: (font.ident.toList ++ '(' :: ['\x7b']))) := by
    simp [String.toList_append]
  have hbinding : ∃ b binding, font.binding.toList = b :: binding ∧ Text.isBlank b = false := by
    obtain ⟨b, binding, hbinding⟩ := List.exists_cons_of_ne_nil h.binding_ne_nil
    exact ⟨b, binding, hbinding, halpha b (h.binding_word b (by simp [hbinding]))⟩
  have hident : ∃ i ident, font.ident.toList = i :: ident ∧ Text.isBlank i = false := by
    obtain ⟨i, ident, hident⟩ := List.exists_cons_of_ne_nil h.ident_ne_nil
    refine ⟨i, ident, hident, ?_⟩
    rcases h.ident_word i (by simp [hident]) with hi | rfl
    · exact halpha i hi
    · decide
  -- the parts of the line from left to right
  have hconst : ∀ rest, "const".toList.isPrefixOf? (Text.trimStart ("const".toList ++ rest)) =
      some rest := fun rest => rfl
  have hgap : run? Text.isBlank ([' '] ++ (font.binding.toList ++
      ' ' :: '=' :: ' ' :: (font.ident.toList ++ '(' :: ['\x7b']))) = some ([' '],
        font.binding.toList ++ ' ' :: '=' :: ' ' :: (font.ident.toList ++ '(' :: ['\x7b'])) := by
    obtain ⟨b, binding, hbinding, hb⟩ := hbinding
    rw [hbinding]
    exact run?_append_cons (by simp) (by simp [show Text.isBlank ' ' = true by decide]) hb
  have hname : run? Text.isWord (font.binding.toList ++
      ' ' :: '=' :: ' ' :: (font.ident.toList ++ '(' :: ['\x7b'])) = some (font.binding.toList,
        ' ' :: '=' :: ' ' :: (font.ident.toList ++ '(' :: ['\x7b'])) :=
    run?_append_cons h.binding_ne_nil h.isWord_binding hspace
  have hequals : ['='].isPrefixOf? (Text.trimStart
      (' ' :: '=' :: ' ' :: (font.ident.toList ++ '(' :: ['\x7b']))) =
        some (' ' :: (font.ident.toList ++ '(' :: ['\x7b'])) := rfl
  have hcallee : run? Text.isWord (Text.trimStart (' ' :: (font.ident.toList ++ '(' :: ['\x7b']))) =
      some (font.ident.toList, '(' :: ['\x7b']) := by
    have htrim : Text.trimStart (' ' :: (font.ident.toList ++ '(' :: ['\x7b'])) =
        font.ident.toList ++ '(' :: ['\x7b'] := by
      obtain ⟨i, ident, hident, hi⟩ := hident
      rw [hident, Text.trimStart, List.dropWhile_cons, show Text.isBlank ' ' = true by decide,
        if_pos rfl, List.cons_append, List.dropWhile_cons, hi]
      rfl
    rw [htrim]
    exact run?_append_cons h.ident_ne_nil h.isWord_ident hparen
  have hopen : "(\x7b".toList.isPrefixOf? ('(' :: ['\x7b']) = some [] := rfl
  rw [hline, factoryBinding?]
  simp only [Option.bind_eq_bind, hconst, hgap, hname, hequals, hcallee, hopen, Option.bind_some]
  rfl

/-- The declaration is a call that binds the constant. -/
theorem exists_isCall (h : font.Usable) : ∃ line body close,
    font.factoryLines.map String.toList = line :: (body ++ [close]) ∧
      IsCall line font.binding.toList body close := by
  have hinside : ∀ other ∈ [("  variable: \"" ++ font.cssVariable ++ "\",").toList,
      "  subsets: [\"latin\"],".toList, ("  weight: \"" ++ weight ++ "\",").toList],
      closesCall other = false := by
    simp only [List.forall_mem_cons]
    refine ⟨?_, ?_, ?_, by simp⟩
    · exact closesCall_eq_false (c := 'v') (by simp [String.toList_append]) (by decide)
    · exact closesCall_eq_false (c := 's') (by simp) (by decide)
    · exact closesCall_eq_false (c := 'w') (by simp [String.toList_append]) (by decide)
  have hnot : importBlock? ("const " ++ font.binding ++ " = " ++ font.ident ++ "(\x7b").toList =
      none := by
    have hline : ("const " ++ font.binding ++ " = " ++ font.ident ++ "(\x7b").toList =
        "const ".toList ++ (font.binding ++ " = " ++ font.ident ++ "(\x7b").toList := by
      simp [String.toList_append]
    rw [← Option.not_isSome_iff_eq_none, isSome_importBlock?, hline, Bool.not_eq_true]
    rfl
  exact ⟨_, [_, _, _], _, rfl, hnot, h.factoryBinding?_first, hinside, by decide⟩

end Usable

/-- The declaration configures a font. -/
theorem configuresFont_factoryLines (font : Font) :
    configuresFont (font.factoryLines.map String.toList) = true := by
  have hvariable : Text.contains "variable:".toList
      ("  variable: \"" ++ font.cssVariable ++ "\",").toList = true := by
    rw [Text.contains_iff_isInfix]
    exact ⟨"  ".toList, " \"".toList ++ font.cssVariable.toList ++ "\",".toList,
      by simp [String.toList_append]⟩
  have hsubsets : Text.contains "subsets:".toList "  subsets: [\"latin\"],".toList = true := by
    decide
  rw [configuresFont, Bool.and_eq_true, List.any_eq_true, List.any_eq_true]
  exact ⟨⟨_, .tail _ (.head _), hvariable⟩, ⟨_, .tail _ (.tail _ (.head _)), by rw [hsubsets]; rfl⟩⟩

/-- None of the lines is broken. -/
theorem Usable.unbroken (h : font.Usable) :
    ∀ line ∈ font.importLine.toList :: font.factoryLines.map String.toList,
      ∀ c ∈ line, c ≠ '\n' ∧ c ≠ '\r' := by
  have halpha : ∀ c : Char, c.isAlphanum = true → c ≠ '\n' ∧ c ≠ '\r' := by
    rintro c hc
    constructor <;> rintro rfl <;> exact absurd hc (by decide)
  have hliteral : ∀ text : List Char, (text.all fun c => c ≠ '\n' && c ≠ '\r') = true →
      ∀ c ∈ text, c ≠ '\n' ∧ c ≠ '\r' := by
    intro text htext c hc
    simpa using List.all_eq_true.mp htext c hc
  have hident : ∀ c ∈ font.ident.toList, c ≠ '\n' ∧ c ≠ '\r' := by
    intro c hc
    rcases h.ident_word c hc with hc | rfl
    · exact halpha c hc
    · decide
  have hvariable : ∀ c ∈ font.cssVariable.toList, c ≠ '\n' ∧ c ≠ '\r' := by
    intro c hc
    rcases h.variable_plain c hc with hc | rfl
    · exact halpha c hc
    · decide
  have hbinding : ∀ c ∈ font.binding.toList, c ≠ '\n' ∧ c ≠ '\r' :=
    fun c hc => halpha c (h.binding_word c hc)
  simp only [importLine, factoryLines, List.map_cons, List.map_nil, List.forall_mem_cons,
    String.toList_append, List.forall_mem_append]
  and_intros
  all_goals first
    | exact hident
    | exact hbinding
    | exact hvariable
    | exact hliteral _ (by decide)
    | exact fun _ hnot => nomatch hnot

end Siteworks.Font
