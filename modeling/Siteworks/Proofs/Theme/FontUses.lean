import Mathlib
import Siteworks.Proofs.Layout.Names
import Siteworks.Proofs.Theme.CarriedTexts
import Siteworks.Proofs.Theme.LastFont

/-!
# The uses of old names in a new layout

Applying a font retires names: those that the imports it takes out bring, and the constants of the
declarations it takes out. The lines of the new font use the font's own identifier and constant only, so
the new layout is free of a retired name exactly if no text that is carried along uses it.
-/

namespace Siteworks

open Layout

variable {font : Font} {name binding line : List Char} {layout : List Char}

namespace Layout

/-! ## Retired names -/

/-- The names that an import statement brings: of each item between `import` and `from` the last one. -/
def namesOfImport (statement : List Char) : List (List Char) :=
  match "import".toList.isPrefixOf? (Text.trimStart statement) with
  | none => []
  | some rest =>
    let clause := Text.trimEnd (rest.takeWhile fun c => c ≠ '"' && c ≠ '\'')
    let items := ("from".toList.isSuffixOf? clause).getD clause
    (items.splitOnP fun c => c = ',' || c = '\x7b' || c = '\x7d').filterMap fun item =>
      (Text.runs isNameChar item).getLast?

/-- The names that the import statements on a line bring. -/
def importedNames (line : List Char) : List (List Char) :=
  (line.splitOn ';').flatMap namesOfImport

/-- The names that a block brings, if it imports or declares fonts. -/
def namesOfFonts : Block → List (List Char)
  | .fontImport line => importedNames line
  | .fontFactory binding _ => [binding]
  | .typeImport _ | .plain _ => []

/-- The names whose imports and declarations are taken out of a layout when its font is changed. -/
def retiredNames (layout : List Char) : List (List Char) :=
  (parse layout).blocks.flatMap namesOfFonts

/-- What an import brings are names. -/
theorem isIdentifier_of_mem_importedNames (h : name ∈ importedNames line) : IsIdentifier name := by
  obtain ⟨statement, -, hname⟩ := List.mem_flatMap.mp h
  unfold namesOfImport at hname
  split at hname
  · cases hname
  next rest _ =>
    obtain ⟨item, -, hlast⟩ := List.mem_filterMap.mp hname
    have hrun := List.mem_of_getLast? hlast
    exact ⟨Text.ne_nil_of_mem_runs hrun, fun c hc => Text.inClass_of_mem_runs hrun hc⟩

/-- What is retired are names. -/
theorem isIdentifier_of_mem_retiredNames (h : name ∈ retiredNames layout) : IsIdentifier name := by
  obtain ⟨block, hblock, hname⟩ := List.mem_flatMap.mp h
  cases block with
  | typeImport line => cases hname
  | fontImport line => exact isIdentifier_of_mem_importedNames hname
  | fontFactory binding lines =>
    rw [namesOfFonts, List.mem_singleton] at hname
    subst hname
    obtain ⟨line, binding, body, close, heq, hcall, -⟩ :=
      (parsed_blocksFrom 0 (linesOf layout)).exists_isCall hblock rfl
    cases heq
    exact isIdentifier_of_factoryBinding? hcall.binds
  | plain line => cases hname

/-- The classes that are put in use the font's constant only. -/
theorem uses_rootClasses (hname : IsIdentifier name) (hbinding : IsConstant binding)
    (hother : name ≠ binding) (value : List Char) :
    uses name ([' '].intercalate (rootClasses binding value)) =
      uses name ([' '].intercalate (otherClasses value)) := by
  have hword : ∀ c ∈ binding, isNameChar c = true := fun c hc =>
    isNameChar_of_isWord (Text.isWord_of_isAlphanum (hbinding.isAlphanum c hc))
  have hfont : uses name fontClass = false := uses_eq_false hname.ne_nil (by decide)
  have hsmooth : uses name smoothClass = false := uses_eq_false hname.ne_nil (by decide)
  have hothers : Text.words ([' '].intercalate (otherClasses value)) = otherClasses value :=
    Text.runs_intercalate (by decide)
      (fun _ hpart => Text.ne_nil_of_mem_runs (List.mem_filter.mp hpart).1)
      fun _ hpart _ hc => Text.inClass_of_mem_runs (List.mem_filter.mp hpart).1 hc
  calc uses name ([' '].intercalate (rootClasses binding value))
      = (rootClasses binding value).any (uses name) := by
        rw [uses_eq_any_words hname, words_intercalate_rootClasses hbinding]
    _ = (otherClasses value).any (uses name) := by
        simp [rootClasses_eq, uses_fontReference hname hword hother, hfont, hsmooth]
    _ = uses name ([' '].intercalate (otherClasses value)) := by
        rw [uses_eq_any_words hname, hothers]

/-- The use of a name is a sign that the classes of another constant do not bear. -/
theorem sign_uses (hname : IsIdentifier name) (hbinding : IsConstant binding) (hother : name ≠ binding) :
    Sign binding (uses name) where
  nil := rfl
  cut := by
    intro c hc before after
    have hall : ∀ c ∈ ['=', '\x7b', '\x60', '\x7d', '\r'], c ∈ signs ∧ isUseChar c = false := by
      simp [signs, isUseChar]
    obtain ⟨hsign, huse⟩ := hall c hc
    exact uses_append_delimiter hname (isNameChar_of_mem_signs hsign) huse
  className := fun before => uses_append_tail hname.ne_nil (by decide)
  classes := uses_rootClasses hname hbinding hother

end Layout

namespace Font

/-- No line of a font but the first one of its declaration uses a name. -/
theorem Usable.any_isUseChar (h : font.Usable) :
    ∀ line ∈ font.importLine.toList :: font.factoryLines.tail.map String.toList,
      line.any isUseChar = false := by
  have hident : font.ident.toList.any isUseChar = false := List.any_eq_false.mpr fun c hc => by
    rcases h.ident_word c hc with hc | rfl
    · simp [isUseChar_of_isAlphanum hc]
    · decide
  have hvariable : font.cssVariable.toList.any isUseChar = false :=
    List.any_eq_false.mpr fun c hc => by
      rcases h.variable_plain c hc with hc | rfl
      · simp [isUseChar_of_isAlphanum hc]
      · decide
  simp only [importLine, factoryLines, weight, List.tail_cons, List.map_cons, List.map_nil,
    List.forall_mem_cons, String.toList_append, List.any_append, hident, hvariable]
  decide

/-- The first line of the declaration uses the identifier only. -/
theorem Usable.uses_first (h : font.Usable) (hname : IsIdentifier name)
    (hident : name ≠ font.ident.toList) :
    uses name ("const " ++ font.binding ++ " = " ++ font.ident ++ "(\x7b").toList = false := by
  have hline : ("const " ++ font.binding ++ " = " ++ font.ident ++ "(\x7b").toList =
      ("const ".toList ++ font.binding.toList ++ " =".toList) ++ ' ' ::
        (font.ident.toList ++ '(' :: ['\x7b']) := by
    simp [String.toList_append]
  have hword : ∀ c ∈ font.ident.toList, isNameChar c = true :=
    fun c hc => isNameChar_of_isWord (h.isWord_ident c hc)
  have hstart : uses name ("const ".toList ++ font.binding.toList ++ " =".toList) = false := by
    have hconstant : font.binding.toList.any isUseChar = false :=
      List.any_eq_false.mpr fun c hc => by simp [isUseChar_of_isAlphanum (h.binding_word c hc)]
    refine uses_eq_false hname.ne_nil ?_
    rw [List.any_append, List.any_append, hconstant]
    decide
  have hend : uses name ['\x7b'] = false := uses_eq_false hname.ne_nil (by decide)
  rw [hline, uses_append_delimiter hname (isNameChar_of_mem_signs (by decide)) (by decide),
    uses_append_cons hname (isNameChar_of_mem_signs (by decide)), hstart,
    uses_concat hname hword hident, hend]
  rfl

/-- The lines of a font use its identifier only. -/
theorem Usable.countP_uses (h : font.Usable) (hname : IsIdentifier name)
    (hident : name ≠ font.ident.toList) : font.newLines.countP (uses name) = 0 := by
  have hothers := h.any_isUseChar
  rw [List.countP_eq_zero]
  intro line hline
  rw [Bool.not_eq_true]
  rcases List.mem_cons.mp hline with rfl | hline
  · exact uses_eq_false hname.ne_nil (hothers _ List.mem_cons_self)
  · rcases List.mem_cons.mp hline with rfl | hline
    · exact h.uses_first hname hident
    · exact uses_eq_false hname.ne_nil (hothers _ (List.mem_cons_of_mem _ hline))

/-- A name that the font does not use is used in a new layout exactly where a text that is carried along
uses it. -/
theorem Usable.forall_uses_iff (h : font.Usable) {layout' stylesheet stylesheet' : List Char}
    (happlied : applyFont font layout stylesheet = .ok (layout', stylesheet')) (hname : IsIdentifier name)
    (hident : name ≠ font.ident.toList) (hbinding : name ≠ font.binding.toList) :
    (∀ line ∈ linesOf layout', uses name line = false) ↔
      ∀ text ∈ carriedTexts layout, uses name text = false := by
  have hcount := (h.countP_linesOf_applyFont happlied
    (sign_uses hname h.isConstant hbinding)).2
  rw [h.countP_uses hname hident, List.countP_eq_zero] at hcount
  simpa only [Bool.not_eq_true] using hcount

end Font

/-- No line of the new layout uses a retired name that the new font does not bring, exactly if no text
that is carried along does. -/
theorem forall_retiredNames_iff {name : String} {font : Font}
    {layout layout' stylesheet stylesheet' : List Char} (hfont : Font.ofName name = .ok font)
    (happlied : applyFont font layout stylesheet = .ok (layout', stylesheet')) :
    (∀ old ∈ retiredNames layout, old ≠ font.ident.toList → old ≠ font.binding.toList →
        ∀ line ∈ linesOf layout', uses old line = false) ↔
      ∀ old ∈ retiredNames layout, old ≠ font.ident.toList → old ≠ font.binding.toList →
        ∀ text ∈ carriedTexts layout, uses old text = false := by
  have husable := Font.usable_of_ofName hfont
  refine forall₂_congr fun old hold => forall₂_congr fun hident hbinding => ?_
  exact husable.forall_uses_iff happlied (isIdentifier_of_mem_retiredNames hold) hident hbinding

/-- Where a font is imported on one line and its declaration is closed with a semicolon, nothing uses its
names afterwards. -/
theorem forall_retiredNames_iff_semicolon :
    retiredNames (layoutWithFont "\x7d);") = ["Geist".toList, "geist".toList] ∧
      ∀ old ∈ retiredNames (layoutWithFont "\x7d);"), old ≠ interFont.ident.toList →
        old ≠ interFont.binding.toList →
          ∀ line ∈ linesOf (interTexts "\x7d);").1, uses old line = false := by
  have hretired : retiredNames (layoutWithFont "\x7d);") = ["Geist".toList, "geist".toList] := by
    decide +kernel
  have hcarried : ∀ old ∈ ["Geist".toList, "geist".toList],
      ∀ text ∈ carriedTexts (layoutWithFont "\x7d);"), uses old text = false := by decide +kernel
  refine ⟨hretired, (forall_retiredNames_iff ofName_inter applyFont_inter_semicolon).mpr
    fun old hold _ _ => ?_⟩
  rw [hretired] at hold
  exact hcarried old hold

/-- A font that is imported and declared on one line each is still called after its import was taken
out. -/
theorem exists_retiredName_used :
    ¬ ∀ (name : String) (font : Font) (layout layout' stylesheet stylesheet' : List Char),
      Font.ofName name = .ok font → applyFont font layout stylesheet = .ok (layout', stylesheet') →
        ∀ old ∈ retiredNames layout, old ≠ font.ident.toList → old ≠ font.binding.toList →
          ∀ line ∈ linesOf layout', uses old line = false := by
  intro hall
  obtain ⟨layout', stylesheet', happlied, hused⟩ := exists_applyFont_of_any interFont
    (layoutBelow ["import \x7b Geist \x7d from \"next/font/google\";",
      "const geist = Geist(\x7b variable: \"--font-geist\", subsets: [\"latin\"] \x7d);"])
    stylesheetWithFont (fun layout' => (linesOf layout').any (uses "Geist".toList)) (by decide +kernel)
  obtain ⟨line, hline, huses⟩ := List.any_eq_true.mp hused
  have hnot := hall "Inter" interFont _ layout' _ stylesheet' ofName_inter happlied "Geist".toList
    (by decide +kernel) (by decide) (by decide) line hline
  rw [huses] at hnot
  cases hnot

end Siteworks
