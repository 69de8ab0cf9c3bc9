import Mathlib
import Siteworks.Proofs.Layout.LineEnds
import Siteworks.Proofs.Theme.Settling

/-!
# What is carried along when the font changes

Applying a font puts the lines of the font into a layout. Everything else in the new layout is carried
along from the old one: the lines that neither import nor declare fonts, and of the line with the class
attribute of the body element what stands around the attribute and the classes that name no font. So a
sign that lines may bear is borne by the new lines as often as by the lines of the font, unless some
text that is carried along bears it.
-/

namespace Siteworks

open Layout

variable {font : Font} {binding : List Char} {blocks named : List Block} {p : List Char → Bool}

namespace Layout

/-- The classes of the body element that stay when a font is named. -/
def otherClasses (value : List Char) : List (List Char) :=
  (Text.words value).filter fun token =>
    !isFontReference token && token ≠ fontClass && token ≠ smoothClass

/-- The texts that stay when a font is named in the first class attribute. -/
def kept : List Block → List (List Char)
  | [] => []
  | block :: rest =>
    match attribute? block with
    | none => block.lines ++ kept rest
    | some (before, value, follow) =>
      before :: [' '].intercalate (otherClasses value) :: follow :: rest.flatMap Block.lines

/-- The texts that stay when a font is named in the first class attribute from the body element on. -/
def keptOfBody : List Block → List (List Char)
  | [] => []
  | block :: rest =>
    if block.isPlain opensBody then kept (block :: rest) else block.lines ++ keptOfBody rest

/-- The texts of a layout that stay when its font is changed. -/
def carriedTexts (layout : List Char) : List (List Char) :=
  keptOfBody (fontless (parse layout).blocks)

/-- The classes of the body element are those that are put in and those that stay. -/
theorem rootClasses_eq (binding value : List Char) : rootClasses binding value =
    fontReference binding :: fontClass :: (otherClasses value ++ [smoothClass]) := rfl

/-- A sign that texts may bear, told by the texts around the delimiters of a class attribute, and borne
by none of the classes that a font puts in. -/
structure Sign (binding : List Char) (p : List Char → Bool) : Prop where
  /-- No empty text bears it. -/
  nil : p [] = false
  /-- A delimiter parts a text. -/
  cut : ∀ c ∈ ['=', '\x7b', '\x60', '\x7d', '\r'], ∀ before after : List Char,
    p (before ++ c :: after) = (p before || p after)
  /-- The name of a class attribute does not matter. -/
  className : ∀ before : List Char, p (before ++ "className".toList) = p before
  /-- The classes that are put in do not matter. -/
  classes : ∀ value : List Char, p ([' '].intercalate (rootClasses binding value)) =
    p ([' '].intercalate (otherClasses value))

namespace Sign

/-- A line with a changed class attribute bears the sign if one of the texts that stay of it does. -/
theorem changedLine (h : Sign binding p) (before value follow : List Char) :
    p (before ++ classAttribute (rootClasses binding value) ++ follow) =
      (p before || (p ([' '].intercalate (otherClasses value)) || p follow)) := by
  have hline : before ++ classAttribute (rootClasses binding value) ++ follow =
      (before ++ "className".toList) ++ '=' :: ([] ++ '\x7b' :: ([] ++ '\x60' ::
        ([' '].intercalate (rootClasses binding value) ++ '\x60' :: ([] ++ '\x7d' :: follow)))) := by
    rw [classAttribute_eq]
    simp only [List.append_assoc, List.cons_append, List.nil_append]
  rw [hline, h.cut '=' (by simp), h.cut '\x7b' (by simp), h.cut '\x60' (by simp),
    h.cut '\x60' (by simp), h.cut '\x7d' (by simp), h.className, h.classes, h.nil]
  simp only [Bool.false_or]

/-- Naming a font in the first class attribute keeps the sign where the texts that stay bear it. -/
theorem any_restyle (h : Sign binding p) (hnamed : restyle binding blocks = .ok named) :
    (named.flatMap Block.lines).any p = (kept blocks).any p := by
  induction blocks generalizing named with
  | nil => cases hnamed
  | cons block rest ih =>
    rw [restyle] at hnamed
    rw [kept]
    cases hfound : attribute? block with
    | none =>
      rw [hfound] at hnamed
      cases hrest : restyle binding rest with
      | error e => rw [hrest] at hnamed; cases hnamed
      | ok tail =>
        rw [hrest] at hnamed
        cases hnamed
        rw [List.flatMap_cons, List.any_append, List.any_append, ih hrest]
    | some found =>
      obtain ⟨before, value, follow⟩ := found
      rw [hfound] at hnamed
      cases block with
      | plain line =>
        cases hnamed
        rw [List.flatMap_cons, Block.lines, List.singleton_append, List.any_cons, h.changedLine]
        simp only [List.any_cons, Bool.or_assoc]
      | typeImport line => cases hnamed
      | fontImport line => cases hnamed
      | fontFactory name lines => cases hnamed

/-- Naming a font in the body element keeps the sign where the texts that stay bear it. -/
theorem any_restyleBody (h : Sign binding p) (hnamed : restyleBody binding blocks = .ok named) :
    (named.flatMap Block.lines).any p = (keptOfBody blocks).any p := by
  induction blocks generalizing named with
  | nil => cases hnamed
  | cons block rest ih =>
    rw [restyleBody] at hnamed
    rw [keptOfBody]
    cases hopens : block.isPlain opensBody with
    | true =>
      rw [hopens, if_pos rfl] at hnamed
      rw [if_pos rfl, h.any_restyle hnamed]
    | false =>
      rw [hopens, if_neg Bool.false_ne_true] at hnamed
      cases hrest : restyleBody binding rest with
      | error e => rw [hrest] at hnamed; cases hnamed
      | ok tail =>
        rw [hrest] at hnamed
        cases hnamed
        rw [if_neg Bool.false_ne_true, List.flatMap_cons, List.any_append, List.any_append, ih hrest]

end Sign

end Layout

namespace Font

/-- The lines that a font puts into a layout. -/
def newLines (font : Font) : List (List Char) :=
  font.importLine.toList :: font.factoryLines.map String.toList

/-- Dressed blocks have the lines of the font, an empty line, and the lines of the old blocks with the
font named. -/
theorem Usable.countP_of_dressed (h : font.Usable) {others : List Block}
    (hdressed : font.dressed blocks = .ok others) (hnil : p [] = false) :
    ∃ named, restyleBody font.binding.toList blocks = .ok named ∧
      (others.flatMap Block.lines).countP p =
        font.newLines.countP p + (named.flatMap Block.lines).countP p := by
  obtain ⟨named, hnamed, rfl, -⟩ := h.exists_of_dressed hdressed
  refine ⟨named, hnamed, ?_⟩
  rw [((font.declared_perm named).flatMap_right Block.lines).countP_eq p]
  simp only [declaration, newLines, List.flatMap_cons, List.cons_append, List.nil_append, Block.lines,
    List.countP_append, List.countP_cons, hnil]
  simp only [Bool.false_eq_true, if_false]
  omega

/-- The lines of the new layout bear a sign as often as the lines of the font do, exactly if no text
that is carried along bears it. -/
theorem Usable.countP_linesOf_applyFont (h : font.Usable)
    {layout layout' stylesheet stylesheet' : List Char}
    (happlied : applyFont font layout stylesheet = .ok (layout', stylesheet'))
    (hp : Sign font.binding.toList p) :
    font.newLines.countP p ≤ (linesOf layout').countP p ∧
      ((linesOf layout').countP p = font.newLines.countP p ↔
        ∀ text ∈ carriedTexts layout, p text = false) := by
  obtain ⟨blocks, hdressed, rfl⟩ := exists_dressed_of_applyFont happlied
  obtain ⟨named, hnamed, hcount⟩ := h.countP_of_dressed hdressed hp.nil
  have hreturn : ∀ line, p (line ++ ['\r']) = p line := by
    intro line
    rw [hp.cut '\r' (by simp), hp.nil, Bool.or_false]
  have hcarried : (named.flatMap Block.lines).countP p = 0 ↔
      ∀ text ∈ carriedTexts layout, p text = false := by
    rw [List.countP_eq_zero, ← List.any_eq_false, hp.any_restyleBody hnamed, List.any_eq_false]
    simp only [Bool.not_eq_true, carriedTexts]
  rw [countP_linesOf_render hreturn hp.nil (h.lines_ne_nil hdressed)
    (h.unbroken_of_dressed hdressed (unbroken_fontless layout)), hcount]
  refine ⟨Nat.le_add_right _ _, ?_⟩
  rw [Nat.add_eq_left, hcarried]

/-- The import of a font is a line of the new layout. -/
theorem Usable.importLine_mem_linesOf_applyFont (h : font.Usable)
    {layout layout' stylesheet stylesheet' : List Char}
    (happlied : applyFont font layout stylesheet = .ok (layout', stylesheet')) :
    font.importLine.toList ∈ linesOf layout' := by
  obtain ⟨blocks, hdressed, rfl⟩ := exists_dressed_of_applyFont happlied
  obtain ⟨named, -, rfl, -⟩ := h.exists_of_dressed hdressed
  have hmem : font.importLine.toList ∈ (font.declared named).flatMap Block.lines := by
    rw [((font.declared_perm named).flatMap_right Block.lines).mem_iff]
    exact List.mem_cons_self
  have hfull : font.importLine.toList ≠ [] := by
    rw [toList_importLine]
    simp
  refine mem_linesOf_render (h.unbroken_of_dressed hdressed (unbroken_fontless layout)) hmem hfull ?_
  intro hlast
  exact (h.unbroken _ List.mem_cons_self _ (List.mem_of_getLast? hlast)).2 rfl

end Font

/-- A font is applied if the new layout has some property. -/
theorem exists_applyFont_of_any (font : Font) (layout stylesheet : List Char) (p : List Char → Bool)
    (h : (applyFont font layout stylesheet).toOption.any (fun texts => p texts.1) = true) :
    ∃ layout' stylesheet', applyFont font layout stylesheet = .ok (layout', stylesheet') ∧
      p layout' = true := by
  cases happlied : applyFont font layout stylesheet with
  | error e =>
    rw [happlied] at h
    cases h
  | ok texts =>
    rw [happlied] at h
    exact ⟨texts.1, texts.2, rfl, h⟩

/-- A layout below some lines. -/
def layoutBelow (lines : List String) : List Char :=
  (lines ++ ["", "export const metadata = \x7b\x7d;", "", "export default function RootLayout() \x7b",
    "  return <body className=\x7b\x60$\x7bgeist.variable\x7d antialiased\x60\x7d />;",
    "\x7d"]).flatMap fun line => line.toList ++ ['\n']

end Siteworks
