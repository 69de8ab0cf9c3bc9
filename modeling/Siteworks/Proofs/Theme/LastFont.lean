import Mathlib
import Siteworks.Proofs.Layout.Calls
import Siteworks.Proofs.Theme.Settling

/-!
# The last font wins

Applying one font after another has the effect of applying the other one alone exactly if the layout
settles: above the place of the declaration every call that a line begins is closed, and no line keeps
a carriage return. A call that is open there would be closed by the end of the declaration, so that
the second font takes out the call with the first one. A carriage return that is kept at the end of a
line is dropped when the text is read again.
-/

namespace Siteworks

open Layout

variable {font : Font} {blocks others : List Block}

namespace Font

/-! ## The call of a declaration -/

/-- The declaration of a font begins one call. -/
theorem Usable.calls_factoryLines (h : font.Usable) :
    calls (font.factoryLines.map String.toList) = 1 := by
  have hquote : ∀ line : List Char, '"' ∈ line → factoryBinding? line = none :=
    fun line => factoryBinding?_eq_none (Or.inl rfl)
  have hclose : factoryBinding? "\x7d);".toList = none := by decide
  simp only [factoryLines, List.map_cons, List.map_nil, calls_cons, h.factoryBinding?_first, hclose]
  rw [hquote _ (by simp [String.toList_append]), hquote _ (by simp),
    hquote _ (by simp [String.toList_append])]
  rfl

/-- Dressing blocks adds one call. -/
theorem Usable.calls_of_dressed (h : font.Usable) (hdressed : font.dressed blocks = .ok others) :
    calls (others.flatMap Block.lines) = calls (blocks.flatMap Block.lines) + 1 := by
  obtain ⟨named, hnamed, rfl, -⟩ := h.exists_of_dressed hdressed
  have himport := factoryBinding?_of_importBlock? (importBlock?_importLine font)
  have hempty : factoryBinding? [] = none := rfl
  rw [calls_of_perm (font.declared_perm named),
    ← calls_eq (forall₂_sameRole (alike_of_restyleBody h.isConstant hnamed))]
  simp only [declaration, List.flatMap_cons, List.cons_append, List.nil_append, Block.lines,
    calls_append, calls_cons, h.calls_factoryLines, himport, hempty,
    Option.isSome_none, Bool.false_eq_true, if_false]
  omega

/-! ## Carriage returns -/

/-- Dressing blocks adds no carriage return. -/
theorem Usable.returns_of_dressed (h : font.Usable) (hdressed : font.dressed blocks = .ok others) :
    (others.flatMap Block.lines).flatten.count '\r' ≤
      (blocks.flatMap Block.lines).flatten.count '\r' := by
  obtain ⟨named, hnamed, rfl, -⟩ := h.exists_of_dressed hdressed
  have hroles : ∀ lines others : List (List Char), List.Forall₂ SameRole lines others →
      others.flatten.count '\r' ≤ lines.flatten.count '\r' := by
    intro lines others hroles
    induction hroles with
    | nil => exact le_rfl
    | cons hrole _ ih =>
      rw [List.flatten_cons, List.flatten_cons, List.count_append, List.count_append]
      exact Nat.add_le_add (hrole.breaks '\r' (Or.inr rfl)) ih
  have hfont : (font.importLine.toList :: font.factoryLines.map String.toList).flatten.count '\r' =
      0 := by
    refine List.count_eq_zero.mpr fun hmem => ?_
    obtain ⟨line, hline, hin⟩ := List.mem_flatten.mp hmem
    exact (h.unbroken line hline _ hin).2 rfl
  have hperm := ((font.declared_perm named).flatMap_right Block.lines).flatten.count_eq '\r'
  have hnamed := hroles _ _ (forall₂_sameRole (alike_of_restyleBody h.isConstant hnamed))
  rw [List.flatten_cons, List.count_append] at hfont
  rw [hperm]
  simp only [declaration, List.flatMap_cons, List.cons_append, List.nil_append, Block.lines,
    List.flatten_cons, List.flatten_append, List.count_append]
  omega

end Font

namespace Layout

/-- Reading drops carriage returns and adds none. -/
theorem linesOfPieces_flatten_sublist (pieces : List (List Char)) :
    (linesOfPieces pieces).flatten.Sublist (['\n'].intercalate pieces) := by
  fun_induction linesOfPieces pieces with
  | case1 => exact .slnil
  | case2 last hempty => simp
  | case3 last hempty => simp
  | case4 piece rest hrest ih =>
    obtain ⟨next, rest, rfl⟩ := List.exists_cons_of_ne_nil (l := rest) fun hnil => hrest hnil
    rw [List.intercalate_cons_cons, List.flatten_cons, List.append_assoc]
    exact (dropReturn_sublist piece).append (ih.trans (List.sublist_append_right _ _))

/-- A carriage return before a line feed ends the line, or stands behind it. -/
theorem contains_return {piece rest : List Char} (hpiece : '\n' ∉ piece)
    (h : Text.contains ['\r', '\n'] (piece ++ '\n' :: rest) = true) :
    piece.getLast? = some '\r' ∨ Text.contains ['\r', '\n'] rest = true := by
  obtain ⟨before, after, hcut⟩ := Text.contains_iff_isInfix.mp h
  have hcut : before ++ ['\r'] ++ '\n' :: after = piece ++ '\n' :: rest := by simpa using hcut
  rcases List.append_eq_append_iff.mp hcut with ⟨between, rfl, htail⟩ | ⟨between, hlong, htail⟩
  · cases between with
    | nil => exact Or.inl (by simp)
    | cons c between =>
      obtain ⟨rfl, -⟩ := List.cons.inj htail
      exact absurd (List.mem_append_right _ List.mem_cons_self) hpiece
  · cases between with
    | nil =>
      rw [List.append_nil] at hlong
      exact Or.inl (by rw [← hlong]; simp)
    | cons c between =>
      obtain ⟨rfl, rfl⟩ := List.cons.inj htail
      rcases List.eq_nil_or_concat between with rfl | ⟨between, last, rfl⟩
      · exact absurd (List.append_inj' hlong rfl).2 (by decide)
      · rw [List.concat_eq_append, ← List.cons_append, ← List.append_assoc] at hlong
        obtain rfl : '\r' = last := by simpa using (List.append_inj' hlong rfl).2
        exact Or.inr (Text.contains_iff_isInfix.mpr ⟨between, after, by simp⟩)

/-- Reading drops a carriage return before a line feed. -/
theorem returns_linesOf_lt {text : List Char} (h : Text.contains ['\r', '\n'] text = true) :
    (linesOf text).flatten.count '\r' < text.count '\r' := by
  have hpieces : ∀ pieces : List (List Char), (∀ piece ∈ pieces, '\n' ∉ piece) →
      Text.contains ['\r', '\n'] (['\n'].intercalate pieces) = true →
      (linesOfPieces pieces).flatten.count '\r' < (['\n'].intercalate pieces).count '\r' := by
    intro pieces hpieces hreturn
    fun_induction linesOfPieces pieces with
    | case1 => cases hreturn
    | case2 last hempty =>
      rw [List.isEmpty_iff.mp hempty] at hreturn
      cases hreturn
    | case3 last hempty =>
      rw [List.intercalate_singleton, Text.contains_iff_isInfix] at hreturn
      exact absurd (hreturn.subset (List.mem_cons_of_mem _ List.mem_cons_self))
        (hpieces last List.mem_cons_self)
    | case4 piece rest hrest ih =>
      obtain ⟨next, rest, rfl⟩ := List.exists_cons_of_ne_nil (l := rest) fun hnil => hrest hnil
      have hbehind := (linesOfPieces_flatten_sublist (next :: rest)).count_le '\r'
      have hpiece := (dropReturn_sublist piece).count_le '\r'
      rw [List.intercalate_cons_cons, List.append_assoc, List.singleton_append] at hreturn ⊢
      rw [List.flatten_cons, List.count_append, List.count_append,
        List.count_cons_of_ne (by decide)]
      rcases contains_return (hpieces piece List.mem_cons_self) hreturn with hends | hreturn
      · obtain ⟨start, rfl⟩ := List.getLast?_eq_some_iff.mp hends
        rw [dropReturn_concat, List.count_append, List.count_singleton_self]
        omega
      · have := ih (fun other hother => hpieces other (List.mem_cons_of_mem _ hother)) hreturn
        omega
  have htext := hpieces (text.splitOn '\n') (fun _ => newline_not_mem_of_mem_splitOn)
  rw [List.intercalate_splitOn] at htext
  exact htext h

/-- A text that was written has the carriage returns of its lines. -/
theorem returns_render (blocks : List Block) (ends : Bool) :
    (render ⟨blocks, ends⟩).count '\r' = (blocks.flatMap Block.lines).flatten.count '\r' := by
  have hjoined : ∀ lines : List (List Char),
      (['\n'].intercalate lines).count '\r' = lines.flatten.count '\r' := by
    intro lines
    induction lines with
    | nil => rfl
    | cons line lines ih =>
      cases lines with
      | nil => simp
      | cons next lines =>
        have hbreak : ['\n'].count '\r' = 0 := rfl
        rw [List.intercalate_cons_cons, List.count_append, List.count_append, ih, hbreak,
          Nat.add_zero, ← List.count_append]
        rfl
  have hends : (if ends then ['\n'] else []).count '\r' = 0 := by cases ends <;> rfl
  rw [render, List.count_append, lines, hjoined, hends, Nat.add_zero]

end Layout

/-! ## Layouts that settle -/

/-- If applying a font twice gives the same text as applying it once, no line keeps a carriage
return. -/
theorem no_return_of_applyFont_eq {layout stylesheet stylesheet' : List Char}
    (hfont : font.Usable) (h : applyFont font layout stylesheet = .ok (layout, stylesheet')) :
    Text.contains ['\r', '\n'] layout = false := by
  obtain ⟨blocks, hdressed, hwritten⟩ := exists_dressed_of_applyFont h
  have hreturns := returns_render blocks (parse layout).endsLine
  rw [← hwritten] at hreturns
  have hfewer := hfont.returns_of_dressed hdressed
  have hkept : ((fontless (parse layout).blocks).flatMap Block.lines).flatten.count '\r' ≤
      (linesOf layout).flatten.count '\r' := by
    rw [← lines_parse]
    exact ((fontless_sublist _).flatMap Block.lines).flatten.count_le '\r'
  rw [← Bool.not_eq_true]
  intro hreturn
  have hdropped := returns_linesOf_lt hreturn
  omega

/-- Above a declaration in dressed blocks calls are open as before. -/
theorem Font.Usable.exists_lines_of_dressed (h : font.Usable) (hdressed : font.dressed blocks = .ok others)
    (hopen : closesCalls ((aboveAnchor blocks).flatMap Block.lines) = false) :
    ∃ above below, closesCalls above = false ∧ others.flatMap Block.lines =
      above ++ font.factoryLines.map String.toList ++ [] :: below := by
  obtain ⟨named, hnamed, rfl, -⟩ := h.exists_of_dressed hdressed
  have halike := alike_of_restyleBody h.isConstant hnamed
  generalize hplace : (factoryAnchor? (font.imported named)).getD 0 = place
  refine ⟨((font.imported named).take place).flatMap Block.lines,
    ((font.imported named).drop place).flatMap Block.lines, ?_, ?_⟩
  · rw [← hplace, ← aboveAnchor, font.closesCalls_aboveAnchor_imported,
      closesCalls_aboveAnchor_alike halike, hopen]
  · rw [Font.declared, hplace, splice, Font.declaration]
    simp only [List.flatMap_append, List.flatMap_cons, Block.lines, List.append_assoc,
      List.cons_append, List.nil_append]

/-- The calls of a text that was written are those of its lines. -/
theorem calls_linesOf_render {ends : Bool} (hne : blocks.flatMap Block.lines ≠ [])
    (hlines : ∀ line ∈ blocks.flatMap Block.lines, '\n' ∉ line)
    (hreturn : Text.contains ['\r', '\n'] (render ⟨blocks, ends⟩) = false) :
    calls (linesOf (render ⟨blocks, ends⟩)) = calls (blocks.flatMap Block.lines) := by
  rw [linesOf_render hne hlines hreturn]
  split
  next hempty =>
    obtain ⟨init, hinit⟩ := List.getLast?_eq_some_iff.mp hempty.2
    rw [hinit, List.dropLast_concat, calls_append]
    rfl
  · rfl

/-- If applying a font twice gives the same text as applying it once, the calls above the declaration
are closed. -/
theorem calls_closed_of_applyFont_eq {layout layout' stylesheet stylesheet' : List Char}
    (hfont : font.Usable) (happlied : applyFont font layout stylesheet = .ok (layout', stylesheet'))
    (hagain : applyFont font layout' stylesheet' = .ok (layout', stylesheet')) :
    closesCalls ((aboveAnchor (fontless (parse layout).blocks)).flatMap Block.lines) = true := by
  have hreturn := no_return_of_applyFont_eq hfont hagain
  obtain ⟨blocks, hdressed, hwritten⟩ := exists_dressed_of_applyFont happlied
  obtain ⟨blocks', hdressed', hwritten'⟩ := exists_dressed_of_applyFont hagain
  rw [← Bool.not_eq_false]
  intro hopen
  -- the second time the open call is taken out together with the declaration
  have htaken : calls ((fontless (parse layout').blocks).flatMap Block.lines) + 2 ≤
      calls (linesOf layout') := by
    obtain ⟨above, below, habove, hlines⟩ := hfont.exists_lines_of_dressed hdressed hopen
    obtain ⟨line, body, close, hdeclaration, hcall⟩ := hfont.exists_isCall
    have hconfigures := Font.configuresFont_factoryLines font
    rw [hdeclaration] at hconfigures hlines
    have hread : ∃ rest, linesOf layout' = above ++ (line :: (body ++ [close])) ++ rest := by
      rw [hwritten] at hreturn ⊢
      rw [linesOf_render (hfont.lines_ne_nil hdressed)
        (hfont.unbroken_of_dressed hdressed (unbroken_fontless layout)) hreturn, hlines]
      split
      · exact ⟨_, List.dropLast_append_of_ne_nil (by simp)⟩
      · exact ⟨_, rfl⟩
    obtain ⟨rest, hrest⟩ := hread
    obtain ⟨block, hblock, hfactory, htwo⟩ :=
      exists_fontFactory_of_open rest habove hcall hconfigures
    rw [← hrest] at hblock
    have hmem : block ∈ (parse layout').blocks := hblock
    have hout := calls_fontless_add_le hmem hfactory
    have hlines := lines_parse layout'
    rw [Layout.lines] at hlines
    rw [hlines] at hout
    omega
  -- and only one call is put in
  have hput := hfont.calls_of_dressed hdressed'
  have hread : calls (linesOf layout') = calls (blocks'.flatMap Block.lines) := by
    rw [hwritten'] at hreturn
    conv_lhs => rw [hwritten']
    exact calls_linesOf_render (hfont.lines_ne_nil hdressed')
      (hfont.unbroken_of_dressed hdressed' (unbroken_fontless layout')) hreturn
  omega

/-- The last font wins exactly if the layout settles, unless the class attribute that is changed
holds a backquote. -/
theorem applyFont_applyFont_iff {name : String} {layout layout' stylesheet stylesheet' : List Char}
    (hfont : Font.ofName name = .ok font)
    (happlied : applyFont font layout stylesheet = .ok (layout', stylesheet'))
    (hbackquote : ∀ value ∈ bodyClasses? (fontless (parse layout).blocks), '\x60' ∉ value) :
    (∀ (name : String) (last : Font), Font.ofName name = .ok last →
      applyFont last layout' stylesheet' = applyFont last layout stylesheet) ↔
        Settles layout layout' := by
  have husable := Font.usable_of_ofName hfont
  constructor
  · intro hlast
    have hagain := (hlast name font hfont).trans happlied
    exact ⟨calls_closed_of_applyFont_eq husable happlied hagain,
      no_return_of_applyFont_eq husable hagain⟩
  · intro hsettles name last hname
    exact applyFont_of_settles husable (Font.usable_of_ofName hname) happlied hbackquote hsettles

/-- A layout with a font, the line that closes its declaration left open. -/
def layoutWithFont (close : String) : List Char :=
  ["import type \x7b Metadata \x7d from \"next\"", "import \x7b Geist \x7d from \"next/font/google\"",
    "import \"./globals.css\"", "", "const geist = Geist(\x7b", "  variable: \"--font-geist\",",
    "  subsets: [\"latin\"],", close, "", "export const metadata: Metadata = \x7b",
    "  title: \"Demo\",", "\x7d", "", "export default function RootLayout(\x7b children \x7d) \x7b",
    "  return (", "    <html lang=\"en\">",
    "      <body className=\x7b\x60$\x7bgeist.variable\x7d antialiased\x60\x7d>\x7bchildren\x7d</body>",
    "    </html>", "  )", "\x7d"].flatMap fun line => line.toList ++ ['\n']

/-- The stylesheet that goes with the layout. -/
def stylesheetWithFont : List Char :=
  [":root \x7b", "  --font-sans: var(--font-geist);", "\x7d"].flatMap fun line => line.toList ++ ['\n']

/-- A font to take the place of the one in the layout. -/
def interFont : Font := ⟨"Inter", "Inter", "inter", "--font-inter"⟩

/-- The layout and the stylesheet with that font. -/
def interTexts (ending : String) : List Char × List Char :=
  match applyFont interFont (layoutWithFont ending) stylesheetWithFont with
  | .ok texts => texts
  | .error _ => ([], [])

/-- It is the font of its name. -/
theorem ofName_inter : Font.ofName "Inter" = .ok interFont := by rfl

/-- That font is applied if a layout comes out. -/
theorem applyFont_inter (ending : String) (h : (interTexts ending).1 ≠ []) :
    applyFont interFont (layoutWithFont ending) stylesheetWithFont =
      .ok ((interTexts ending).1, (interTexts ending).2) := by
  unfold interTexts at h ⊢
  split at h
  next texts htexts => rw [htexts]
  · exact absurd rfl h

/-- With a semicolon at the end of the declaration a layout comes out, and nothing in either layout
hinders a second font. -/
private theorem layoutWithFont_semicolon :
    (interTexts "\x7d);").1 ≠ [] ∧
      bodyClasses? (fontless (parse (layoutWithFont "\x7d);")).blocks) =
        some "$\x7bgeist.variable\x7d antialiased".toList ∧
      closesCalls ((aboveAnchor (fontless (parse (layoutWithFont "\x7d);")).blocks)).flatMap
        Block.lines) = true ∧
      Text.contains ['\r', '\n'] (interTexts "\x7d);").1 = false := by
  decide +kernel

/-- It is applied to a layout whose font is declared with a semicolon at the end. -/
theorem applyFont_inter_semicolon :
    applyFont interFont (layoutWithFont "\x7d);") stylesheetWithFont =
      .ok ((interTexts "\x7d);").1, (interTexts "\x7d);").2) :=
  applyFont_inter "\x7d);" layoutWithFont_semicolon.1

/-- In a layout whose font is declared with a semicolon at the end, the last font wins. -/
theorem applyFont_applyFont_iff_semicolon :
    Settles (layoutWithFont "\x7d);") (interTexts "\x7d);").1 ∧
      ∀ (name : String) (last : Font), Font.ofName name = .ok last →
        applyFont last (interTexts "\x7d);").1 (interTexts "\x7d);").2 =
          applyFont last (layoutWithFont "\x7d);") stylesheetWithFont := by
  obtain ⟨-, hclasses, hclosed, hreturn⟩ := layoutWithFont_semicolon
  have hbackquote : ∀ value ∈ bodyClasses? (fontless (parse (layoutWithFont "\x7d);")).blocks),
      '\x60' ∉ value := by
    intro value hvalue
    rw [hclasses, Option.mem_some] at hvalue
    rw [← hvalue]
    decide
  have hsettles : Settles (layoutWithFont "\x7d);") (interTexts "\x7d);").1 := ⟨hclosed, hreturn⟩
  exact ⟨hsettles,
    (applyFont_applyFont_iff ofName_inter applyFont_inter_semicolon hbackquote).mpr hsettles⟩

/-- Without the semicolon the same font applied twice takes out a declaration that applying it once
has left. -/
theorem exists_applyFont_applyFont_ne :
    ¬ ∀ (name other : String) (font last : Font) (layout layout' stylesheet stylesheet' : List Char),
      Font.ofName name = .ok font → Font.ofName other = .ok last →
        applyFont font layout stylesheet = .ok (layout', stylesheet') →
          applyFont last layout' stylesheet' = applyFont last layout stylesheet := by
  intro hall
  have happlied := applyFont_inter "\x7d)" (by decide +kernel)
  have hsame := hall "Inter" "Inter" interFont interFont _ _ _ _ ofName_inter ofName_inter happlied
  have hdifferent : applyFont interFont (interTexts "\x7d)").1 (interTexts "\x7d)").2 ≠
      .ok ((interTexts "\x7d)").1, (interTexts "\x7d)").2) := by decide +kernel
  rw [happlied] at hsame
  exact hdifferent hsame

end Siteworks
