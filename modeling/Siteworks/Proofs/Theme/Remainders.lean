import Mathlib
import Siteworks.Proofs.Layout.Places
import Siteworks.Proofs.Theme.LastFont
import Siteworks.Proofs.Theme.CarriedTexts

/-!
# What is left of a layout when its font is changed

The lines of the new layout are those of the old one without its fonts, one of them with another class
attribute, and the lines of the new font. Nothing else is lost, doubled or moved. A text shows its last
line only if this is ended or not empty, so the lines are read back from the new text, and it is ended
as the old one was, exactly if the old one was ended or an empty line is not the last one that is left.
-/

namespace Siteworks

open Layout

variable {font : Font} {binding layout layout' stylesheet stylesheet' : List Char}
  {block other : Block} {blocks others imports new : List Block} {lines : List (List Char)}

namespace Layout

/-! ## The lines that are left -/

/-- The lines that are left of some blocks without fonts: those of the other blocks, in order, but for
one blank line that may go with a declaration in front of it. -/
inductive Leaves : List Block → List (List Char) → Prop
  /-- Of no blocks nothing is left. -/
  | nil : Leaves [] []
  /-- A block stays if it neither imports nor declares a font. -/
  | keep {block rest lines} : block.isFontImport = false → block.isFontFactory = false →
    Leaves rest lines → Leaves (block :: rest) (block.lines ++ lines)
  /-- An import of fonts goes. -/
  | fontImport {line rest lines} : Leaves rest lines → Leaves (.fontImport line :: rest) lines
  /-- The declaration of a font goes. -/
  | factory {name body rest lines} : Leaves rest lines → Leaves (.fontFactory name body :: rest) lines
  /-- With a declaration a blank line goes that follows it, or follows imports of fonts behind it. -/
  | factoryBlank {name body imports line rest lines} :
    (∀ block ∈ imports, block.isFontImport = true) → Text.allBlank line = true → Leaves rest lines →
      Leaves (.fontFactory name body :: (imports ++ .plain line :: rest)) lines

/-- Imports of fonts go. -/
theorem Leaves.imports_append (himports : ∀ block ∈ imports, block.isFontImport = true)
    (h : Leaves blocks lines) : Leaves (imports ++ blocks) lines := by
  induction imports with
  | nil => exact h
  | cons block imports ih =>
    obtain ⟨hblock, hrest⟩ := List.forall_mem_cons.mp himports
    cases block with
    | fontImport line => exact .fontImport (ih hrest)
    | typeImport line => cases hblock
    | fontFactory name body => cases hblock
    | plain line => cases hblock

/-- Taking out the fonts leaves these lines, behind a declaration as elsewhere. -/
theorem leaves_withoutFactories (blocks : List Block) :
    Leaves blocks ((withoutFactories false
      (blocks.filter fun block => !block.isFontImport)).flatMap Block.lines) ∧
    ∀ name body imports, (∀ block ∈ imports, block.isFontImport = true) →
      Leaves (.fontFactory name body :: (imports ++ blocks)) ((withoutFactories true
        (blocks.filter fun block => !block.isFontImport)).flatMap Block.lines) := by
  induction blocks with
  | nil => exact ⟨.nil, fun name body imports himports => .factory (.imports_append himports .nil)⟩
  | cons block rest ih =>
    obtain ⟨hbelow, hbehind⟩ := ih
    cases block with
    | typeImport line =>
      have hkeep : Leaves (.typeImport line :: rest) _ := .keep rfl rfl hbelow
      exact ⟨hkeep, fun name body imports himports => .factory (.imports_append himports hkeep)⟩
    | fontImport line =>
      refine ⟨.fontImport hbelow, fun name body imports himports => ?_⟩
      have hmore := hbehind name body (imports ++ [.fontImport line])
        (List.forall_mem_append.mpr ⟨himports, List.forall_mem_singleton.mpr rfl⟩)
      rwa [List.append_assoc] at hmore
    | fontFactory name body =>
      have hfirst := hbehind name body [] nofun
      exact ⟨hfirst, fun name body imports himports => .factory (.imports_append himports hfirst)⟩
    | plain line =>
      have hkeep : Leaves (.plain line :: rest) _ := .keep rfl rfl hbelow
      refine ⟨hkeep, fun name body imports himports => ?_⟩
      cases hblank : Text.allBlank line with
      | true =>
        rw [List.filter_cons_of_pos rfl, withoutFactories]
        simpa [Block.isFontFactory, Block.isPlain, hblank] using
          Leaves.factoryBlank himports hblank hbelow
      | false =>
        rw [List.filter_cons_of_pos rfl, withoutFactories]
        simpa [Block.isFontFactory, Block.isPlain, hblank] using
          Leaves.factory (.imports_append himports hkeep)

/-- The lines that are left are those of the blocks without fonts. -/
theorem leaves_fontless (blocks : List Block) :
    Leaves blocks ((fontless blocks).flatMap Block.lines) :=
  (leaves_withoutFactories blocks).1

/-! ## The lines that are put in -/

/-- Lines are put in between others. -/
def PutIn (new lines lines' : List (List Char)) : Prop :=
  ∃ above below, lines = above ++ below ∧ lines' = above ++ new ++ below

/-- One line is changed, and only in its class attribute, so that this names a font. -/
def NamedIn (binding : List Char) (lines lines' : List (List Char)) : Prop :=
  ∃ above below before quoted value follow, Quotes quoted value ∧
    lines = above ++ (before ++ ("className=".toList ++ quoted) ++ follow) :: below ∧
    lines' = above ++ (before ++ classAttribute (rootClasses binding value) ++ follow) :: below

/-- The lines of blocks that are put in are put in between those of the others. -/
theorem putIn_splice (place : Nat) (new blocks : List Block) :
    PutIn (new.flatMap Block.lines) (blocks.flatMap Block.lines)
      ((splice place new blocks).flatMap Block.lines) := by
  refine ⟨(blocks.take place).flatMap Block.lines, (blocks.drop place).flatMap Block.lines, ?_, ?_⟩
  · rw [← List.flatMap_append, List.take_append_drop]
  · rw [splice, List.flatMap_append, List.flatMap_append]

/-- Naming a font in the body element changes one line. -/
theorem namedIn_of_restyleBody (h : restyleBody binding blocks = .ok others) :
    NamedIn binding (blocks.flatMap Block.lines) (others.flatMap Block.lines) := by
  rcases restyleBody_cases blocks with ⟨fault, hfault⟩ | ⟨place, hplace, rfl⟩
  · rw [hfault] at h
    cases h
  · rw [hplace.restyleBody_eq] at h
    cases h
    obtain ⟨⟨quoted, hquoted, hline⟩, -⟩ := classAttribute?_eq_some_iff.mp hplace.found
    refine ⟨(place.top ++ place.between).flatMap Block.lines, place.below.flatMap Block.lines,
      place.before, quoted, place.value, place.follow, hquoted, ?_, ?_⟩
    · simp [ClassPlace.blocks, ClassPlace.fromBody, Block.lines, hline]
    · simp [ClassPlace.named, ClassPlace.newLine, Block.lines]

/-- The lines are those that are left of a layout without its fonts, with another font named in one of
them, and the import and the declaration of that font and an empty line put in. -/
def Refonted (font : Font) (layout : List Char) (lines : List (List Char)) : Prop :=
  ∃ left named imported, Leaves (parse layout).blocks left ∧
    NamedIn font.binding.toList left named ∧ PutIn [font.importLine.toList] named imported ∧
      PutIn (font.factoryLines.map String.toList ++ [[]]) imported lines

end Layout

/-- The lines of the dressed blocks are those of the layout with its font changed. -/
theorem Font.Usable.refonted_of_dressed (h : font.Usable)
    (hdressed : font.dressed (fontless (parse layout).blocks) = .ok blocks) :
    Refonted font layout (blocks.flatMap Block.lines) := by
  obtain ⟨named, hnamed, rfl, -⟩ := h.exists_of_dressed hdressed
  refine ⟨_, named.flatMap Block.lines, (font.imported named).flatMap Block.lines,
    leaves_fontless _, namedIn_of_restyleBody hnamed, ?_, ?_⟩
  · rw [Font.imported, insertAfterTypeImports_eq]
    exact putIn_splice _ [.fontImport font.importLine.toList] named
  · exact putIn_splice _ font.declaration (font.imported named)

/-! ## The last line -/

namespace Layout

/-- A block has lines, and the last one is empty only if it is the whole block. -/
def Filled (block : Block) : Prop :=
  block.lines ≠ [] ∧ (block.lines.getLast? = some [] → block = gap)

/-- Blocks that are alike are filled both. -/
theorem Filled.alike (h : Filled block) (halike : Alike block other) : Filled other := by
  cases halike with
  | same => exact h
  | plain hrole => exact ⟨by simp [Block.lines], fun hlast => by simpa [Block.lines] using hlast⟩

/-- The last line of filled blocks is empty if the last block is an empty line. -/
theorem getLast?_lines_iff (h : ∀ block ∈ blocks, Filled block) :
    (blocks.flatMap Block.lines).getLast? = some [] ↔ blocks.getLast? = some gap := by
  rcases List.eq_nil_or_concat blocks with rfl | ⟨init, last, rfl⟩
  · simp
  · obtain ⟨hlines, hempty⟩ := h last (by simp)
    rw [List.concat_eq_append, List.flatMap_append, List.flatMap_singleton,
      List.getLast?_append_of_ne_nil _ hlines, List.getLast?_concat, Option.some.injEq]
    exact ⟨hempty, fun hgap => by rw [hgap]; rfl⟩

end Layout

/-- The blocks that a font puts in are filled. -/
theorem Font.Usable.filled_of_dressed (h : font.Usable) (hblocks : ∀ block ∈ blocks, Filled block)
    (hdressed : font.dressed blocks = .ok others) : ∀ block ∈ others, Filled block := by
  obtain ⟨named, hnamed, rfl, -⟩ := h.exists_of_dressed hdressed
  have hkept : ∀ block ∈ named, Filled block := by
    have halike := alike_of_restyleBody h.isConstant hnamed
    clear hnamed hdressed
    induction halike with
    | nil => exact hblocks
    | cons hblock _ ih =>
      obtain ⟨hfirst, hrest⟩ := List.forall_mem_cons.mp hblocks
      exact List.forall_mem_cons.mpr ⟨hfirst.alike hblock, ih hrest⟩
  intro block hblock
  rw [(font.declared_perm named).mem_iff, declaration] at hblock
  simp only [List.mem_cons, List.mem_append, List.not_mem_nil, or_false] at hblock
  rcases hblock with rfl | (rfl | rfl) | hblock
  · refine ⟨by simp [Block.lines], fun hlast => ?_⟩
    simp [Block.lines, toList_importLine] at hlast
  · exact ⟨by simp [Block.lines, factoryLines], fun hlast => by simp [Block.lines, factoryLines] at hlast⟩
  · exact ⟨by simp [Block.lines], fun _ => rfl⟩
  · exact hkept block hblock

/-- The last line of dressed blocks is empty if that of the blocks is. -/
theorem Font.Usable.getLast?_lines_of_dressed (h : font.Usable) (hparsed : Parsed blocks)
    (hdressed : font.dressed blocks = .ok others) :
    (others.flatMap Block.lines).getLast? = some [] ↔
      (blocks.flatMap Block.lines).getLast? = some [] := by
  have hfilled : ∀ block ∈ blocks, Filled block := fun block hblock => hparsed.lines_of_mem hblock
  rw [getLast?_lines_iff hfilled, getLast?_lines_iff (h.filled_of_dressed hfilled hdressed)]
  refine ⟨fun hlast => by_contra fun hgap => h.getLast?_of_dressed hdressed hgap hlast, fun hlast => ?_⟩
  obtain ⟨start, rfl⟩ := List.getLast?_eq_some_iff.mp hlast
  rw [h.dressed_concat_gap] at hdressed
  cases hstart : font.dressed start with
  | error e => rw [hstart] at hdressed; cases hdressed
  | ok blocks =>
    rw [hstart] at hdressed
    cases hdressed
    exact List.getLast?_concat

/-- Applying a font puts no carriage return into a layout. -/
theorem return_not_mem_of_applyFont (hfont : font.Usable) (hreturn : '\r' ∉ layout)
    (happlied : applyFont font layout stylesheet = .ok (layout', stylesheet')) : '\r' ∉ layout' := by
  obtain ⟨blocks, hdressed, rfl⟩ := exists_dressed_of_applyFont happlied
  have hkept := ((fontless_sublist (parse layout).blocks).flatMap Block.lines).flatten.count_le '\r'
  have hread := (linesOfPieces_flatten_sublist (layout.splitOn '\n')).count_le '\r'
  have hlines : (parse layout).blocks.flatMap Block.lines = linesOf layout := lines_parse layout
  rw [List.intercalate_splitOn, List.count_eq_zero.mpr hreturn, ← linesOf, ← hlines] at hread
  rw [← List.count_eq_zero, returns_render]
  have hput := hfont.returns_of_dressed hdressed
  omega

/-- A layout with a new font is made of the lines that are left of the old one and those of the font,
and a line feed behind them if the old one ended with one. These are the lines that are read from it,
and it ends with a line feed as the old one did, exactly if that did or the last line that is left is
not empty. -/
theorem applyFont_refonted {name : String} (hfont : Font.ofName name = .ok font)
    (hreturn : '\r' ∉ layout)
    (happlied : applyFont font layout stylesheet = .ok (layout', stylesheet')) :
    (∃ lines, Refonted font layout lines ∧ layout' =
      ['\n'].intercalate lines ++ if layout.getLast? = some '\n' then ['\n'] else []) ∧
    ((Refonted font layout (linesOf layout') ∧
        (layout'.getLast? = some '\n' ↔ layout.getLast? = some '\n')) ↔
      (layout.getLast? = some '\n' ∨
        ((fontless (parse layout).blocks).flatMap Block.lines).getLast? ≠ some [])) := by
  have husable := Font.usable_of_ofName hfont
  have hreturn' := return_not_mem_of_applyFont husable hreturn happlied
  obtain ⟨blocks, hdressed, hwritten⟩ := exists_dressed_of_applyFont happlied
  have hrefonted := husable.refonted_of_dressed hdressed
  have hne := husable.lines_ne_nil hdressed
  have hlines := husable.unbroken_of_dressed hdressed (unbroken_fontless layout)
  have hlast := husable.getLast?_lines_of_dressed (parsed_blocksFrom 0 _).fontless hdressed
  have htext : layout' = ['\n'].intercalate (blocks.flatMap Block.lines) ++
      if layout.getLast? = some '\n' then ['\n'] else [] := by
    rw [hwritten, render, lines, parse]
    simp only [decide_eq_true_eq]
  refine ⟨⟨_, hrefonted, htext⟩, ?_, fun hended => ?_⟩
  · rintro ⟨-, hsame⟩
    by_contra hnot
    rw [not_or, not_not] at hnot
    -- the line feed in front of the empty line ends the text
    obtain ⟨init, hinit⟩ := List.getLast?_eq_some_iff.mp (hlast.mpr hnot.2)
    have hfull : init ≠ [] := by
      rintro rfl
      have hmem := husable.importLine_mem_linesOf_applyFont happlied
      rw [htext, hinit, if_neg hnot.1] at hmem
      cases hmem
    rw [hinit, intercalate_concat_nil hfull, if_neg hnot.1, List.append_nil] at htext
    exact hnot.1 (hsame.mp (by rw [htext, List.getLast?_concat]))
  · have hended : (parse layout).endsLine = true ∨
        (blocks.flatMap Block.lines).getLast? ≠ some [] := by
      rw [Ne, hlast]
      exact hended.imp_left fun h => decide_eq_true h
    have hnone : Text.contains ['\r', '\n'] layout' = false :=
      Text.contains_eq_false List.mem_cons_self hreturn'
    have hends := getLast?_render hne hlines hended
    rw [← hwritten] at hends
    refine ⟨?_, ?_⟩
    · rw [hwritten] at hnone ⊢
      rw [linesOf_render hne hlines hnone, if_neg fun hnil => ?_]
      · exact hrefonted
      · exact hended.elim (by simp [hnil.1]) fun h => h hnil.2
    · rw [← decide_eq_decide]
      exact hends

/-- In a layout whose last line is ended, nothing but the font changes. -/
theorem applyFont_refonted_semicolon :
    '\r' ∉ layoutWithFont "\x7d);" ∧
      Refonted interFont (layoutWithFont "\x7d);") (linesOf (interTexts "\x7d);").1) ∧
        ((interTexts "\x7d);").1.getLast? = some '\n' ↔
          (layoutWithFont "\x7d);").getLast? = some '\n') := by
  have hreturn : '\r' ∉ layoutWithFont "\x7d);" := by decide +kernel
  exact ⟨hreturn, (applyFont_refonted ofName_inter hreturn applyFont_inter_semicolon).2.mpr
    (Or.inl (by decide +kernel))⟩

/-- A layout that ends with the declaration of a font, and no line feed behind it. -/
def layoutUpToFont : List Char :=
  ['\n'].intercalate (["export default function RootLayout() \x7b",
    "  return <body className=\"antialiased\" />;", "\x7d", "", "const geist = Geist(\x7b",
    "  variable: \"--font-geist\",", "  subsets: [\"latin\"],", "\x7d);"].map String.toList)

/-- An empty line in front of such a declaration ends the new layout, although nothing ended the old
one. -/
theorem exists_applyFont_not_refonted :
    ¬ ∀ (name : String) (font : Font) (layout layout' stylesheet stylesheet' : List Char),
      Font.ofName name = .ok font → '\r' ∉ layout →
        applyFont font layout stylesheet = .ok (layout', stylesheet') →
          Refonted font layout (linesOf layout') ∧
            (layout'.getLast? = some '\n' ↔ layout.getLast? = some '\n') := by
  intro hall
  obtain ⟨layout', stylesheet', happlied, hended⟩ := exists_applyFont_of_any interFont layoutUpToFont
    stylesheetWithFont (fun text => text.getLast? = some '\n') (by decide +kernel)
  have hsame := (hall "Inter" interFont _ _ _ _ ofName_inter (by decide +kernel) happlied).2
  have hopen : layoutUpToFont.getLast? ≠ some '\n' := by decide +kernel
  exact hopen (hsame.mp (of_decide_eq_true hended))

end Siteworks
