import Mathlib
import Siteworks.Proofs.Layout.Rereading
import Siteworks.Proofs.Stylesheet.Declarations
import Siteworks.Proofs.Theme.Refonting

/-!
# Changing the font of a layout again

A layout that was dressed with a font is read back as it was written, if above the place of the
declaration every call that a line begins is closed, and if no line keeps a carriage return. Then
another font leaves no trace of the first one, in the layout as in the stylesheet, unless the class
attribute that is changed holds a backquote.
-/

namespace Siteworks

open Layout

variable {font next : Font} {blocks others : List Block}

/-! ## A last line that is empty -/

namespace Layout

/-- An empty line. -/
abbrev gap : Block := .plain []

/-- An empty line may stand last without counting for the imports of fonts. -/
theorem insertAfterTypeImports_concat_gap (block : Block) (blocks : List Block) :
    insertAfterTypeImports block (blocks ++ [gap]) = insertAfterTypeImports block blocks ++ [gap] := by
  induction blocks with
  | nil => rfl
  | cons first rest ih =>
    have hany : (first :: (rest ++ [gap])).any Block.isTypeImport =
        (first :: rest).any Block.isTypeImport := by simp [Block.isTypeImport]
    rw [List.cons_append, insertAfterTypeImports, insertAfterTypeImports, hany, ih]
    split <;> rfl

/-- An empty line may stand last without counting for the place of a declaration. -/
theorem factoryAnchor?_concat_gap (blocks : List Block) :
    factoryAnchor? (blocks ++ [gap]) = factoryAnchor? blocks := by
  have hfind : ∀ p : List Char → Bool, p [] = false →
      (blocks ++ [gap]).findIdx? (Block.isPlain p) = blocks.findIdx? (Block.isPlain p) := by
    intro p hp
    have hgap : gap.isPlain p = false := hp
    rw [List.findIdx?_append, List.findIdx?_cons, hgap]
    cases blocks.findIdx? (Block.isPlain p) <;> rfl
  rw [factoryAnchor?, factoryAnchor?, hfind _ (by decide), hfind _ (by decide)]

/-- The place for a declaration stands before a block. -/
theorem lt_of_factoryAnchor? {index : Nat} (h : factoryAnchor? blocks = some index) :
    index < blocks.length := by
  unfold factoryAnchor? at h
  split at h
  next index' hmetadata =>
    cases h
    exact (List.findIdx?_eq_some_iff_getElem.mp hmetadata).1
  next => exact (List.findIdx?_eq_some_iff_getElem.mp h).1

/-- An empty line may stand last without counting for what stands above a declaration. -/
theorem aboveAnchor_concat_gap (blocks : List Block) :
    aboveAnchor (blocks ++ [gap]) = aboveAnchor blocks := by
  rw [aboveAnchor, aboveAnchor, factoryAnchor?_concat_gap]
  cases hanchor : factoryAnchor? blocks with
  | none => rfl
  | some index =>
    exact List.take_append_of_le_length (lt_of_factoryAnchor? hanchor).le

/-- An empty line may stand last without counting for the class attribute. -/
theorem bodyClasses?_concat_gap (blocks : List Block) :
    bodyClasses? (blocks ++ [gap]) = bodyClasses? blocks := by
  have hgap : gap.isPlain opensBody = false := by decide
  rw [bodyClasses?, bodyClasses?, List.dropWhile_append]
  split
  next hnil =>
    rw [List.isEmpty_iff.mp hnil, List.dropWhile_cons, hgap]
    rfl
  next =>
    rw [List.findSome?_append]
    cases List.findSome? attribute? _ <;> rfl

/-- Parsed blocks stay parsed if an empty last line is taken off. -/
theorem Parsed.of_concat_gap (h : Parsed (blocks ++ [gap])) : Parsed blocks := by
  generalize hall : blocks ++ [gap] = all at h
  induction h generalizing blocks with
  | nil => simp at hall
  | @importLine line block rest found _ ih =>
    rcases blocks with _ | ⟨first, blocks⟩
    · exact .nil
    · obtain ⟨rfl, hrest⟩ := List.cons.inj hall
      exact .importLine found (ih hrest)
  | @plain line rest found none _ ih =>
    rcases blocks with _ | ⟨first, blocks⟩
    · exact .nil
    · obtain ⟨rfl, hrest⟩ := List.cons.inj hall
      refine .plain found (factory?_of_sublist none ?_) (ih hrest)
      rw [← hrest]
      exact List.sublist_append_left _ _
  | @font line binding close body rest hcall configures _ ih =>
    rcases blocks with _ | ⟨first, blocks⟩
    · exact .nil
    · obtain ⟨rfl, hrest⟩ := List.cons.inj hall
      exact .font hcall configures (ih hrest)
  | @call line binding close body rest hcall configures _ ih =>
    -- the last line of a call is not empty, so the empty line stands behind the call
    rcases List.eq_nil_or_concat rest with rfl | ⟨rest, last, rfl⟩
    · rw [List.append_nil, ← List.cons_append, List.map_append] at hall
      have hclose := (List.append_inj' hall rfl).2
      obtain rfl : close = [] := by simpa using hclose.symm
      exact absurd hcall.closes (by decide)
    · rw [List.concat_eq_append] at hall ih
      rw [← List.append_assoc] at hall
      obtain ⟨rfl, hlast⟩ := List.append_inj' hall rfl
      exact .call hcall configures (ih (congrArg (rest ++ ·) hlast))

/-- Blocks that are alike to blocks that end with an empty line do so too. -/
theorem getLast?_alike (h : List.Forall₂ Alike blocks others) (hlast : others.getLast? = some gap) :
    blocks.getLast? = some gap := by
  obtain ⟨start, rfl⟩ := List.getLast?_eq_some_iff.mp hlast
  obtain ⟨front, back, rfl, -, hback⟩ := exists_of_forall₂_append h.flip
  cases hback with
  | cons hgap hnil =>
    cases hnil
    rw [List.getLast?_concat]
    cases hgap with
    | same => rfl
    | plain hrole => rw [hrole.empty.mp rfl]

end Layout

namespace Font

/-- An empty line may stand last when a font is imported and declared. -/
theorem declared_concat_gap (font : Font) (blocks : List Block) :
    font.declared (blocks ++ [gap]) = font.declared blocks ++ [gap] := by
  have himported : font.imported (blocks ++ [gap]) = font.imported blocks ++ [gap] :=
    insertAfterTypeImports_concat_gap _ _
  have hplace : (factoryAnchor? (font.imported blocks)).getD 0 ≤ (font.imported blocks).length := by
    cases hanchor : factoryAnchor? (font.imported blocks) with
    | none => exact Nat.zero_le _
    | some index => exact (lt_of_factoryAnchor? hanchor).le
  rw [declared, declared, himported, factoryAnchor?_concat_gap, splice, splice,
    List.take_append_of_le_length hplace, List.drop_append_of_le_length hplace]
  simp only [List.append_assoc]

/-- An empty line may stand last when blocks are dressed. -/
theorem Usable.dressed_concat_gap (h : font.Usable) (blocks : List Block) :
    font.dressed (blocks ++ [gap]) = (font.dressed blocks).map (· ++ [gap]) := by
  have hneutral : Neutral [gap] := ⟨by simp [attribute?, Block.line?, classAttribute?], by decide⟩
  have himported : font.imported (blocks ++ [gap]) = font.imported blocks ++ [gap] :=
    insertAfterTypeImports_concat_gap _ _
  have hsplice : ∀ part : List Block, part ++ [gap] = splice part.length [gap] part := by
    intro part
    rw [splice, List.take_length, List.drop_length, List.append_nil]
  rw [dressed, dressed, himported, factoryAnchor?_concat_gap, declared_concat_gap]
  cases factoryAnchor? (font.imported blocks) with
  | none => rfl
  | some index =>
    simp only
    rw [hsplice (font.declared blocks), restyleBody_splice hneutral]
    cases hnamed : restyleBody font.binding.toList (font.declared blocks) with
    | error e => rfl
    | ok named =>
      have hlength := (alike_of_restyleBody h.isConstant hnamed).length_eq
      simp only [Except.map]
      rw [hlength, ← hsplice]

/-- Dressed blocks end with an empty line only if the blocks do. -/
theorem Usable.getLast?_of_dressed (h : font.Usable) (hdressed : font.dressed blocks = .ok others)
    (hlast : blocks.getLast? ≠ some gap) : others.getLast? ≠ some gap := by
  obtain ⟨named, hnamed, rfl, hanchor⟩ := h.exists_of_dressed hdressed
  have halike := alike_of_restyleBody h.isConstant hnamed
  have hnamedLast : named.getLast? ≠ some gap := fun hgap => hlast (getLast?_alike halike hgap)
  have himported : (font.imported named).getLast? ≠ some gap := by
    obtain ⟨before, after, rfl, hinsert⟩ :=
      exists_insertAfterTypeImports (.fontImport font.importLine.toList) named
    rw [imported, hinsert]
    cases after with
    | nil => simp
    | cons block after =>
      rw [List.getLast?_append_cons, List.getLast?_cons_cons, ← List.getLast?_append_cons]
      exact hnamedLast
  rw [← factoryAnchor?_alike (font.alike_imported halike)] at hanchor
  obtain ⟨index, hindex⟩ := Option.isSome_iff_exists.mp hanchor
  have hbehind : (font.imported named).drop index ≠ [] := by
    simpa using lt_of_factoryAnchor? hindex
  rw [declared, hindex, Option.getD_some, splice, List.getLast?_append_of_ne_nil _ hbehind]
  rw [← List.take_append_drop index (font.imported named),
    List.getLast?_append_of_ne_nil _ hbehind] at himported
  exact himported

/-! ## Reading a dressed layout -/

/-- The text of a layout whose blocks are dressed with a font. -/
def dressedText (font : Font) (layout : Layout) : Except GenerationError (List Char) :=
  (font.dressed layout.blocks).map fun blocks => render ⟨blocks, layout.endsLine⟩

/-- A text is that of dressed blocks. -/
theorem dressedText_eq_ok_iff {layout : Layout} {text : List Char} :
    font.dressedText layout = .ok text ↔
      ∃ blocks, font.dressed layout.blocks = .ok blocks ∧ text = render ⟨blocks, layout.endsLine⟩ := by
  rw [dressedText]
  cases font.dressed layout.blocks with
  | error e => simp [Except.map]
  | ok blocks => simp [Except.map, eq_comm]

/-- Applying a font changes two texts. -/
theorem applyFont_eq_dressedText (font : Font) (layout stylesheet : List Char) :
    applyFont font layout stylesheet =
      match font.dressedText ⟨fontless (parse layout).blocks, (parse layout).endsLine⟩ with
      | .error e => .error e
      | .ok layout =>
        match Stylesheet.applyFontVariable font.cssVariable.toList stylesheet with
        | .error e => .error e
        | .ok stylesheet => .ok (layout, stylesheet) := by
  rw [applyFont_eq, dressedText]
  cases font.dressed (fontless (parse layout).blocks) with
  | error e => rfl
  | ok blocks => cases Stylesheet.applyFontVariable font.cssVariable.toList stylesheet <;> rfl

/-- Dressed blocks have lines. -/
theorem Usable.lines_ne_nil (h : font.Usable) (hdressed : font.dressed blocks = .ok others) :
    others.flatMap Block.lines ≠ [] := by
  obtain ⟨named, -, rfl, -⟩ := h.exists_of_dressed hdressed
  have hmem : Block.fontFactory font.binding.toList (font.factoryLines.map String.toList) ∈
      font.declared named := by
    rw [(font.declared_perm named).mem_iff, declaration]
    simp
  exact List.ne_nil_of_mem (List.mem_flatMap.mpr ⟨_, hmem, List.mem_map_of_mem (.head _)⟩)

end Font

namespace Layout

/-- A layout without fonts that a text holds, up to an empty last line that is read as the end of the
line before. -/
structure Bare (layout : Layout) : Prop where
  /-- The blocks are parsed. -/
  parsed : Parsed layout.blocks
  /-- There are no fonts. -/
  fontless : Fontless layout.blocks
  /-- The lines are not broken. -/
  unbroken : ∀ line ∈ layout.blocks.flatMap Block.lines, '\n' ∉ line
  /-- A last line that is empty is ended. -/
  ended : layout.endsLine = true ∨ layout.blocks.getLast? ≠ some gap

/-- The lines that are left of a text are not broken. -/
theorem unbroken_fontless (text : List Char) :
    ∀ line ∈ (fontless (parse text).blocks).flatMap Block.lines, '\n' ∉ line := by
  intro line hline
  obtain ⟨block, hblock, hin⟩ := List.mem_flatMap.mp hline
  have hread : line ∈ linesOf text := by
    rw [← lines_parse]
    exact List.mem_flatMap.mpr ⟨block, (fontless_sublist _).subset hblock, hin⟩
  exact newline_not_mem_of_mem_linesOf hread

/-- Taking the fonts out of a text leaves a layout without fonts, which every font dresses alike. -/
theorem exists_bare (text : List Char) : ∃ layout : Layout, Bare layout ∧
    closesCalls ((aboveAnchor layout.blocks).flatMap Block.lines) =
      closesCalls ((aboveAnchor (fontless (parse text).blocks)).flatMap Block.lines) ∧
    bodyClasses? layout.blocks = bodyClasses? (fontless (parse text).blocks) ∧
    ∀ font : Font, font.Usable →
      font.dressedText ⟨fontless (parse text).blocks, (parse text).endsLine⟩ =
        font.dressedText layout := by
  have hparsed : Parsed (fontless (parse text).blocks) := (parsed_blocksFrom 0 _).fontless
  have hfontless := fontless_fontless (parse text).blocks
  have hunbroken := unbroken_fontless text
  generalize fontless (parse text).blocks = blocks at hparsed hfontless hunbroken ⊢
  generalize (parse text).endsLine = ends
  by_cases hended : ends = true ∨ blocks.getLast? ≠ some gap
  · exact ⟨⟨blocks, ends⟩, ⟨hparsed, hfontless, hunbroken, hended⟩, rfl, rfl, fun _ _ => rfl⟩
  · rw [not_or, Bool.not_eq_true, not_not] at hended
    obtain ⟨rfl, hlast⟩ := hended
    obtain ⟨start, rfl⟩ := List.getLast?_eq_some_iff.mp hlast
    refine ⟨⟨start, true⟩, ⟨hparsed.of_concat_gap, ?_, ?_, Or.inl rfl⟩, ?_, ?_, ?_⟩
    · exact fun block hblock => hfontless block (List.mem_append_left _ hblock)
    · intro line hline
      refine hunbroken line ?_
      rw [List.flatMap_append]
      exact List.mem_append_left _ hline
    · rw [aboveAnchor_concat_gap]
    · rw [bodyClasses?_concat_gap]
    · intro font hfont
      rw [Font.dressedText, Font.dressedText, hfont.dressed_concat_gap]
      cases hdressed : font.dressed start with
      | error e => rfl
      | ok others =>
        have hlines := hfont.lines_ne_nil hdressed
        simp only [Except.map, render, lines, List.flatMap_append, List.flatMap_singleton,
          Block.lines, intercalate_concat_nil hlines]
        simp

end Layout

namespace Font

/-- The lines of dressed blocks are not broken. -/
theorem Usable.unbroken_of_dressed (h : font.Usable) (hdressed : font.dressed blocks = .ok others)
    (hblocks : ∀ line ∈ blocks.flatMap Block.lines, '\n' ∉ line) :
    ∀ line ∈ others.flatMap Block.lines, '\n' ∉ line := by
  obtain ⟨named, hnamed, rfl, -⟩ := h.exists_of_dressed hdressed
  have hkept : ∀ lines others : List (List Char), List.Forall₂ SameRole lines others →
      (∀ line ∈ lines, '\n' ∉ line) → ∀ line ∈ others, '\n' ∉ line := by
    intro lines others hroles hlines
    induction hroles with
    | nil => exact hlines
    | cons hrole _ ih =>
      obtain ⟨hfirst, hrest⟩ := List.forall_mem_cons.mp hlines
      refine List.forall_mem_cons.mpr ⟨fun hmem => ?_, ih hrest⟩
      have hcount := hrole.breaks '\n' (Or.inl rfl)
      rw [List.count_eq_zero.mpr hfirst, Nat.le_zero, List.count_eq_zero] at hcount
      exact hcount hmem
  have hfont := List.forall_mem_cons.mp h.unbroken
  intro line hline
  obtain ⟨block, hblock, hin⟩ := List.mem_flatMap.mp hline
  rw [(font.declared_perm named).mem_iff, List.mem_cons, List.mem_append, declaration,
    List.mem_cons, List.mem_singleton] at hblock
  rcases hblock with rfl | (rfl | rfl) | hblock
  · obtain rfl := List.mem_singleton.mp hin
    exact fun hmem => (hfont.1 _ hmem).1 rfl
  · exact fun hmem => (hfont.2 line hin _ hmem).1 rfl
  · obtain rfl := List.mem_singleton.mp hin
    simp
  · exact hkept _ _ (forall₂_sameRole (alike_of_restyleBody h.isConstant hnamed)) hblocks line
      (List.mem_flatMap.mpr ⟨block, hblock, hin⟩)

/-- A dressed layout is read back if the calls above the declaration are closed and no carriage
return stands before a line feed. -/
theorem Usable.parse_dressed {layout : Layout} (h : font.Usable) (hbare : Bare layout)
    (hclosed : closesCalls ((aboveAnchor layout.blocks).flatMap Block.lines) = true)
    (hdressed : font.dressed layout.blocks = .ok others)
    (hreturn : Text.contains ['\r', '\n'] (render ⟨others, layout.endsLine⟩) = false) :
    parse (render ⟨others, layout.endsLine⟩) = ⟨others, layout.endsLine⟩ := by
  have hparsed : Parsed others := by
    obtain ⟨named, hnamed, rfl, -⟩ := h.exists_of_dressed hdressed
    have halike := alike_of_restyleBody h.isConstant hnamed
    exact h.parsed_declared (hbare.parsed.alike halike)
      ((closesCalls_aboveAnchor_alike halike).trans hclosed)
  have hne : others ≠ [] := by
    rintro rfl
    exact h.lines_ne_nil hdressed rfl
  exact parse_render hparsed hne (h.unbroken_of_dressed hdressed hbare.unbroken) hreturn
    (hbare.ended.imp_right (h.getLast?_of_dressed hdressed))

end Font

/-! ## One font after another -/

/-- What a layout and its new text need so that the font can be changed again. -/
structure Settles (layout layout' : List Char) : Prop where
  /-- Without the old fonts, every call is closed that begins above the place of the declaration. -/
  calls_closed :
    closesCalls ((aboveAnchor (fontless (parse layout).blocks)).flatMap Block.lines) = true
  /-- No line of the new text keeps a carriage return. -/
  no_return : Text.contains ['\r', '\n'] layout' = false

/-- Applying a font succeeds if its blocks can be dressed and the variable can be set. -/
theorem applyFont_eq_ok {layout layout' stylesheet stylesheet' : List Char}
    (h : applyFont font layout stylesheet = .ok (layout', stylesheet')) :
    font.dressedText ⟨fontless (parse layout).blocks, (parse layout).endsLine⟩ = .ok layout' ∧
      Stylesheet.applyFontVariable font.cssVariable.toList stylesheet = .ok stylesheet' := by
  rw [Font.applyFont_eq_dressedText] at h
  split at h
  · cases h
  next text htext =>
    split at h
    · cases h
    next changed hvariable =>
      cases h
      exact ⟨htext, hvariable⟩

/-- Applying a font writes dressed blocks. -/
theorem exists_dressed_of_applyFont {layout layout' stylesheet stylesheet' : List Char}
    (h : applyFont font layout stylesheet = .ok (layout', stylesheet')) :
    ∃ blocks, font.dressed (fontless (parse layout).blocks) = .ok blocks ∧
      layout' = render ⟨blocks, (parse layout).endsLine⟩ :=
  Font.dressedText_eq_ok_iff.mp (applyFont_eq_ok h).1

/-- The last font wins in a layout that settles. -/
theorem applyFont_of_settles {layout layout' stylesheet stylesheet' : List Char}
    (hfont : font.Usable) (hnext : next.Usable)
    (happlied : applyFont font layout stylesheet = .ok (layout', stylesheet'))
    (hbackquote : ∀ value ∈ bodyClasses? (fontless (parse layout).blocks), '\x60' ∉ value)
    (hsettles : Settles layout layout') :
    applyFont next layout' stylesheet' = applyFont next layout stylesheet := by
  obtain ⟨hclosed, hreturn⟩ := hsettles
  obtain ⟨bare, hbare, habove, hclasses, htext⟩ := exists_bare layout
  rw [← habove] at hclosed
  rw [← hclasses] at hbackquote
  obtain ⟨hlayout, hstylesheet⟩ := applyFont_eq_ok happlied
  rw [htext font hfont] at hlayout
  obtain ⟨blocks, hdressed, rfl⟩ := Font.dressedText_eq_ok_iff.mp hlayout
  have hparse := hfont.parse_dressed hbare hclosed hdressed hreturn
  have hsecond := hfont.dressed_fontless_dressed hnext hbare.fontless hbackquote hdressed
  have hvariable := Stylesheet.applyFontVariable_applyFontVariable hfont.semicolon_not_mem
    hstylesheet next.cssVariable.toList
  rw [Font.applyFont_eq_dressedText, Font.applyFont_eq_dressedText, htext next hnext, hparse,
    Font.dressedText, Font.dressedText, hsecond, hvariable]

end Siteworks
