import Mathlib
import Siteworks.Proofs.Theme.FontLines
import Siteworks.Theme

/-!
# One font after another

Blocks without fonts are dressed with a font in three steps: it is imported, declared, and named in
the body element. Each step has its own place, which the other two do not move. So taking the fonts
out of dressed blocks leaves the old ones with one class attribute changed, and dressing them with
another font has the effect of dressing the old ones with it.
-/

namespace Siteworks

open Layout

variable {font : Font} {binding : List Char} {block : Block} {blocks others : List Block}

namespace Layout

/-- How many blocks stand before an import of fonts that is put in. -/
def importPlace : List Block → Nat
  | [] => 0
  | first :: rest => if (first :: rest).any Block.isTypeImport then importPlace rest + 1 else 0

/-- An import of fonts is put in at its place. -/
theorem insertAfterTypeImports_eq (block : Block) (blocks : List Block) :
    insertAfterTypeImports block blocks = splice (importPlace blocks) [block] blocks := by
  induction blocks with
  | nil => rfl
  | cons first rest ih =>
    rw [insertAfterTypeImports, importPlace]
    split
    · rw [ih]
      rfl
    · rfl

/-- The place of an import depends on the roles of the lines. -/
theorem importPlace_alike (h : List.Forall₂ Alike blocks others) :
    importPlace others = importPlace blocks := by
  have hany : ∀ {blocks others : List Block}, List.Forall₂ Alike blocks others →
      others.any Block.isTypeImport = blocks.any Block.isTypeImport := by
    intro blocks others h
    induction h with
    | nil => rfl
    | cons hblock _ ih => rw [List.any_cons, List.any_cons, hblock.isTypeImport_eq, ih]
  induction h with
  | nil => rfl
  | cons hblock hrest ih => rw [importPlace, importPlace, hany (.cons hblock hrest), ih]

/-- Blocks that are alike stay so if the same blocks are put in at the same place. -/
theorem alike_splice (h : List.Forall₂ Alike blocks others) (place : Nat) (new : List Block) :
    List.Forall₂ Alike (splice place new blocks) (splice place new others) :=
  List.rel_append (List.rel_append (List.forall₂_take place h) (forall₂_alike_refl new))
    (List.forall₂_drop place h)

/-- The blocks above the place for the declaration of a font. -/
def aboveAnchor (blocks : List Block) : List Block :=
  blocks.take ((factoryAnchor? blocks).getD 0)

/-- A line that neither begins nor ends a call does not matter for whether calls are closed. -/
theorem closesCalls_insert {line : List Char} (hbinds : factoryBinding? line = none)
    (hcloses : closesCall line = false) (before after : List (List Char)) :
    closesCalls (before ++ line :: after) = closesCalls (before ++ after) := by
  induction before with
  | nil => simp [closesCalls, hbinds]
  | cons other before ih => simp [closesCalls, ih, hcloses]

/-- What stands above the first block with a property stays, up to a block without it that is put
in. -/
theorem findIdx?_insert {p : Block → Bool} (hp : p block = false) (before after : List Block) :
    ((before ++ block :: after).findIdx? p = none ∧ (before ++ after).findIdx? p = none) ∨
      ∃ i j, (before ++ block :: after).findIdx? p = some i ∧ (before ++ after).findIdx? p = some j ∧
        ((before ++ block :: after).take i = (before ++ after).take j ∨
          ∃ rest, (before ++ block :: after).take i = before ++ block :: rest ∧
            (before ++ after).take j = before ++ rest) := by
  rw [List.findIdx?_append, List.findIdx?_append, List.findIdx?_cons, hp]
  cases hbefore : before.findIdx? p with
  | some i =>
    obtain ⟨hlt, -⟩ := List.findIdx?_eq_some_iff_getElem.mp hbefore
    refine Or.inr ⟨i, i, rfl, rfl, Or.inl ?_⟩
    rw [List.take_append_of_le_length hlt.le, List.take_append_of_le_length hlt.le]
  | none =>
    cases hafter : after.findIdx? p with
    | none => exact Or.inl ⟨rfl, rfl⟩
    | some i =>
      refine Or.inr ⟨i + 1 + before.length, i + before.length, rfl, rfl, Or.inr ⟨after.take i, ?_, ?_⟩⟩
      · rw [Nat.add_comm, List.take_length_add_append, List.take_succ_cons]
      · rw [Nat.add_comm, List.take_length_add_append]

/-- An import above the place for the declaration does not matter for whether calls are closed
there. -/
theorem closesCalls_aboveAnchor {line : List Char} (hline : importBlock? line = some block)
    (before after : List Block) :
    closesCalls ((aboveAnchor (before ++ block :: after)).flatMap Block.lines) =
      closesCalls ((aboveAnchor (before ++ after)).flatMap Block.lines) := by
  have hplain : ∀ p : List Char → Bool, block.isPlain p = false := by
    intro p
    rcases eq_of_importBlock? hline with rfl | rfl <;> rfl
  have habove : ∀ above other : List Block, (above = other ∨ ∃ rest,
      above = before ++ block :: rest ∧ other = before ++ rest) →
      closesCalls (above.flatMap Block.lines) = closesCalls (other.flatMap Block.lines) := by
    rintro above other (rfl | ⟨rest, rfl, rfl⟩)
    · rfl
    · rw [List.flatMap_append, List.flatMap_append, List.flatMap_cons, lines_of_importBlock? hline,
        List.singleton_append, closesCalls_insert (factoryBinding?_of_importBlock? hline)
          (closesCall_of_importBlock? hline)]
  rw [aboveAnchor, aboveAnchor, factoryAnchor?, factoryAnchor?]
  rcases findIdx?_insert (hplain startsMetadata) before after with
    ⟨hleft, hright⟩ | ⟨i, j, hleft, hright, hcut⟩
  · rw [hleft, hright]
    rcases findIdx?_insert (hplain startsLayoutFunction) before after with
      ⟨hleft, hright⟩ | ⟨i, j, hleft, hright, hcut⟩
    · rw [hleft, hright]
      rfl
    · rw [hleft, hright]
      exact habove _ _ hcut
  · rw [hleft, hright]
    exact habove _ _ hcut

/-- Whether calls are closed above the place for the declaration depends on the roles of the
lines. -/
theorem closesCalls_aboveAnchor_alike (h : List.Forall₂ Alike blocks others) :
    closesCalls ((aboveAnchor others).flatMap Block.lines) =
      closesCalls ((aboveAnchor blocks).flatMap Block.lines) := by
  have hlines : ∀ lines others : List (List Char), List.Forall₂ SameRole lines others →
      closesCalls others = closesCalls lines := by
    intro lines others h
    induction h with
    | nil => rfl
    | cons hline hrest ih => rw [closesCalls, closesCalls, hline.binding, any_closesCall_eq hrest, ih]
  rw [aboveAnchor, aboveAnchor, factoryAnchor?_alike h]
  exact hlines _ _ (forall₂_sameRole (List.forall₂_take _ h))

end Layout

namespace Font

/-- The blocks with an import of the font. -/
def imported (font : Font) (blocks : List Block) : List Block :=
  insertAfterTypeImports (.fontImport font.importLine.toList) blocks

/-- The declaration of the font, and an empty line. -/
def declaration (font : Font) : List Block :=
  [.fontFactory font.binding.toList (font.factoryLines.map String.toList), .plain []]

/-- The blocks with an import and a declaration of the font. -/
def declared (font : Font) (blocks : List Block) : List Block :=
  splice ((factoryAnchor? (font.imported blocks)).getD 0) font.declaration (font.imported blocks)

/-- The blocks with a font that is imported, declared, and named in the body element. -/
def dressed (font : Font) (blocks : List Block) : Except GenerationError (List Block) :=
  match factoryAnchor? (font.imported blocks) with
  | none => lacks .noFontAnchor
  | some _ => restyleBody font.binding.toList (font.declared blocks)

/-- Applying a font is dressing the blocks without fonts. -/
theorem applyFont_eq (font : Font) (layout stylesheet : List Char) :
    applyFont font layout stylesheet =
      match font.dressed (fontless (parse layout).blocks) with
      | .error e => .error e
      | .ok blocks =>
        match Stylesheet.applyFontVariable font.cssVariable.toList stylesheet with
        | .error e => .error e
        | .ok stylesheet => .ok (render ⟨blocks, (parse layout).endsLine⟩, stylesheet) := by
  have hblocks : (((parse layout).removeFontImports.removeFontFactories).insertFontImport
      font.importLine.toList).blocks = font.imported (fontless (parse layout).blocks) := rfl
  have hends : (((parse layout).removeFontImports.removeFontFactories).insertFontImport
      font.importLine.toList).endsLine = (parse layout).endsLine := rfl
  simp only [applyFont, insertFontFactory, dressed, hblocks]
  cases hanchor : factoryAnchor? (font.imported (fontless (parse layout).blocks)) with
  | none => rfl
  | some index =>
    simp only [setRootClasses_eq, hends, declared, hanchor, Option.getD_some, splice, declaration]
    cases restyleBody font.binding.toList _ <;> rfl

/-- Blocks that are alike stay so if the font is imported. -/
theorem alike_imported (font : Font) (h : List.Forall₂ Alike blocks others) :
    List.Forall₂ Alike (font.imported blocks) (font.imported others) := by
  rw [imported, imported, insertAfterTypeImports_eq, insertAfterTypeImports_eq, importPlace_alike h]
  exact alike_splice h _ _

/-- A font can be named before another one is declared or after that. -/
theorem Usable.restyleBody_declared (h : font.Usable) (hbinding : IsConstant binding)
    (blocks : List Block) :
    restyleBody binding (font.declared blocks) = (restyleBody binding blocks).map font.declared := by
  have himport : Neutral [.fontImport font.importLine.toList] := by
    refine ⟨fun block hblock => ?_, fun block hblock => ?_⟩
    · obtain rfl := List.mem_singleton.mp hblock
      exact h.classAttribute?_importLine
    · obtain rfl := List.mem_singleton.mp hblock
      rfl
  have hdeclaration : Neutral font.declaration := by
    constructor <;> (simp only [declaration, List.forall_mem_cons]; exact ⟨rfl, rfl, by simp⟩)
  rw [declared, restyleBody_splice hdeclaration, imported, insertAfterTypeImports_eq,
    restyleBody_splice himport]
  cases hrestyle : restyleBody binding blocks with
  | error e => rfl
  | ok others =>
    have halike := alike_of_restyleBody hbinding hrestyle
    rw [← insertAfterTypeImports_eq, ← imported]
    simp only [Except.map]
    rw [declared, factoryAnchor?_alike (font.alike_imported halike), imported, imported,
      insertAfterTypeImports_eq _ others, importPlace_alike halike]

/-- Taking the fonts out takes out what was put in. -/
theorem fontless_declared (font : Font) (h : Fontless blocks) :
    fontless (font.declared blocks) = blocks := by
  have hfilter : ∀ part : List Block, (∀ block ∈ part, block ∈ blocks) →
      part.filter (fun block => !block.isFontImport) = part := fun part hpart =>
    List.filter_eq_self.mpr fun block hblock => by rw [(h block (hpart block hblock)).1]; rfl
  have himported : (font.imported blocks).filter (fun block => !block.isFontImport) = blocks := by
    obtain ⟨before, after, rfl, hinsert⟩ :=
      exists_insertAfterTypeImports (.fontImport font.importLine.toList) blocks
    rw [imported, hinsert, List.filter_append, List.filter_cons,
      hfilter before fun _ hblock => List.mem_append_left _ hblock,
      hfilter after fun _ hblock => List.mem_append_right _ hblock]
    rfl
  generalize hplace : (factoryAnchor? (font.imported blocks)).getD 0 = place
  have hcut : ((font.imported blocks).take place).filter (fun block => !block.isFontImport) ++
      ((font.imported blocks).drop place).filter (fun block => !block.isFontImport) = blocks := by
    rw [← List.filter_append, List.take_append_drop, himported]
  have hfactory : ∀ part : List Block, (∀ block ∈ part, block ∈ blocks) →
      ∀ block ∈ part, block.isFontFactory = false :=
    fun part hpart block hblock => (h block (hpart block hblock)).2
  rw [declared, hplace, fontless, splice, List.filter_append, List.filter_append]
  generalize ((font.imported blocks).take place).filter (fun block => !block.isFontImport) = before
    at hcut ⊢
  generalize ((font.imported blocks).drop place).filter (fun block => !block.isFontImport) = after
    at hcut ⊢
  subst hcut
  rw [List.append_assoc, withoutFactories_append
    (hfactory before fun _ hblock => List.mem_append_left _ hblock)]
  congr 1
  have hafter := withoutFactories_append
    (hfactory after fun _ hblock => List.mem_append_right _ hblock) []
  rw [withoutFactories, List.append_nil] at hafter
  exact hafter

/-- Dressed blocks are the old ones with a font named, imported and declared. -/
theorem Usable.exists_of_dressed (h : font.Usable) (hdressed : font.dressed blocks = .ok others) :
    ∃ named, restyleBody font.binding.toList blocks = .ok named ∧ others = font.declared named ∧
      (factoryAnchor? (font.imported blocks)).isSome = true := by
  unfold dressed at hdressed
  split at hdressed
  · cases hdressed
  next index hanchor =>
    rw [h.restyleBody_declared h.isConstant] at hdressed
    cases hnamed : restyleBody font.binding.toList blocks with
    | error e => rw [hnamed] at hdressed; cases hdressed
    | ok named =>
      rw [hnamed] at hdressed
      cases hdressed
      exact ⟨named, rfl, rfl, by rw [hanchor]; rfl⟩

/-- Dressing blocks with one font after another is dressing them with the other one, unless the class
attribute that is changed holds a backquote. -/
theorem Usable.dressed_fontless_dressed {next : Font} (h : font.Usable) (hnext : next.Usable)
    (hblocks : Fontless blocks) (hvalue : ∀ value ∈ bodyClasses? blocks, '\x60' ∉ value)
    (hdressed : font.dressed blocks = .ok others) :
    next.dressed (fontless others) = next.dressed blocks := by
  obtain ⟨named, hnamed, rfl, -⟩ := h.exists_of_dressed hdressed
  have halike := alike_of_restyleBody h.isConstant hnamed
  rw [fontless_declared font (hblocks.alike halike), dressed, dressed,
    factoryAnchor?_alike (next.alike_imported halike), hnext.restyleBody_declared hnext.isConstant,
    hnext.restyleBody_declared hnext.isConstant,
    restyleBody_restyleBody h.isConstant hnamed hvalue]

/-- The blocks that are put in are an import, a declaration and an empty line. -/
theorem declared_perm (font : Font) (blocks : List Block) :
    (font.declared blocks).Perm
      (.fontImport font.importLine.toList :: (font.declaration ++ blocks)) := by
  have himported : (font.imported blocks).Perm (.fontImport font.importLine.toList :: blocks) := by
    obtain ⟨before, after, rfl, hinsert⟩ :=
      exists_insertAfterTypeImports (.fontImport font.importLine.toList) blocks
    rw [imported, hinsert]
    exact List.perm_middle
  generalize hplace : (factoryAnchor? (font.imported blocks)).getD 0 = place
  have hsplice : (font.declared blocks).Perm (font.declaration ++ font.imported blocks) := by
    rw [declared, hplace, splice, List.append_assoc]
    conv_rhs => rw [← List.take_append_drop place (font.imported blocks)]
    exact List.perm_append_comm_assoc _ _ _
  exact hsplice.trans ((himported.append_left _).trans List.perm_middle)

/-! ## Dressed blocks are parsed -/

/-- An import does not matter for whether calls are closed above the place of the declaration. -/
theorem closesCalls_aboveAnchor_imported (font : Font) (blocks : List Block) :
    closesCalls ((aboveAnchor (font.imported blocks)).flatMap Block.lines) =
      closesCalls ((aboveAnchor blocks).flatMap Block.lines) := by
  obtain ⟨before, after, rfl, hinsert⟩ :=
    exists_insertAfterTypeImports (.fontImport font.importLine.toList) blocks
  rw [imported, hinsert, closesCalls_aboveAnchor (importBlock?_importLine font)]

/-- Dressed blocks are parsed if the calls above the place of the declaration are closed. -/
theorem Usable.parsed_declared (h : font.Usable) (hblocks : Parsed blocks)
    (hclosed : closesCalls ((aboveAnchor blocks).flatMap Block.lines) = true) :
    Parsed (font.declared blocks) := by
  have hparsed : Parsed (font.imported blocks) :=
    hblocks.insertAfterTypeImports (importBlock?_importLine font)
  have habove := (font.closesCalls_aboveAnchor_imported blocks).trans hclosed
  generalize hplace : (factoryAnchor? (font.imported blocks)).getD 0 = place
  rw [aboveAnchor, hplace] at habove
  rw [← List.take_append_drop place (font.imported blocks)] at hparsed
  obtain ⟨hbefore, hafter⟩ := hparsed.of_append habove
  rw [declared, hplace, splice, List.append_assoc]
  refine hbefore.append habove ?_
  obtain ⟨line, body, close, hlines, hcall⟩ := h.exists_isCall
  have hconfigures := configuresFont_factoryLines font
  rw [declaration, hlines]
  rw [hlines] at hconfigures
  exact .font hcall hconfigures (.plain rfl (by rw [factory?_eq_none_iff]; exact Or.inl rfl) hafter)

end Font

end Siteworks
