import Mathlib
import Siteworks.Proofs.Layout.Parsing
import Siteworks.Proofs.Layout.Restyling

/-!
# Taking fonts out of a layout and putting one in

Taking the fonts out of parsed blocks leaves parsed blocks, and so does putting one in, if the calls
above its place are closed. What was put in is taken out again without a trace, and it does not matter
whether a font is named in the body element before or after another one is declared.
-/

namespace Siteworks.Layout

variable {line binding : List Char} {block : Block} {blocks others : List Block}

/-- The blocks without fonts. -/
def fontless (blocks : List Block) : List Block :=
  withoutFactories false (blocks.filter fun block => !block.isFontImport)

/-- The blocks that are left are a part of all blocks. -/
theorem withoutFactories_sublist (afterFactory : Bool) (blocks : List Block) :
    (withoutFactories afterFactory blocks).Sublist blocks := by
  fun_induction withoutFactories afterFactory blocks with
  | case1 => exact .slnil
  | case2 afterFactory block rest hfactory ih => exact ih.cons _
  | case3 afterFactory block rest hfactory hblank ih => exact ih.cons _
  | case4 afterFactory block rest hfactory hblank ih => exact ih.cons_cons _

/-- The blocks without fonts are a part of all blocks. -/
theorem fontless_sublist (blocks : List Block) : (fontless blocks).Sublist blocks :=
  (withoutFactories_sublist _ _).trans List.filter_sublist

/-- No declaration of a font is left. -/
theorem isFontFactory_of_mem_withoutFactories {afterFactory : Bool}
    (h : block ∈ withoutFactories afterFactory blocks) : block.isFontFactory = false := by
  fun_induction withoutFactories afterFactory blocks with
  | case1 => cases h
  | case2 afterFactory first rest hfactory ih => exact ih h
  | case3 afterFactory first rest hfactory hblank ih => exact ih h
  | case4 afterFactory first rest hfactory hblank ih =>
    rcases List.mem_cons.mp h with rfl | h
    · simpa using hfactory
    · exact ih h

/-- Blocks that declare no font stay. -/
theorem withoutFactories_append {before : List Block}
    (h : ∀ block ∈ before, block.isFontFactory = false) (rest : List Block) :
    withoutFactories false (before ++ rest) = before ++ withoutFactories false rest := by
  induction before with
  | nil => rfl
  | cons block before ih =>
    rw [List.cons_append, withoutFactories, h block List.mem_cons_self]
    simp [ih fun other hother => h other (List.mem_cons_of_mem _ hother)]

/-- Blocks without fonts. -/
def Fontless (blocks : List Block) : Prop :=
  ∀ block ∈ blocks, block.isFontImport = false ∧ block.isFontFactory = false

/-- No font is left. -/
theorem fontless_fontless (blocks : List Block) : Fontless (fontless blocks) := by
  intro block hblock
  refine ⟨?_, isFontFactory_of_mem_withoutFactories hblock⟩
  have hmem := (withoutFactories_sublist _ _).subset hblock
  simpa using (List.mem_filter.mp hmem).2

/-- Blocks that are like blocks without fonts have none. -/
theorem Fontless.alike (h : Fontless blocks) (halike : List.Forall₂ Alike blocks others) :
    Fontless others := by
  induction halike with
  | nil => exact h
  | cons hblock _ ih =>
    obtain ⟨hfirst, hrest⟩ := List.forall_mem_cons.mp h
    refine List.forall_mem_cons.mpr ⟨?_, ih hrest⟩
    rwa [hblock.isFontImport_eq, hblock.isFontFactory_eq]

/-! ## Parsed blocks stay parsed -/

/-- A line that is told apart as an import starts with the word for that. -/
theorem exists_of_importBlock? (h : importBlock? line = some block) :
    ∃ rest, Text.trimStart line = "import".toList ++ rest := by
  have hsome : (importBlock? line).isSome = true := by rw [h]; rfl
  have hstart : ∀ part tail : List Char, part = "import".toList ++ tail →
      part.isPrefixOf (Text.trimStart line) = true → ∃ rest, Text.trimStart line = "import".toList ++ rest := by
    intro part tail hpart hprefix
    obtain ⟨rest, hrest⟩ := List.isPrefixOf_iff_prefix.mp hprefix
    exact ⟨tail ++ rest, by rw [← hrest, hpart, List.append_assoc]⟩
  rw [isSome_importBlock?, Bool.or_eq_true, Bool.and_eq_true] at hsome
  rcases hsome with htype | ⟨himport, -⟩
  · exact hstart _ " type ".toList (by decide) htype
  · exact hstart _ " ".toList (by decide) himport

/-- A line that begins a call starts with the word for that. -/
theorem exists_of_factoryBinding? (h : factoryBinding? line = some binding) :
    ∃ rest, Text.trimStart line = "const".toList ++ rest := by
  simp only [factoryBinding?, Option.bind_eq_bind, Option.bind_eq_some_iff] at h
  obtain ⟨rest, hrest, -⟩ := h
  exact ⟨rest, Text.isPrefixOf?_eq_some_iff.mp hrest⟩

/-- A character that a line starts with stands in the line. -/
theorem mem_of_trimStart_eq {start rest : List Char} (h : Text.trimStart line = start ++ rest) {c : Char}
    (hc : c ∈ start) : c ∈ line := by
  refine (List.dropWhile_sublist Text.isBlank).subset ?_
  change c ∈ Text.trimStart line
  rw [h]
  exact List.mem_append_left _ hc

/-- An import ends no call. -/
theorem closesCall_of_importBlock? (h : importBlock? line = some block) : closesCall line = false := by
  obtain ⟨rest, hrest⟩ := exists_of_importBlock? h
  exact closesCall_eq_false (mem_of_trimStart_eq hrest (c := 'i') (by decide)) (by decide)

/-- A line that begins a call ends none. -/
theorem closesCall_of_factoryBinding? (h : factoryBinding? line = some binding) :
    closesCall line = false := by
  obtain ⟨rest, hrest⟩ := exists_of_factoryBinding? h
  exact closesCall_eq_false (mem_of_trimStart_eq hrest (c := 'c') (by decide)) (by decide)

/-- A line that begins a call is not blank. -/
theorem allBlank_of_factoryBinding? (h : factoryBinding? line = some binding) :
    Text.allBlank line = false := by
  obtain ⟨rest, hrest⟩ := exists_of_factoryBinding? h
  have hmem := mem_of_trimStart_eq hrest (c := 'c') (by decide)
  rw [← Bool.not_eq_true, Text.allBlank_iff]
  exact fun hall => absurd (hall _ hmem) (by decide)

/-- An import begins no call. -/
theorem factoryBinding?_of_importBlock? (h : importBlock? line = some block) :
    factoryBinding? line = none := by
  obtain ⟨rest, hrest⟩ := exists_of_importBlock? h
  rw [Option.eq_none_iff_forall_ne_some]
  intro binding hbinding
  obtain ⟨rest', hrest'⟩ := exists_of_factoryBinding? hbinding
  rw [hrest] at hrest'
  cases (List.cons.inj hrest').1

/-- A call that is not ended by some lines is not ended by a part of them. -/
theorem any_closesCall_eq_false (h : (blocks.flatMap Block.lines).any closesCall = false)
    (hsub : others.Sublist blocks) : (others.flatMap Block.lines).any closesCall = false := by
  rw [List.any_eq_false] at h ⊢
  intro line hline
  obtain ⟨block, hblock, hin⟩ := List.mem_flatMap.mp hline
  exact h line (List.mem_flatMap.mpr ⟨block, hsub.subset hblock, hin⟩)

/-- A line that begins no call that is ended begins none either if blocks behind it are taken out. -/
theorem factory?_of_sublist (h : factory? line (blocks.flatMap Block.lines) = none)
    (hsub : others.Sublist blocks) : factory? line (others.flatMap Block.lines) = none := by
  rw [factory?_eq_none_iff] at h ⊢
  exact h.imp_right fun h => any_closesCall_eq_false h hsub

/-- Parsed blocks stay parsed if the imports of fonts are taken out. -/
theorem Parsed.filter (h : Parsed blocks) :
    Parsed (blocks.filter fun block => !block.isFontImport) := by
  induction h with
  | nil => exact .nil
  | @importLine line block rest found _ ih =>
    rw [List.filter_cons]
    split
    · exact .importLine found ih
    · exact ih
  | plain found none _ ih =>
    exact .plain found (factory?_of_sublist none List.filter_sublist) ih
  | font hcall configures _ ih => exact .font hcall configures ih
  | @call line binding close body rest hcall configures _ ih =>
    have hlines : ((line :: (body ++ [close])).map Block.plain).filter
        (fun block => !block.isFontImport) = (line :: (body ++ [close])).map Block.plain := by
      refine List.filter_eq_self.mpr fun block hblock => ?_
      obtain ⟨other, -, rfl⟩ := List.mem_map.mp hblock
      rfl
    rw [List.filter_append, hlines]
    exact .call hcall configures ih

/-- Parsed blocks stay parsed if the declarations of fonts are taken out. -/
theorem Parsed.withoutFactories (h : Parsed blocks) (afterFactory : Bool) :
    Parsed (withoutFactories afterFactory blocks) := by
  induction h generalizing afterFactory with
  | nil => exact .nil
  | @importLine line block rest found _ ih =>
    have hblock : block.isFontFactory = false ∧ block.isPlain Text.allBlank = false := by
      rcases eq_of_importBlock? found with rfl | rfl <;> exact ⟨rfl, rfl⟩
    rw [Layout.withoutFactories, hblock.1, hblock.2, Bool.and_false]
    exact .importLine found (ih false)
  | @plain line rest found none _ ih =>
    rw [Layout.withoutFactories]
    split
    next hfactory => cases hfactory
    next =>
      split
      · exact ih false
      · exact .plain found (factory?_of_sublist none (withoutFactories_sublist _ _)) (ih false)
  | font hcall configures _ ih => exact ih true
  | @call line binding close body rest hcall configures _ ih =>
    -- the first line of a call is not blank, so no line of the call is taken out
    have hfirst := allBlank_of_factoryBinding? hcall.binds
    have hlines : ∀ block ∈ (body ++ [close]).map Block.plain, block.isFontFactory = false := by
      intro block hblock
      obtain ⟨other, -, rfl⟩ := List.mem_map.mp hblock
      rfl
    rw [List.map_cons, List.cons_append, Layout.withoutFactories]
    have hplain : (Block.plain line).isPlain Text.allBlank = false := hfirst
    rw [hplain, Bool.and_false, withoutFactories_append hlines]
    exact .call hcall configures (ih false)

/-- Parsed blocks stay parsed if the fonts are taken out. -/
theorem Parsed.fontless (h : Parsed blocks) : Parsed (fontless blocks) :=
  h.filter.withoutFactories false

/-- The import of a font that is put in is an import behind all others of types. -/
theorem exists_insertAfterTypeImports (block : Block) (blocks : List Block) :
    ∃ before after, blocks = before ++ after ∧
      insertAfterTypeImports block blocks = before ++ block :: after := by
  induction blocks with
  | nil => exact ⟨[], [], rfl, rfl⟩
  | cons first rest ih =>
    rw [insertAfterTypeImports]
    split
    · obtain ⟨before, after, rfl, hinsert⟩ := ih
      exact ⟨first :: before, after, rfl, congrArg (first :: ·) hinsert⟩
    · exact ⟨[], first :: rest, rfl, rfl⟩

/-- Blocks that import no types stand before or behind what is put in. -/
theorem insertAfterTypeImports_append (block : Block) {before rest : List Block}
    (h : ∀ other ∈ before, other.isTypeImport = false) (hrest : rest.any Block.isTypeImport = true) :
    insertAfterTypeImports block (before ++ rest) = before ++ insertAfterTypeImports block rest := by
  induction before with
  | nil => rfl
  | cons first before ih =>
    rw [List.cons_append, insertAfterTypeImports, if_pos (by simp [hrest]),
      ih fun other hother => h other (List.mem_cons_of_mem _ hother), List.cons_append]

/-- Parsed blocks stay parsed if an import of fonts is put in. -/
theorem Parsed.insertAfterTypeImports (h : Parsed blocks)
    (hline : importBlock? line = some block) :
    Parsed (insertAfterTypeImports block blocks) := by
  have hlines : ∀ rest : List Block,
      ((Layout.insertAfterTypeImports block rest).flatMap Block.lines).any closesCall =
        (rest.flatMap Block.lines).any closesCall := by
    intro rest
    obtain ⟨before, after, rfl, hinsert⟩ := exists_insertAfterTypeImports block rest
    rw [hinsert]
    simp [lines_of_importBlock? hline, closesCall_of_importBlock? hline]
  induction h with
  | nil => exact .importLine hline .nil
  | @importLine other first rest found hrest ih =>
    rw [Layout.insertAfterTypeImports]
    split
    · exact .importLine found ih
    · exact .importLine hline (.importLine found hrest)
  | @plain other rest found none hrest ih =>
    rw [Layout.insertAfterTypeImports]
    split
    · refine .plain found ?_ ih
      rwa [factory?_eq_none_iff, hlines, ← factory?_eq_none_iff]
    · exact .importLine hline (.plain found none hrest)
  | font hcall configures hrest ih =>
    rw [Layout.insertAfterTypeImports]
    split
    · exact .font hcall configures ih
    · exact .importLine hline (.font hcall configures hrest)
  | @call first binding close body rest hcall configures hrest ih =>
    have hplain : ∀ other ∈ (first :: (body ++ [close])).map Block.plain,
        other.isTypeImport = false := by
      intro other hother
      obtain ⟨_, -, rfl⟩ := List.mem_map.mp hother
      rfl
    by_cases htypes : rest.any Block.isTypeImport = true
    · rw [insertAfterTypeImports_append block hplain htypes]
      exact .call hcall configures ih
    · have hnone : ((first :: (body ++ [close])).map Block.plain ++ rest).any
          Block.isTypeImport = false := by
        rw [List.any_append, Bool.or_eq_false_iff]
        exact ⟨List.any_eq_false.mpr fun other hother => by simp [hplain other hother],
          Bool.not_eq_true _ ▸ htypes⟩
      rw [List.map_cons, List.cons_append] at hnone
      rw [List.map_cons, List.cons_append, Layout.insertAfterTypeImports, hnone]
      exact .importLine hline (.call hcall configures hrest)

/-- Lines with the same roles configure a font both, or neither do. -/
theorem configuresFont_eq {lines others : List (List Char)} (h : List.Forall₂ SameRole lines others) :
    configuresFont others = configuresFont lines := by
  have hany : ∀ p : List Char → Bool, (∀ line other, SameRole line other → p other = p line) →
      others.any p = lines.any p := by
    intro p hp
    induction h with
    | nil => rfl
    | cons hline _ ih => rw [List.any_cons, List.any_cons, hp _ _ hline, ih]
  unfold configuresFont
  rw [hany _ fun _ _ hrole => hrole.markers _ marker_variable]
  congr 1
  refine hany _ fun _ _ hrole => ?_
  rw [hrole.markers _ marker_subsets, hrole.markers _ marker_display]

/-- Blocks that are alike have lines with the same roles. -/
theorem forall₂_sameRole (h : List.Forall₂ Alike blocks others) :
    List.Forall₂ SameRole (blocks.flatMap Block.lines) (others.flatMap Block.lines) := by
  induction h with
  | nil => exact .nil
  | cons hblock _ ih =>
    rw [List.flatMap_cons, List.flatMap_cons]
    refine List.rel_append ?_ ih
    cases hblock with
    | same => exact List.forall₂_same.mpr fun _ _ => SameRole.rfl
    | plain hrole => exact .cons hrole .nil

/-- Lines with the same roles end calls both, or neither do. -/
theorem any_closesCall_eq {lines others : List (List Char)}
    (h : List.Forall₂ SameRole lines others) : others.any closesCall = lines.any closesCall := by
  induction h with
  | nil => rfl
  | cons hline _ ih => rw [List.any_cons, List.any_cons, hline.closes, ih]

/-- What is related to two lists in a row is two such lists. -/
theorem exists_of_forall₂_append {α : Type} {R : α → α → Prop} {xs ys zs : List α}
    (h : List.Forall₂ R (xs ++ ys) zs) :
    ∃ xs' ys', zs = xs' ++ ys' ∧ List.Forall₂ R xs xs' ∧ List.Forall₂ R ys ys' :=
  ⟨_, _, (List.take_append_drop xs.length zs).symm,
    (List.forall₂_take_append zs xs ys h.flip).flip, (List.forall₂_drop_append zs xs ys h.flip).flip⟩

/-- Blocks that are alike to plain lines are plain lines with the same roles. -/
theorem exists_of_alike_plain {lines : List (List Char)}
    (h : List.Forall₂ Alike (lines.map Block.plain) others) :
    ∃ lines', others = lines'.map Block.plain ∧ List.Forall₂ SameRole lines lines' := by
  induction lines generalizing others with
  | nil =>
    cases h
    exact ⟨[], rfl, .nil⟩
  | cons line lines ih =>
    cases h with
    | cons hblock hrest =>
      obtain ⟨lines', rfl, hlines⟩ := ih hrest
      cases hblock with
      | same => exact ⟨line :: lines', rfl, .cons .rfl hlines⟩
      | plain hrole => exact ⟨_ :: lines', rfl, .cons hrole hlines⟩

/-- Blocks that are alike to parsed blocks are parsed. -/
theorem Parsed.alike (h : Parsed blocks) (halike : List.Forall₂ Alike blocks others) :
    Parsed others := by
  induction h generalizing others with
  | nil => cases halike; exact .nil
  | @importLine line block rest found _ ih =>
    cases halike with
    | cons hblock hrest =>
      cases hblock with
      | same => exact .importLine found (ih hrest)
      | plain => rcases eq_of_importBlock? found with himport | himport <;> cases himport
  | @plain line rest found none _ ih =>
    cases halike with
    | @cons _ block _ tail hblock hrest =>
      obtain ⟨other, rfl, hrole⟩ : ∃ other, block = .plain other ∧ SameRole line other := by
        cases hblock with
        | same => exact ⟨line, rfl, .rfl⟩
        | plain hrole => exact ⟨_, rfl, hrole⟩
      refine .plain ?_ ?_ (ih hrest)
      · rw [← Option.not_isSome_iff_eq_none, hrole.importBlock, found]
        simp
      · rw [factory?_eq_none_iff] at none ⊢
        rwa [hrole.binding, any_closesCall_eq (forall₂_sameRole hrest)]
  | font hcall configures _ ih =>
    cases halike with
    | cons hblock hrest =>
      cases hblock with
      | same => exact .font hcall configures (ih hrest)
  | @call line binding close body rest hcall configures _ ih =>
    obtain ⟨chunk, tail, rfl, hchunk, htail⟩ := exists_of_forall₂_append halike
    obtain ⟨lines, rfl, hlines⟩ := exists_of_alike_plain hchunk
    cases hlines with
    | @cons _ line' _ lines hline hlines =>
      obtain ⟨body', closes, rfl, hbody, hcloses⟩ := exists_of_forall₂_append hlines
      cases hcloses with
      | @cons _ close' _ none hclose hnone =>
        cases hnone
        have hcall' : IsCall line' binding body' close' := by
          refine ⟨?_, hline.binding.trans hcall.binds, ?_, hclose.closes.trans hcall.closes⟩
          · rw [← Option.not_isSome_iff_eq_none, hline.importBlock, hcall.not_import]
            simp
          · have hinside : body.any closesCall = false := by
              simpa [List.any_eq_false] using hcall.inside
            rw [← any_closesCall_eq hbody, List.any_eq_false] at hinside
            simpa using hinside
        refine .call hcall' ?_ (ih htail)
        rw [← configures]
        exact configuresFont_eq (.cons hline (List.rel_append hbody (.cons hclose .nil)))

end Siteworks.Layout
