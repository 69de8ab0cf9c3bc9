import Mathlib
import Siteworks.Proofs.Layout.Dressing

/-!
# Reading a layout that was written

Parsed blocks are found again in their text, if none of their lines is broken in two and no line
feed in the text follows a carriage return, which reading would drop. The exception is an empty last
line that no line feed ends: it is read as the end of the line before.
-/

namespace Siteworks.Layout

variable {line : List Char} {block : Block} {blocks : List Block} {pieces : List (List Char)}

/-! ## Lines and pieces -/

/-- The lines of a text are not broken. -/
theorem newline_not_mem_of_mem_splitOn {text piece : List Char} (h : piece ∈ text.splitOn '\n') :
    '\n' ∉ piece := by
  intro hmem
  have hrun : piece ∈ Text.runs (· != '\n') text := by
    refine List.mem_filter.mpr ⟨?_, by cases piece <;> simp_all⟩
    have hclass : (fun c : Char => !(c != '\n')) = (· == '\n') := by
      funext c
      rw [bne, Bool.not_not]
    rw [hclass]
    exact h
  exact absurd (Text.inClass_of_mem_runs hrun hmem) (by decide)

/-- A carriage return is dropped from the end of a line. -/
theorem dropReturn_sublist (line : List Char) : (dropReturn line).Sublist line := by
  unfold dropReturn List.isSuffixOf?
  cases hfound : List.isPrefixOf? ['\r'].reverse line.reverse with
  | none => exact .refl _
  | some rest =>
    have hline := Text.isPrefixOf?_eq_some_iff.mp hfound
    refine List.reverse_sublist.mp ?_
    rw [Option.map_some, Option.getD_some, List.reverse_reverse, hline]
    exact List.sublist_append_right _ _

/-- A line that no carriage return ends stays. -/
theorem dropReturn_eq_self (h : line.getLast? ≠ some '\r') : dropReturn line = line := by
  unfold dropReturn List.isSuffixOf?
  cases hfound : List.isPrefixOf? ['\r'].reverse line.reverse with
  | none => rfl
  | some rest =>
    have hline := congrArg List.reverse (Text.isPrefixOf?_eq_some_iff.mp hfound)
    rw [List.reverse_reverse, List.reverse_append] at hline
    rw [hline] at h
    simp at h

/-- A line loses the carriage return that ends it. -/
theorem dropReturn_concat (line : List Char) : dropReturn (line ++ ['\r']) = line := by
  have hfound : List.isPrefixOf? ['\r'].reverse (line ++ ['\r']).reverse = some line.reverse :=
    Text.isPrefixOf?_eq_some_iff.mpr (by simp)
  rw [dropReturn, List.isSuffixOf?, hfound, Option.map_some, Option.getD_some, List.reverse_reverse]

/-- The lines of a text have no line feed. -/
theorem newline_not_mem_of_mem_linesOf {text : List Char} (h : line ∈ linesOf text) :
    '\n' ∉ line := by
  have hpieces : ∀ pieces : List (List Char), (∀ piece ∈ pieces, '\n' ∉ piece) →
      ∀ line ∈ linesOfPieces pieces, '\n' ∉ line := by
    intro pieces hpieces line hline
    fun_induction linesOfPieces pieces with
    | case1 => cases hline
    | case2 last hempty => cases hline
    | case3 last hempty => exact hpieces line hline
    | case4 piece rest hrest ih =>
      rcases List.mem_cons.mp hline with rfl | hline
      · exact fun hmem => hpieces piece List.mem_cons_self ((dropReturn_sublist piece).subset hmem)
      · exact ih (fun other hother => hpieces other (List.mem_cons_of_mem _ hother)) hline
  exact hpieces _ (fun _ => newline_not_mem_of_mem_splitOn) line h

/-- The pieces between line feeds are the lines if no carriage return stands before a line feed. -/
theorem linesOfPieces_eq (h : Text.contains ['\r', '\n'] (['\n'].intercalate pieces) = false) :
    linesOfPieces pieces = if pieces.getLast? = some [] then pieces.dropLast else pieces := by
  fun_induction linesOfPieces pieces with
  | case1 => rfl
  | case2 last hempty =>
    obtain rfl := List.isEmpty_iff.mp hempty
    rfl
  | case3 last hempty =>
    rw [List.isEmpty_iff] at hempty
    simp [hempty]
  | case4 piece rest hrest ih =>
    obtain ⟨next, rest, rfl⟩ := List.exists_cons_of_ne_nil (l := rest) fun hnil => hrest hnil
    rw [List.intercalate_cons_cons, List.append_assoc, List.singleton_append] at h
    have hpiece : piece.getLast? ≠ some '\r' := by
      intro hlast
      obtain ⟨start, rfl⟩ := List.getLast?_eq_some_iff.mp hlast
      have hinfix : ['\r', '\n'] <:+: start ++ ['\r'] ++ '\n' :: ['\n'].intercalate (next :: rest) :=
        ⟨start, ['\n'].intercalate (next :: rest), by simp⟩
      rw [← Text.contains_iff_isInfix, h] at hinfix
      cases hinfix
    have hbehind : Text.contains ['\r', '\n'] (['\n'].intercalate (next :: rest)) = false := by
      rw [← Bool.not_eq_true, Text.contains_iff_isInfix]
      intro hinfix
      have := hinfix.trans ((List.suffix_cons '\n' _).trans (List.suffix_append piece _)).isInfix
      rw [← Text.contains_iff_isInfix, h] at this
      cases this
    rw [dropReturn_eq_self hpiece, ih hbehind, List.getLast?_cons_cons, List.dropLast_cons_cons]
    split <;> rfl

/-- A text joined to others stands behind them and a separator. -/
theorem intercalate_concat {sep : List Char} (h : pieces ≠ []) (last : List Char) :
    sep.intercalate (pieces ++ [last]) = sep.intercalate pieces ++ (sep ++ last) := by
  induction pieces with
  | nil => exact absurd rfl h
  | cons piece rest ih =>
    cases rest with
    | nil => simp [List.intercalate_cons_cons]
    | cons next rest =>
      rw [List.cons_append, List.cons_append, List.intercalate_cons_cons, ← List.cons_append,
        ih (by simp), List.intercalate_cons_cons, List.append_assoc, List.append_assoc,
        List.append_assoc]

/-- An empty line behind other lines ends the last one of these. -/
theorem intercalate_concat_nil {sep : List Char} (h : pieces ≠ []) :
    sep.intercalate (pieces ++ [[]]) = sep.intercalate pieces ++ sep := by
  rw [intercalate_concat h, List.append_nil]

/-- Joined lines end with the last one. -/
theorem suffix_intercalate (sep : List Char) {last : List Char} (h : pieces.getLast? = some last) :
    last <:+ sep.intercalate pieces := by
  induction pieces with
  | nil => cases h
  | cons piece rest ih =>
    cases rest with
    | nil =>
      obtain rfl : piece = last := by simpa using h
      simp
    | cons next rest =>
      rw [List.getLast?_cons_cons] at h
      rw [List.intercalate_cons_cons]
      exact (ih h).trans (List.suffix_append _ _)

/-! ## Reading what was written -/

/-- A block of parsed blocks has lines, and the last one is empty only if it is the block. -/
theorem Parsed.lines_of_mem (h : Parsed blocks) (hblock : block ∈ blocks) :
    block.lines ≠ [] ∧ (block.lines.getLast? = some [] → block = .plain []) := by
  induction h with
  | nil => cases hblock
  | @importLine line first rest found _ ih =>
    rcases List.mem_cons.mp hblock with rfl | hblock
    · rw [lines_of_importBlock? found]
      refine ⟨by simp, fun hlast => ?_⟩
      obtain rfl : line = [] := by simpa using hlast
      cases found
    · exact ih hblock
  | @plain line rest found _ _ ih =>
    rcases List.mem_cons.mp hblock with rfl | hblock
    · exact ⟨by simp [Block.lines], fun hlast => by simpa [Block.lines] using hlast⟩
    · exact ih hblock
  | @font line binding close body rest hcall _ _ ih =>
    rcases List.mem_cons.mp hblock with rfl | hblock
    · refine ⟨by simp [Block.lines], fun hlast => ?_⟩
      rw [Block.lines, ← List.cons_append, List.getLast?_concat] at hlast
      obtain rfl := Option.some.inj hlast
      exact absurd hcall.closes (by decide)
    · exact ih hblock
  | @call line binding close body rest _ _ _ ih =>
    rcases List.mem_append.mp hblock with hblock | hblock
    · obtain ⟨other, -, rfl⟩ := List.mem_map.mp hblock
      exact ⟨by simp [Block.lines], fun hlast => by simpa [Block.lines] using hlast⟩
    · exact ih hblock

/-- The pieces of a text that was written are the lines written, and nothing behind the line feed that
ends the last one. -/
theorem splitOn_render {ends : Bool} (hne : blocks.flatMap Block.lines ≠ [])
    (hlines : ∀ line ∈ blocks.flatMap Block.lines, '\n' ∉ line) :
    (render ⟨blocks, ends⟩).splitOn '\n' =
      blocks.flatMap Block.lines ++ if ends then [[]] else [] := by
  have hrender : render ⟨blocks, ends⟩ =
      ['\n'].intercalate (blocks.flatMap Block.lines) ++ if ends then ['\n'] else [] := rfl
  rw [hrender]
  generalize blocks.flatMap Block.lines = lines at hne hlines ⊢
  cases ends with
  | true =>
    rw [if_pos rfl, if_pos rfl, ← intercalate_concat_nil hne]
    refine List.splitOn_intercalate '\n' (fun line hline => ?_) (by simp)
    rcases List.mem_append.mp hline with hline | hline
    · exact hlines line hline
    · rw [List.mem_singleton.mp hline]
      simp
  | false =>
    rw [if_neg Bool.false_ne_true, if_neg Bool.false_ne_true, List.append_nil, List.append_nil]
    exact List.splitOn_intercalate '\n' hlines hne

/-- The lines of a text that was written are the lines written, but for an empty last line that is
not ended. -/
theorem linesOf_render {ends : Bool} (hne : blocks.flatMap Block.lines ≠ [])
    (hlines : ∀ line ∈ blocks.flatMap Block.lines, '\n' ∉ line)
    (hreturn : Text.contains ['\r', '\n'] (render ⟨blocks, ends⟩) = false) :
    linesOf (render ⟨blocks, ends⟩) =
      if ends = false ∧ (blocks.flatMap Block.lines).getLast? = some [] then
        (blocks.flatMap Block.lines).dropLast
      else blocks.flatMap Block.lines := by
  have hpieces : Text.contains ['\r', '\n']
      (['\n'].intercalate ((render ⟨blocks, ends⟩).splitOn '\n')) = false := by
    rwa [List.intercalate_splitOn]
  rw [linesOf, linesOfPieces_eq hpieces, splitOn_render hne hlines]
  cases ends with
  | true =>
    rw [if_pos rfl, List.getLast?_concat, if_pos rfl, List.dropLast_concat,
      if_neg fun h => Bool.noConfusion h.1]
  | false =>
    rw [if_neg Bool.false_ne_true, List.append_nil]
    simp only [true_and]

/-- A text that was written is ended if it was to be, unless its last line is empty. -/
theorem getLast?_render {ends : Bool} (hne : blocks.flatMap Block.lines ≠ [])
    (hlines : ∀ line ∈ blocks.flatMap Block.lines, '\n' ∉ line)
    (hlast : ends = true ∨ (blocks.flatMap Block.lines).getLast? ≠ some []) :
    decide ((render ⟨blocks, ends⟩).getLast? = some '\n') = ends := by
  have hrender : render ⟨blocks, ends⟩ =
      ['\n'].intercalate (blocks.flatMap Block.lines) ++ if ends then ['\n'] else [] := rfl
  rw [hrender]
  generalize blocks.flatMap Block.lines = lines at hne hlines hlast ⊢
  cases ends with
  | true =>
    rw [if_pos rfl, List.getLast?_concat]
    rfl
  | false =>
    refine decide_eq_false fun hnewline => ?_
    rw [if_neg Bool.false_ne_true, List.append_nil] at hnewline
    obtain ⟨line, hline⟩ := Option.ne_none_iff_exists'.mp (List.getLast?_eq_none_iff.not.mpr hne)
    obtain ⟨start, hstart⟩ := suffix_intercalate ['\n'] hline
    have hlinene : line ≠ [] := by
      rintro rfl
      exact hlast.elim Bool.noConfusion fun h => h hline
    rw [← hstart, List.getLast?_append_of_ne_nil _ hlinene] at hnewline
    exact hlines line (List.mem_of_getLast? hline) (List.mem_of_getLast? hnewline)

/-- A text is written and read back: its blocks are parsed, no line is broken in two, no carriage
return stands before a line feed, and no empty last line lacks one. -/
theorem parse_render {ends : Bool} (h : Parsed blocks) (hne : blocks ≠ [])
    (hlines : ∀ line ∈ blocks.flatMap Block.lines, '\n' ∉ line)
    (hreturn : Text.contains ['\r', '\n'] (render ⟨blocks, ends⟩) = false)
    (hlast : ends = true ∨ blocks.getLast? ≠ some (.plain [])) :
    parse (render ⟨blocks, ends⟩) = ⟨blocks, ends⟩ := by
  obtain ⟨init, last, rfl⟩ : ∃ init last, blocks = init ++ [last] :=
    ⟨_, _, (List.dropLast_append_getLast hne).symm⟩
  obtain ⟨hfull, hempty⟩ := h.lines_of_mem (by simp : last ∈ init ++ [last])
  have hlinesne : (init ++ [last]).flatMap Block.lines ≠ [] := by simp [hfull]
  have hfilled : ends = true ∨ ((init ++ [last]).flatMap Block.lines).getLast? ≠ some [] := by
    refine hlast.imp_right fun hgap hnil => hgap ?_
    rw [List.flatMap_append, List.flatMap_singleton, List.getLast?_append_of_ne_nil _ hfull] at hnil
    rw [List.getLast?_concat, hempty hnil]
  rw [parse, getLast?_render hlinesne hlines hfilled, linesOf_render hlinesne hlines hreturn,
    if_neg fun hnil => hfilled.elim (by simp [hnil.1]) fun h => h hnil.2, h.blocksFrom_eq]

end Siteworks.Layout
