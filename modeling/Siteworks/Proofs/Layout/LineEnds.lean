import Mathlib
import Siteworks.Proofs.Layout.Rereading

/-!
# What becomes of the ends of lines

Reading a layout and writing it again keeps every character of the text but the carriage returns that
stand directly before a line feed. So the text comes back exactly if it has no such carriage return,
however its blocks are made up and wherever its last line ends. What is told of lines without regard
to these returns is told alike of the lines written and of the lines read from them.
-/

namespace Siteworks.Layout

variable {piece line rest text : List Char} {pieces : List (List Char)}

/-- A text without the carriage returns that stand directly before a line feed. -/
def withoutReturns : List Char → List Char
  | [] => []
  | c :: rest =>
    if c = '\r' ∧ rest.head? = some '\n' then withoutReturns rest else c :: withoutReturns rest

/-- Carriage returns are taken out, and nothing is put in. -/
theorem withoutReturns_sublist (text : List Char) : (withoutReturns text).Sublist text := by
  fun_induction withoutReturns text with
  | case1 => exact .slnil
  | case2 c rest hreturn ih => exact ih.cons c
  | case3 c rest hreturn ih => exact ih.cons_cons c

/-- A text stays as it is exactly if no carriage return in it stands before a line feed. -/
theorem withoutReturns_eq_self_iff (text : List Char) :
    withoutReturns text = text ↔ Text.contains ['\r', '\n'] text = false := by
  have hstart : ∀ (c : Char) (rest : List Char), ['\r', '\n'].isPrefixOf (c :: rest) = true ↔
      c = '\r' ∧ rest.head? = some '\n' := by
    intro c rest
    rw [List.isPrefixOf_iff_prefix, List.cons_prefix_cons]
    cases rest <;> simp [eq_comm]
  fun_induction withoutReturns text with
  | case1 => simp [Text.contains]
  | case2 c rest hreturn ih =>
    have hshort := (withoutReturns_sublist rest).length_le
    have hne : withoutReturns rest ≠ c :: rest := by
      intro hsame
      rw [hsame, List.length_cons] at hshort
      omega
    rw [Text.contains, (hstart c rest).mpr hreturn]
    simp [hne]
  | case3 c rest hreturn ih =>
    have hother : ['\r', '\n'].isPrefixOf (c :: rest) = false := by
      rw [← Bool.not_eq_true, hstart]
      exact hreturn
    rw [Text.contains, hother, Bool.false_or, List.cons.injEq]
    simpa using ih

/-- In a line no carriage return is taken out but the last character. -/
theorem withoutReturns_append (hpiece : '\n' ∉ piece)
    (hend : piece.getLast? = some '\r' → rest.head? ≠ some '\n') :
    withoutReturns (piece ++ rest) = piece ++ withoutReturns rest := by
  induction piece with
  | nil => rfl
  | cons c piece ih =>
    have hkeep : ¬ (c = '\r' ∧ (piece ++ rest).head? = some '\n') := by
      rintro ⟨rfl, hhead⟩
      cases piece with
      | nil => exact hend rfl hhead
      | cons d piece => exact hpiece (by simp [Option.some.inj hhead])
    have hbehind : piece.getLast? = some '\r' → rest.head? ≠ some '\n' := by
      intro hlast
      refine hend ?_
      rw [List.getLast?_cons, hlast]
      rfl
    rw [List.cons_append, withoutReturns, if_neg hkeep,
      ih (fun hmem => hpiece (List.mem_cons_of_mem _ hmem)) hbehind, List.cons_append]

/-- What a line feed ends is a line of the text, without the carriage return that ends it. -/
theorem withoutReturns_append_newline (hpiece : '\n' ∉ piece) (rest : List Char) :
    withoutReturns (piece ++ '\n' :: rest) = dropReturn piece ++ '\n' :: withoutReturns rest := by
  have hfeed : withoutReturns ('\n' :: rest) = '\n' :: withoutReturns rest := by
    rw [withoutReturns, if_neg fun h => absurd h.1 (by decide)]
  by_cases hlast : piece.getLast? = some '\r'
  · obtain ⟨start, rfl⟩ := List.getLast?_eq_some_iff.mp hlast
    have hstart : '\n' ∉ start := fun hmem => hpiece (List.mem_append_left _ hmem)
    have hreturn : withoutReturns ('\r' :: '\n' :: rest) = '\n' :: withoutReturns rest := by
      rw [withoutReturns, if_pos ⟨rfl, rfl⟩, hfeed]
    rw [dropReturn_concat, List.append_assoc, List.singleton_append,
      withoutReturns_append hstart (by simp), hreturn]
  · rw [dropReturn_eq_self hlast, withoutReturns_append hpiece fun h => absurd h hlast, hfeed]

/-- Only an empty text has no lines. -/
theorem linesOfPieces_eq_nil {next : List Char} (h : linesOfPieces (next :: pieces) = []) :
    next = [] ∧ pieces = [] := by
  cases pieces with
  | nil =>
    rw [linesOfPieces] at h
    split at h
    next hempty => exact ⟨List.isEmpty_iff.mp hempty, rfl⟩
    next => cases h
  | cons other pieces => cases h

/-- The lines among pieces, each ended by a line feed unless it is the last piece, make up the text
of the pieces but for the carriage returns. -/
theorem intercalate_linesOfPieces (hpieces : ∀ piece ∈ pieces, '\n' ∉ piece) :
    ['\n'].intercalate (linesOfPieces pieces) ++
      (if (['\n'].intercalate pieces).getLast? = some '\n' then ['\n'] else []) =
        withoutReturns (['\n'].intercalate pieces) := by
  fun_induction linesOfPieces pieces with
  | case1 => rfl
  | case2 last hempty =>
    obtain rfl := List.isEmpty_iff.mp hempty
    rfl
  | case3 last hempty =>
    have hlast : '\n' ∉ last := hpieces last List.mem_cons_self
    have hnot : last.getLast? ≠ some '\n' := fun h => hlast (List.mem_of_getLast? h)
    have hkept : withoutReturns (last ++ []) = last ++ withoutReturns [] :=
      withoutReturns_append hlast (by simp)
    rw [List.append_nil] at hkept
    rw [List.intercalate_singleton, if_neg hnot, hkept]
    rfl
  | case4 piece rest hrest ih =>
    obtain ⟨next, rest, rfl⟩ := List.exists_cons_of_ne_nil (l := rest) fun hnil => hrest hnil
    have hpiece : '\n' ∉ piece := hpieces piece List.mem_cons_self
    have hbehind := ih fun other hother => hpieces other (List.mem_cons_of_mem _ hother)
    rw [List.intercalate_cons_cons, List.append_assoc, List.singleton_append,
      withoutReturns_append_newline hpiece, ← hbehind]
    cases hlines : linesOfPieces (next :: rest) with
    | nil =>
      -- the text ends with this line feed
      obtain ⟨rfl, rfl⟩ := linesOfPieces_eq_nil hlines
      simp
    | cons line lines =>
      have hfull : ['\n'].intercalate (next :: rest) ≠ [] := by
        intro hnil
        rw [hnil] at hbehind
        cases next with
        | nil =>
          cases rest with
          | nil => cases hlines
          | cons other rest => simp [List.intercalate_cons_cons] at hnil
        | cons c next => cases rest <;> simp [List.intercalate_cons_cons] at hnil
      rw [List.getLast?_append_cons, List.getLast?_cons_of_ne_nil hfull,
        List.intercalate_cons_cons]
      simp only [List.append_assoc, List.cons_append, List.nil_append]

/-- Reading a layout and writing it takes out the carriage returns before line feeds. -/
theorem render_parse (text : List Char) : (parse text).render = withoutReturns text := by
  have hpieces : ∀ piece ∈ text.splitOn '\n', '\n' ∉ piece :=
    fun _ => newline_not_mem_of_mem_splitOn
  have hwritten := intercalate_linesOfPieces hpieces
  rw [List.intercalate_splitOn] at hwritten
  rw [← hwritten, render, lines_parse, linesOf]
  simp [parse]

/-- Reading a layout and writing it takes out the carriage returns before line feeds and nothing else,
so a text comes back exactly if it has none. -/
theorem render_parse_eq_self_iff (text : List Char) :
    (parse text).render = withoutReturns text ∧
      ((parse text).render = text ↔ Text.contains ['\r', '\n'] text = false) :=
  ⟨render_parse text, by rw [render_parse, withoutReturns_eq_self_iff]⟩

/-- A text with a carriage return before a line feed does not come back. -/
theorem exists_render_parse_ne : ¬ ∀ text : List Char, (parse text).render = text := by
  intro hall
  have hsame := hall "const a = 1;\r\nconst b = 2;\r\n".toList
  rw [String.toList_ofList] at hsame
  exact absurd hsame (by decide +kernel)

/-! ## Lines of a written text -/

variable {p : List Char → Bool} {blocks : List Block} {ends : Bool}

/-- A line loses at most a carriage return at its end. -/
theorem dropReturn_cases (line : List Char) :
    dropReturn line = line ∨ line = dropReturn line ++ ['\r'] := by
  by_cases hlast : line.getLast? = some '\r'
  · obtain ⟨start, rfl⟩ := List.getLast?_eq_some_iff.mp hlast
    exact Or.inr (by rw [dropReturn_concat])
  · exact Or.inl (dropReturn_eq_self hlast)

/-- Lines are counted as the pieces between line feeds are. -/
theorem countP_linesOfPieces (hreturn : ∀ line, p (line ++ ['\r']) = p line) (hempty : p [] = false)
    (pieces : List (List Char)) : (linesOfPieces pieces).countP p = pieces.countP p := by
  fun_induction linesOfPieces pieces with
  | case1 => rfl
  | case2 last hblank =>
    obtain rfl := List.isEmpty_iff.mp hblank
    simp [hempty]
  | case3 last hblank => rfl
  | case4 piece rest hrest ih =>
    have hpiece : p (dropReturn piece) = p piece := by
      rcases dropReturn_cases piece with hsame | hcut
      · rw [hsame]
      · conv_rhs => rw [hcut, hreturn]
    rw [List.countP_cons, List.countP_cons, ih, hpiece]

/-- The lines of a text that was written are counted as the lines written are. -/
theorem countP_linesOf_render (hreturn : ∀ line, p (line ++ ['\r']) = p line) (hempty : p [] = false)
    (hne : blocks.flatMap Block.lines ≠ []) (hlines : ∀ line ∈ blocks.flatMap Block.lines, '\n' ∉ line) :
    (linesOf (render ⟨blocks, ends⟩)).countP p = (blocks.flatMap Block.lines).countP p := by
  rw [linesOf, countP_linesOfPieces hreturn hempty, splitOn_render hne hlines, List.countP_append]
  cases ends <;> simp [hempty]

/-- A piece that is not empty and keeps its last character is a line. -/
theorem mem_linesOfPieces (hmem : line ∈ pieces) (hfull : line ≠ [])
    (hlast : line.getLast? ≠ some '\r') : line ∈ linesOfPieces pieces := by
  fun_induction linesOfPieces pieces with
  | case1 => cases hmem
  | case2 last hblank =>
    obtain rfl := List.mem_singleton.mp hmem
    exact absurd (List.isEmpty_iff.mp hblank) hfull
  | case3 last hblank => exact hmem
  | case4 piece rest hrest ih =>
    rcases List.mem_cons.mp hmem with rfl | hmem
    · rw [dropReturn_eq_self hlast]
      exact List.mem_cons_self
    · exact List.mem_cons_of_mem _ (ih hmem)

/-- A line that was written is read, unless it is empty or ends with a carriage return. -/
theorem mem_linesOf_render (hlines : ∀ line ∈ blocks.flatMap Block.lines, '\n' ∉ line)
    (hmem : line ∈ blocks.flatMap Block.lines) (hfull : line ≠ [])
    (hlast : line.getLast? ≠ some '\r') : line ∈ linesOf (render ⟨blocks, ends⟩) := by
  refine mem_linesOfPieces ?_ hfull hlast
  rw [splitOn_render (List.ne_nil_of_mem hmem) hlines]
  exact List.mem_append_left _ hmem

end Siteworks.Layout
