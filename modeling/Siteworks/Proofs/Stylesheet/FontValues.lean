import Mathlib
import Siteworks.Proofs.Stylesheet.Declarations

/-!
# What a new font replaces

A declaration ends at a semicolon or, if it is the last one of its block, at the closing brace.
Setting a property reads on to the next semicolon. So a new font replaces values and nothing else
exactly if no value that is read has a closing brace in it; otherwise the brace goes, with all that
stands between it and the semicolon.
-/

namespace Siteworks.Stylesheet

/-- The second text is the first one with a new value in some declarations of the property. A value
is what stands behind the colon, up to the first semicolon or closing brace. A declaration stands in
a fresh place, that is at the start of the text or behind a separating character. -/
inductive Revalued (name new : List Char) : Bool → List Char → List Char → Prop
  /-- Nothing is left. -/
  | nil {fresh : Bool} : Revalued name new fresh [] []
  /-- A character is kept. -/
  | char {fresh : Bool} {c : Char} {rest rest' : List Char} :
    Revalued name new (separates c) rest rest' → Revalued name new fresh (c :: rest) (c :: rest')
  /-- A value is replaced. -/
  | value {space space' old rest rest' : List Char} : (∀ c ∈ space, Text.isBlank c = true) →
    (∀ c ∈ space', Text.isBlank c = true) → ';' ∉ old → '\x7d' ∉ old →
      (∃ c ∈ rest.head?, c = ';' ∨ c = '\x7d') → Revalued name new false rest rest' →
        Revalued name new true (name ++ space ++ ':' :: (space' ++ old ++ rest))
          (name ++ space ++ ':' :: (space' ++ new ++ rest'))

namespace Revalued

variable {name new text text' : List Char} {fresh : Bool}

/-- In a fresh place more may be replaced. -/
theorem of_not_fresh (h : Revalued name new false text text') :
    Revalued name new fresh text text' := by
  cases h with
  | nil => exact nil
  | char h => exact char h

/-- If no value that is read has a closing brace in it, only values get replaced. -/
theorem of_cut {parts : List Piece} (h : Cut name fresh text parts)
    (hclosed : ∀ piece ∈ parts, '\x7d' ∉ piece.value) :
    Revalued name new fresh text (parts.flatMap fun piece => (piece.setValue new).text) := by
  induction h with
  | nil => exact nil
  | char _ _ ih => exact char (ih (List.forall_mem_cons.mp hclosed).2)
  | @declaration head value rest parts found _ ih =>
    obtain ⟨space, space', _, -, rfl, hspace, hspace', -, hvalue⟩ :=
      declaration?_eq_some_iff.mp found
    obtain ⟨hbrace, hrest⟩ := List.forall_mem_cons.mp hclosed
    have hend : Revalued name new false (';' :: rest)
        (';' :: parts.flatMap fun piece => (piece.setValue new).text) :=
      char (ih hrest).of_not_fresh
    simpa [Piece.text, Piece.setValue] using
      Revalued.value hspace hspace' hvalue hbrace ⟨';', rfl, Or.inl rfl⟩ hend

/-- No closing brace gets lost with a value. -/
theorem count_eq (h : Revalued name new fresh text text') (hnew : '\x7d' ∉ new) :
    text'.count '\x7d' = text.count '\x7d' := by
  induction h with
  | nil => rfl
  | char _ ih => rw [List.count_cons, List.count_cons, ih]
  | value _ _ _ hold _ _ ih =>
    simp only [List.count_append, List.count_cons, List.count_eq_zero_of_not_mem hold,
      List.count_eq_zero_of_not_mem hnew, ih]

end Revalued

/-- The closing braces in the values that are read get lost. -/
theorem count_flatMap_text (parts : List Piece) {new : List Char} (hnew : '\x7d' ∉ new) :
    (parts.flatMap Piece.text).count '\x7d' =
      (parts.flatMap fun piece => (piece.setValue new).text).count '\x7d' +
        (parts.flatMap Piece.value).count '\x7d' := by
  induction parts with
  | nil => rfl
  | cons piece parts ih =>
    cases piece with
    | char c =>
      simp only [List.flatMap_cons, List.count_append, ih, Piece.setValue, Piece.value,
        List.count_nil]
      omega
    | declaration head value =>
      simp only [List.flatMap_cons, List.count_append, ih, Piece.setValue, Piece.value, Piece.text,
        List.count_eq_zero_of_not_mem hnew]
      omega

/-- Pointing the default font family at a variable replaces values of its declarations and nothing
else exactly if no value that is read, which is all up to the next semicolon, has a closing brace in
it. -/
theorem applyFontVariable_revalued {fontVariable stylesheet stylesheet' : List Char}
    (h : applyFontVariable fontVariable stylesheet = .ok stylesheet') :
    ((∀ piece ∈ pieces "--font-sans".toList stylesheet, '\x7d' ∉ piece.value) →
      Revalued "--font-sans".toList ("var(".toList ++ fontVariable ++ [')']) true stylesheet
        stylesheet') ∧
      (Revalued "--font-sans".toList ("var(".toList ++ fontVariable ++ [')']) true stylesheet
        stylesheet' → '\x7d' ∉ fontVariable →
          ∀ piece ∈ pieces "--font-sans".toList stylesheet, '\x7d' ∉ piece.value) := by
  simp only [applyFontVariable] at h
  split at h
  next =>
    cases h
    refine ⟨Revalued.of_cut (Cut.pieces _ _), fun hrevalued hvariable piece hmem hbrace => ?_⟩
    have hnew : '\x7d' ∉ "var(".toList ++ fontVariable ++ [')'] := by simp [hvariable]
    -- New values keep the number of closing braces; what is read as a value takes its own away.
    have hkept := hrevalued.count_eq hnew
    have hlost := count_flatMap_text (pieces "--font-sans".toList stylesheet) hnew
    rw [flatMap_text_pieces, ← hkept, setProperty, left_eq_add, List.count_eq_zero] at hlost
    exact hlost (List.mem_flatMap.mpr ⟨piece, hmem, hbrace⟩)
  next => cases h

/-- A declaration of another property may well end its block without a semicolon. -/
theorem applyFontVariable_revalued_other_open :
    applyFontVariable "--font-inter".toList
        ".a \x7b --my-font-sans: x\x7d :root \x7b --font-sans: x, y; \x7d".toList =
      .ok ".a \x7b --my-font-sans: x\x7d :root \x7b --font-sans: var(--font-inter); \x7d".toList ∧
    Revalued "--font-sans".toList ("var(".toList ++ "--font-inter".toList ++ [')']) true
      ".a \x7b --my-font-sans: x\x7d :root \x7b --font-sans: x, y; \x7d".toList
      ".a \x7b --my-font-sans: x\x7d :root \x7b --font-sans: var(--font-inter); \x7d".toList := by
  -- the characters of both texts are written out, so that no step has to decode them again
  have hbefore : ".a \x7b --my-font-sans: x\x7d :root \x7b --font-sans: x, y; \x7d".toList = _ :=
    String.toList_ofList
  have hafter :
      ".a \x7b --my-font-sans: x\x7d :root \x7b --font-sans: var(--font-inter); \x7d".toList = _ :=
    String.toList_ofList
  rw [hbefore, hafter]
  refine ⟨?run, (applyFontVariable_revalued ?run).1 (by decide)⟩
  rfl

/-- A declaration without a semicolon takes the end of its block with it. -/
theorem exists_applyFontVariable_not_revalued :
    ∃ fontVariable stylesheet stylesheet' : List Char, '\x7d' ∉ fontVariable ∧
      applyFontVariable fontVariable stylesheet = .ok stylesheet' ∧
        ¬ Revalued "--font-sans".toList ("var(".toList ++ fontVariable ++ [')']) true stylesheet
          stylesheet' := by
  have hbefore : "body \x7b --font-sans: x\x7d\n.a \x7b color: red; \x7d".toList = _ :=
    String.toList_ofList
  have hafter : "body \x7b --font-sans: var(--font-inter); \x7d".toList = _ := String.toList_ofList
  refine ⟨"--font-inter".toList, "body \x7b --font-sans: x\x7d\n.a \x7b color: red; \x7d".toList,
    "body \x7b --font-sans: var(--font-inter); \x7d".toList, by decide, ?_, fun h => ?_⟩
  · rw [hbefore, hafter]
    rfl
  · rw [hbefore, hafter] at h
    exact absurd (h.count_eq (by decide)) (by decide)

end Siteworks.Stylesheet
