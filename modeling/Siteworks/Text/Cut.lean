/-!
# Finding and cutting

Whether a text occurs in another one, and what a text is put together from when a part of it has
been cut off: a given beginning, or what stands before the first occurrence of a character.
-/

namespace Siteworks.Text

/-- The text has the given one as a contiguous part. -/
def contains (part : List Char) : List Char → Bool
  | [] => part.isEmpty
  | c :: rest => part.isPrefixOf (c :: rest) || contains part rest

/-- Containing a text is having it as an infix. -/
theorem contains_iff_isInfix {part text : List Char} : contains part text ↔ part <:+: text := by
  induction text with
  | nil => simp [contains]
  | cons c rest ih => simp [contains, ih, List.infix_cons_iff]

/-- What is left of a list behind a given beginning completes that beginning to the list. -/
theorem isPrefixOf?_eq_some_iff {α : Type} [BEq α] [LawfulBEq α] {start text rest : List α} :
    start.isPrefixOf? text = some rest ↔ text = start ++ rest := by
  induction start generalizing text with
  | nil =>
    change some text = some rest ↔ _
    simp
  | cons a start ih =>
    cases text with
    | nil =>
      change none = some rest ↔ _
      simp
    | cons b text =>
      change (if a == b then start.isPrefixOf? text else none) = some rest ↔ _
      by_cases h : a = b
      · simp [h, ih]
      · simp [h, Ne.symm h]

/-- A text with a character in it is what stands before the first one, the character, and a rest. -/
theorem exists_eq_takeWhile_append {c : Char} {text : List Char} (mem : c ∈ text) :
    ∃ rest, text = text.takeWhile (· ≠ c) ++ c :: rest := by
  induction text with
  | nil => cases mem
  | cons d text ih =>
    by_cases h : d = c
    · exact ⟨text, by simp [h]⟩
    · obtain ⟨rest, cut⟩ := ih ((List.mem_cons.1 mem).resolve_left fun e => h e.symm)
      exact ⟨rest, by simpa [h] using cut⟩

end Siteworks.Text
