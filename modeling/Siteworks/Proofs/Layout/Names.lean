import Mathlib
import Siteworks.Proofs.Layout.Calls

/-!
# Names in lines

A name is used in a text where it is called or has a member read: where it stands whole in front of an
opening parenthesis or a dot. The uses in a text are those in its words, so a reference to a font's
constant uses that constant alone.
-/

namespace Siteworks

namespace Layout

variable {name before after tail text word line binding : List Char} {c : Char}

/-- A character that names are made of. -/
def isNameChar (c : Char) : Bool := Text.isWord c || c = '$'

/-- A character behind a name that calls it or reads a member. -/
def isUseChar (c : Char) : Bool := c = '(' || c = '.'

/-- A text starts with a name that is used. -/
def startsUse (name text : List Char) : Bool :=
  match name.isPrefixOf? text with
  | some (c :: _) => isUseChar c
  | _ => false

/-- A name is used in a text that stands behind a character of a name or not. -/
def usesBehind (behindName : Bool) (name : List Char) : List Char → Bool
  | [] => false
  | c :: rest =>
    (startsUse name (c :: rest) && !behindName) || usesBehind (isNameChar c) name rest

/-- A name is called in a text, or a member of it is read. -/
def uses (name text : List Char) : Bool := usesBehind false name text

/-- A name that there is. -/
structure IsIdentifier (name : List Char) : Prop where
  /-- There is a name. -/
  ne_nil : name ≠ []
  /-- It is made of the characters of names. -/
  isNameChar : ∀ c ∈ name, isNameChar c = true

/-- A text starts with a use of a name if the character behind the name is one of a use. -/
theorem startsUse_iff : startsUse name text = true ↔
    ∃ c after, text = name ++ c :: after ∧ isUseChar c = true := by
  unfold startsUse
  constructor
  · intro h
    split at h
    next c after hprefix => exact ⟨c, after, Text.isPrefixOf?_eq_some_iff.mp hprefix, h⟩
    next => cases h
  · rintro ⟨c, after, rfl, hc⟩
    rw [Text.isPrefixOf?_eq_some_iff.mpr rfl]
    exact hc

/-- A text does not end in the middle of a name. -/
def EndsApart (text : List Char) : Prop := ∀ last ∈ text.getLast?, isNameChar last = false

/-- A text ends apart from names if its tail does. -/
theorem endsApart_append_cons (before : List Char) : EndsApart (before ++ c :: after) ↔
    (after = [] → isNameChar c = false) ∧ EndsApart after := by
  rw [EndsApart, EndsApart, List.getLast?_append_cons]
  cases after with
  | nil => simp
  | cons d after => simp [List.getLast?_cons_cons]

/-- At the start of a text it matters whether a character of a name stands before the text. -/
theorem usesBehind_iff {behindName : Bool} (hname : name ≠ []) :
    usesBehind behindName name text = true ↔
      ∃ before c after, text = before ++ (name ++ c :: after) ∧ isUseChar c = true ∧
        (before = [] → behindName = false) ∧ EndsApart before := by
  induction text generalizing behindName with
  | nil => simp [usesBehind, hname]
  | cons first text ih =>
    rw [usesBehind, Bool.or_eq_true, Bool.and_eq_true, startsUse_iff, ih]
    constructor
    · rintro (⟨⟨c, after, htext, hc⟩, hbehind⟩ | ⟨before, c, after, rfl, hc, hapart⟩)
      · exact ⟨[], c, after, htext, hc, fun _ => by simpa using hbehind, by simp [EndsApart]⟩
      · exact ⟨first :: before, c, after, rfl, hc, by simp,
          (endsApart_append_cons []).mpr hapart⟩
    · rintro ⟨before, c, after, htext, hc, hstart, hapart⟩
      cases before with
      | nil => exact Or.inl ⟨⟨c, after, htext, hc⟩, by rw [hstart rfl]; rfl⟩
      | cons d before =>
        obtain ⟨rfl, rfl⟩ := List.cons.inj htext
        exact Or.inr ⟨before, c, after, rfl, hc, (endsApart_append_cons []).mp hapart⟩

/-- A name is used in a text where a character of a use stands behind it and no character of a name
before it. -/
theorem uses_iff (hname : name ≠ []) : uses name text = true ↔
    ∃ before c after, text = before ++ (name ++ c :: after) ∧ isUseChar c = true ∧
      EndsApart before := by
  rw [uses, usesBehind_iff hname]
  simp

/-- A tail without characters of a use does not matter. -/
theorem uses_append_tail (hname : name ≠ []) (htail : tail.any isUseChar = false) :
    uses name (text ++ tail) = uses name text := by
  rw [Bool.eq_iff_iff, uses_iff hname, uses_iff hname]
  constructor
  · rintro ⟨before, c, after, hcut, hc, hapart⟩
    rw [← List.append_assoc] at hcut
    obtain ⟨between, rfl⟩ := Text.exists_of_append_cons_eq hcut.symm
      fun hmem => List.any_eq_false.mp htail c hmem hc
    exact ⟨before, c, between, by simp, hc, hapart⟩
  · rintro ⟨before, c, after, rfl, hc, hapart⟩
    exact ⟨before, c, after ++ tail, by simp, hc, hapart⟩

/-- A text without characters of a use uses no name. -/
theorem uses_eq_false (hname : name ≠ []) (htext : text.any isUseChar = false) :
    uses name text = false := by
  rw [← List.nil_append text, uses_append_tail hname htext]
  rfl

/-- What stands around a character that is part of no name uses names on its own. -/
theorem uses_append_cons (h : IsIdentifier name) (hc : isNameChar c = false) :
    uses name (before ++ c :: after) = (uses name (before ++ [c]) || uses name after) := by
  have hmem : c ∉ name := fun hmem => by
    rw [h.isNameChar c hmem] at hc
    cases hc
  rw [Bool.eq_iff_iff, Bool.or_eq_true, uses_iff h.ne_nil, uses_iff h.ne_nil, uses_iff h.ne_nil]
  constructor
  · rintro ⟨start, d, rest, hcut, hd, hapart⟩
    rw [← List.append_assoc] at hcut
    -- the character of the use is the one that is cut at, or stands on one side of it
    rcases List.append_eq_append_iff.mp hcut with ⟨between, hused, hrest⟩ | ⟨between, rfl, hrest⟩
    · cases between with
      | nil =>
        obtain ⟨rfl, -⟩ := List.cons.inj hrest
        exact Or.inl ⟨start, _, [], by rw [← List.append_nil before, ← hused]; simp, hd, hapart⟩
      | cons e between =>
        obtain ⟨rfl, rfl⟩ := List.cons.inj hrest
        obtain ⟨gap, rfl⟩ := Text.exists_of_append_cons_eq hused.symm hmem
        obtain rfl : between = gap ++ name := by simpa using hused.symm
        exact Or.inr ⟨gap, d, rest, by simp, hd, ((endsApart_append_cons before).mp hapart).2⟩
    · cases between with
      | nil =>
        obtain ⟨rfl, -⟩ := List.cons.inj hrest
        exact Or.inl ⟨start, _, [], by simp, hd, hapart⟩
      | cons e between =>
        obtain ⟨rfl, rfl⟩ := List.cons.inj hrest
        exact Or.inl ⟨start, d, between ++ [c], by simp, hd, hapart⟩
  · rintro (⟨start, d, rest, hcut, hd, hapart⟩ | ⟨start, d, rest, rfl, hd, hapart⟩)
    · refine ⟨start, d, rest ++ after, ?_, hd, hapart⟩
      rw [List.append_cons, hcut]
      simp
    · exact ⟨before ++ c :: start, d, rest, by simp, hd,
        (endsApart_append_cons before).mpr ⟨fun _ => hc, hapart⟩⟩

/-- A delimiter parts a text. -/
theorem uses_append_delimiter (h : IsIdentifier name) (hc : isNameChar c = false)
    (huse : isUseChar c = false) :
    uses name (before ++ c :: after) = (uses name before || uses name after) := by
  rw [uses_append_cons h hc, uses_append_tail h.ne_nil (by simpa using huse)]

/-- The signs around names in a layout. -/
def signs : List Char := ['(', '.', '=', '\x7b', '\x7d', '\x60', ' ', '\r']

/-- A sign is part of no name. -/
theorem isNameChar_of_mem_signs (hc : c ∈ signs) : isNameChar c = false := by
  have hall : (signs.all fun c => Text.inRanges Text.gapRanges c) = true := by decide
  have hdollar : c ≠ '$' := fun h => absurd (h ▸ hc) (by decide)
  simp [isNameChar, Text.isWord_of_gap (List.all_eq_true.mp hall c hc), hdollar]

/-- A character of a use is part of no name. -/
theorem isNameChar_of_isUseChar (hc : isUseChar c = true) : isNameChar c = false := by
  rcases (by simpa [isUseChar] using hc : c = '(' ∨ c = '.') with rfl | rfl <;>
    exact isNameChar_of_mem_signs (by decide)

/-- In front of a character no name is used but the one that stands there. -/
theorem uses_concat (h : IsIdentifier name) (hword : ∀ d ∈ word, isNameChar d = true)
    (hother : name ≠ word) : uses name (word ++ [c]) = false := by
  rw [← Bool.not_eq_true, uses_iff h.ne_nil]
  rintro ⟨start, d, rest, hcut, hd, hapart⟩
  rcases List.eq_nil_or_concat rest with rfl | ⟨rest, last, rfl⟩
  · rw [← List.append_assoc] at hcut
    obtain rfl : word = start ++ name := (List.append_inj' hcut rfl).1
    rcases List.eq_nil_or_concat start with rfl | ⟨start, e, rfl⟩
    · exact hother rfl
    · rw [List.concat_eq_append] at hword hapart
      exact absurd (hword e (by simp)) (by simpa using hapart e (by simp))
  · -- the character of the use would stand in the word
    have hcut : word ++ [c] = start ++ (name ++ d :: rest) ++ [last] := by simpa using hcut
    obtain rfl : word = start ++ (name ++ d :: rest) := (List.append_inj' hcut rfl).1
    exact absurd (hword d (by simp)) (by simp [isNameChar_of_isUseChar hd])

/-- Letters and digits do not use a name. -/
theorem isUseChar_of_isAlphanum (hc : c.isAlphanum = true) : isUseChar c = false :=
  Text.forall_isAlphanum (P := fun c => isUseChar c = false) (by decide) hc

/-- The characters of words are part of names. -/
theorem isNameChar_of_isWord (hc : Text.isWord c = true) : isNameChar c = true := by
  rw [isNameChar, hc, Bool.true_or]

/-! ## Words -/

/-- White space is part of no name. -/
theorem isNameChar_of_isBlank (hc : Text.isBlank c = true) : isNameChar c = false := by
  have hword := Text.isWord_of_isBlank hc
  have hdollar : c ≠ '$' := fun h => by
    subst h
    exact absurd hc (by decide)
  simp [isNameChar, hword, hdollar]

/-- White space uses no name. -/
theorem isUseChar_of_isBlank (hc : Text.isBlank c = true) : isUseChar c = false := by
  rw [← Bool.not_eq_true]
  intro huse
  rcases (by simpa [isUseChar] using huse : c = '(' ∨ c = '.') with rfl | rfl <;>
    exact absurd hc (by decide)

/-- The uses of a name in a text are those in its words. -/
theorem uses_eq_any_words (h : IsIdentifier name) (text : List Char) :
    uses name text = (Text.words text).any (uses name) :=
  Text.eq_any_runs rfl (fun before c after hc => by
    have hblank : Text.isBlank c = true := by simpa using hc
    exact uses_append_delimiter h (isNameChar_of_isBlank hblank) (isUseChar_of_isBlank hblank)) text

/-- The reference to a constant uses no other name. -/
theorem uses_fontReference (h : IsIdentifier name) (hword : ∀ d ∈ word, isNameChar d = true)
    (hother : name ≠ word) : uses name (fontReference word) = false := by
  have hcut : fontReference word = ['$'] ++ '\x7b' :: (word ++ '.' :: "variable\x7d".toList) := by
    rw [fontReference, List.append_assoc]
    rfl
  have hstart : uses name ['$'] = false := uses_eq_false h.ne_nil (by decide)
  have hend : uses name "variable\x7d".toList = false := uses_eq_false h.ne_nil (by decide)
  rw [hcut, uses_append_delimiter h (isNameChar_of_mem_signs (by decide)) (by decide),
    uses_append_cons h (isNameChar_of_mem_signs (by decide)), hstart, uses_concat h hword hother, hend]
  rfl

/-- The constant that a line begins to declare is a name. -/
theorem isIdentifier_of_factoryBinding? (h : factoryBinding? line = some binding) : IsIdentifier binding := by
  simp only [factoryBinding?, Option.bind_eq_bind, Option.bind_eq_some_iff] at h
  obtain ⟨_, -, _, -, ⟨name, _⟩, hrun, _, -, _, -, _, -, h⟩ := h
  obtain ⟨hne, hword, -⟩ := run?_eq_some hrun
  split at h
  · cases h
    exact ⟨hne, fun c hc => isNameChar_of_isWord (hword c hc)⟩
  · cases h

end Layout

end Siteworks
