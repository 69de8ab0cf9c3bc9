import Mathlib
import Siteworks.Font
import Siteworks.Proofs.Words
import Siteworks.Text.Word

/-!
# The names that code knows a font by

Whatever name a font has, its identifier and its constant are words of letters and digits, and its
stylesheet variable has nothing that would end a declaration.
-/

namespace Siteworks

namespace Text

/-- A property of ASCII characters is checked on their codes. -/
theorem forall_isAlphanum {P : Char → Prop}
    (h : ∀ code < 128, (Char.ofNat code).isAlphanum = true → P (Char.ofNat code)) {c : Char}
    (hc : c.isAlphanum = true) : P c := by
  have hlt : c.toNat < 128 := by
    simp only [Char.isAlphanum, Char.isAlpha, Char.isUpper, Char.isLower, Char.isDigit,
      Bool.or_eq_true, Bool.and_eq_true, decide_eq_true_eq, UInt32.le_iff_toNat_le] at hc
    simp at hc
    omega
  exact forall_ascii (P := fun c => c.isAlphanum = true → P c) h hlt hc

/-- What ASCII letters and digits are, and stay in either case. -/
private theorem isAlphanum_kept {c : Char} (h : c.isAlphanum = true) :
    isWord c = true ∧ isBlank c = false ∧ c.toLower.isAlphanum = true ∧
      c.toUpper.isAlphanum = true :=
  forall_isAlphanum (P := fun c => isWord c = true ∧ isBlank c = false ∧
    c.toLower.isAlphanum = true ∧ c.toUpper.isAlphanum = true) (by decide +kernel) h

variable {c : Char}

/-- ASCII letters and digits are word characters. -/
theorem isWord_of_isAlphanum (h : c.isAlphanum = true) : isWord c = true := (isAlphanum_kept h).1

/-- ASCII letters and digits are visible. -/
theorem isBlank_of_isAlphanum (h : c.isAlphanum = true) : isBlank c = false := (isAlphanum_kept h).2.1

/-- ASCII letters and digits stay so in lower case. -/
theorem isAlphanum_toLower (h : c.isAlphanum = true) : c.toLower.isAlphanum = true :=
  (isAlphanum_kept h).2.2.1

/-- ASCII letters and digits stay so in upper case. -/
theorem isAlphanum_toUpper (h : c.isAlphanum = true) : c.toUpper.isAlphanum = true :=
  (isAlphanum_kept h).2.2.2

/-- A character of some ranges lies in no ranges apart from these. -/
theorem inRanges_eq_false {ranges others : List (Nat × Nat)} {c : Char}
    (hapart : (ranges.all fun range => others.all fun other =>
      Nat.blt range.2 other.1 || Nat.blt other.2 range.1) = true)
    (hc : inRanges ranges c = true) : inRanges others c = false := by
  simp only [inRanges, List.any_eq_true, Bool.and_eq_true, decide_eq_true_eq] at hc
  obtain ⟨range, hrange, hlow, hhigh⟩ := hc
  rw [inRanges, List.any_eq_false]
  intro other hother
  have hother' := List.all_eq_true.mp (List.all_eq_true.mp hapart range hrange) other hother
  simp only [Bool.or_eq_true, Nat.blt_eq] at hother'
  simp only [Bool.and_eq_true, decide_eq_true_eq]
  omega

/-- Ranges of code points without word characters: between the digits and letters of ASCII, and around
the blank ones. -/
def gapRanges : List (Nat × Nat) :=
  [(0x0, 0x2f), (0x3a, 0x40), (0x5b, 0x5e), (0x60, 0x60), (0x7b, 0xa9), (0x1680, 0x1680),
    (0x2000, 0x200b), (0x2028, 0x202f), (0x205f, 0x205f), (0x3000, 0x3000)]

/-- A character of these ranges is no word character. -/
theorem isWord_of_gap (h : inRanges gapRanges c = true) : isWord c = false :=
  inRanges_eq_false (by decide +kernel) h

/-- A blank character is no word character. -/
theorem isWord_of_isBlank (h : isBlank c = true) : isWord c = false := by
  refine isWord_of_gap ?_
  simp only [isBlank, gapRanges, inRanges, List.any_cons, List.any_nil, Bool.or_false,
    Bool.or_eq_true, Bool.and_eq_true, decide_eq_true_eq] at h ⊢
  omega

/-- Joining parts brings the separator between them, if there are several, and nothing else. -/
theorem mem_intercalate_iff {sep c : Char} {parts : List (List Char)} :
    c ∈ [sep].intercalate parts ↔ (c = sep ∧ 1 < parts.length) ∨ ∃ part ∈ parts, c ∈ part := by
  induction parts with
  | nil => simp
  | cons part parts ih =>
    cases parts with
    | nil => simp
    | cons next parts =>
      rw [List.intercalate_cons_cons, List.mem_append, List.mem_append, ih]
      simp only [List.length_cons, List.mem_cons, List.not_mem_nil, or_false, exists_eq_or_imp]
      constructor
      · rintro ((h | h) | h | h)
        · exact Or.inr (Or.inl h)
        · exact Or.inl ⟨h, by omega⟩
        · exact Or.inl ⟨h.1, by omega⟩
        · exact Or.inr (Or.inr h)
      · rintro (h | h | h)
        · exact Or.inl (Or.inr h.1)
        · exact Or.inl (Or.inl h)
        · exact Or.inr (Or.inr h)

end Text

namespace Font

/-- Cutting at changes of case loses nothing. -/
theorem flatten_cutCase (state : LetterCase) (begun text : List Char) :
    (cutCase state begun text).flatten = begun.reverse ++ text := by
  fun_induction cutCase state begun text with
  | _ => simp_all

/-- The words of a name hold its letters and digits. -/
theorem flatten_caseWords (name : List Char) :
    (caseWords name).flatten = name.filter Char.isAlphanum := by
  have hcut : ∀ runs : List (List Char),
      (runs.flatMap (cutCase .none [])).flatten = runs.flatten := by
    intro runs
    induction runs with
    | nil => rfl
    | cons run runs ih =>
      rw [List.flatMap_cons, List.flatten_append, flatten_cutCase, ih, List.flatten_cons]
      rfl
  rw [caseWords, hcut, Text.flatten_runs]

/-- The words of a name are made of letters and digits. -/
theorem isAlphanum_of_mem_caseWords {name word : List Char} (hword : word ∈ caseWords name) :
    ∀ c ∈ word, c.isAlphanum = true := by
  intro c hc
  have hmem : c ∈ (caseWords name).flatten := List.mem_flatten.mpr ⟨word, hword, hc⟩
  rw [flatten_caseWords] at hmem
  exact (List.mem_filter.mp hmem).2

/-- Running words together keeps the number of their characters. -/
theorem length_camelCase (words : List (List Char)) :
    (camelCase words).length = words.flatten.length := by
  have hcapitalize : ∀ word : List Char, (capitalize word).length = word.length := by
    intro word
    cases word <;> simp [capitalize]
  cases words with
  | nil => rfl
  | cons first rest =>
    simp [camelCase, List.length_flatMap, List.length_flatten, hcapitalize]

/-- Running words together gives a word. -/
theorem isAlphanum_of_mem_camelCase {words : List (List Char)}
    (h : ∀ word ∈ words, ∀ c ∈ word, c.isAlphanum = true) :
    ∀ c ∈ camelCase words, c.isAlphanum = true := by
  have hcapitalize : ∀ word : List Char, (∀ c ∈ word, c.isAlphanum = true) →
      ∀ c ∈ capitalize word, c.isAlphanum = true := by
    intro word hword c hc
    cases word with
    | nil => cases hc
    | cons first rest =>
      rcases List.mem_cons.mp hc with rfl | hc
      · exact Text.isAlphanum_toUpper (hword first List.mem_cons_self)
      · obtain ⟨d, hd, rfl⟩ := List.mem_map.mp hc
        exact Text.isAlphanum_toLower (hword d (List.mem_cons_of_mem _ hd))
  intro c hc
  cases words with
  | nil => cases hc
  | cons first rest =>
    rcases List.mem_append.mp hc with hc | hc
    · obtain ⟨d, hd, rfl⟩ := List.mem_map.mp hc
      exact Text.isAlphanum_toLower (h first List.mem_cons_self d hd)
    · obtain ⟨word, hword, hc⟩ := List.mem_flatMap.mp hc
      exact hcapitalize word (h word (List.mem_cons_of_mem _ hword)) c hc

/-- A font whose names are fit for code. -/
structure Usable (font : Font) : Prop where
  /-- There is an identifier. -/
  ident_ne_nil : font.ident.toList ≠ []
  /-- The identifier is a word. -/
  ident_word : ∀ c ∈ font.ident.toList, c.isAlphanum = true ∨ c = '_'
  /-- There is a constant. -/
  binding_ne_nil : font.binding.toList ≠ []
  /-- The constant is a word. -/
  binding_word : ∀ c ∈ font.binding.toList, c.isAlphanum = true
  /-- The variable is made of letters, digits and hyphens. -/
  variable_plain : ∀ c ∈ font.cssVariable.toList, c.isAlphanum = true ∨ c = '-'

/-- The names of a font are fit for code. -/
theorem usable_of_ofName {name : String} {font : Font} (h : ofName name = .ok font) :
    font.Usable := by
  unfold ofName at h
  simp only at h
  split at h
  next hwell =>
    cases h
    generalize Text.trim name.toList = text at hwell
    unfold isWellFormed at hwell
    split at hwell
    · cases hwell
    next first rest =>
      rw [Bool.and_eq_true, List.all_eq_true] at hwell
      have hfirst : first.isAlphanum = true := by simp [Char.isAlphanum, hwell.1]
      have hwords : ∀ word ∈ Text.words (first :: rest), ∀ c ∈ word, c.isAlphanum = true := by
        intro word hword c hc
        have hmem := Text.exists_mem_runs_iff.mp ⟨word, hword, hc⟩
        have hchar := hwell.2 c hmem.1
        rw [Bool.or_eq_true, decide_eq_true_eq] at hchar
        refine hchar.resolve_right ?_
        rintro rfl
        exact absurd hmem.2 (by decide)
      have hident : first ∈ ['_'].intercalate (Text.words (first :: rest)) := by
        have hrun : ∃ word ∈ Text.words (first :: rest), first ∈ word :=
          Text.exists_mem_runs_iff.mpr
            ⟨List.mem_cons_self, by rw [Text.isBlank_of_isAlphanum hfirst]; rfl⟩
        obtain ⟨word, hword, hmem⟩ := hrun
        exact Text.mem_intercalate_iff.mpr (Or.inr ⟨word, hword, hmem⟩)
      refine ⟨?_, ?_, ?_, ?_, ?_⟩
      · rw [String.toList_ofList]
        exact List.ne_nil_of_mem hident
      · intro c hc
        rw [String.toList_ofList, Text.mem_intercalate_iff] at hc
        exact hc.elim (fun h => Or.inr h.1) fun ⟨word, hword, h⟩ => Or.inl (hwords word hword c h)
      · intro hnil
        have hlength := length_camelCase (caseWords (['_'].intercalate (Text.words (first :: rest))))
        rw [String.toList_ofList] at hnil
        rw [hnil, flatten_caseWords, List.length_nil, eq_comm, List.length_eq_zero_iff] at hlength
        exact List.not_mem_nil (hlength ▸ List.mem_filter.mpr ⟨hident, hfirst⟩)
      · intro c hc
        rw [String.toList_ofList] at hc
        exact isAlphanum_of_mem_camelCase (fun _ => isAlphanum_of_mem_caseWords) c hc
      · intro c hc
        rw [String.toList_ofList, List.mem_append, kebabCase, Text.mem_intercalate_iff] at hc
        rcases hc with hc | ⟨hc, -⟩ | ⟨part, hpart, hc⟩
        · have hprefix : ∀ c ∈ ['-', '-', 'f', 'o', 'n', 't', '-'],
              c.isAlphanum = true ∨ c = '-' := by simp
          exact hprefix c (by simpa using hc)
        · exact Or.inr hc
        · obtain ⟨word, hword, rfl⟩ := List.mem_map.mp hpart
          obtain ⟨d, hd, rfl⟩ := List.mem_map.mp hc
          exact Or.inl (Text.isAlphanum_toLower (isAlphanum_of_mem_caseWords hword d hd))
  next => cases h

end Font

end Siteworks
