import Mathlib
import Siteworks.Proofs.Slugs
import Siteworks.Proofs.Theme.Fonts

/-!
# Whether a font's names are apart

The identifier of a font joins the words of its name by underscores, the constant runs the words of
the identifier together in lower camel case, and words are cut off at changes of case as well. So all
three names are well-formed for every name that is accepted, and the constant is another name than
the identifier unless the name is in lower camel case already.
-/

namespace Siteworks

namespace Text

/-- Classes that agree on the characters of a text have the same runs in it. -/
theorem runs_congr {inClass inClass' : Char → Bool} {text : List Char}
    (h : ∀ c ∈ text, inClass c = inClass' c) : runs inClass text = runs inClass' text := by
  have hpieces : (text.splitOnP fun c => !inClass c) = text.splitOnP fun c => !inClass' c := by
    induction text with
    | nil => rfl
    | cons c rest ih =>
      obtain ⟨hc, hrest⟩ := List.forall_mem_cons.mp h
      rw [List.splitOnP_cons_eq_if_modifyHead, List.splitOnP_cons_eq_if_modifyHead, hc, ih hrest]
  rw [runs, runs, hpieces]

/-- What is trimmed does not end with a blank character. -/
theorem isBlank_of_mem_getLast?_trim {text : List Char} {c : Char} (h : c ∈ (trim text).getLast?) :
    isBlank c = false := by
  have hlast := List.head?_dropWhile_not isBlank (trimStart text).reverse
  rw [trim, trimEnd, List.getLast?_reverse] at h
  rwa [h] at hlast

end Text

namespace Font

open scoped Computability

/-! ## Letters -/

section Letters

variable {c : Char}

/-- The letters and digits of ASCII in their cases, checked on the codes. -/
private theorem letter_cases (h : c.isAlphanum = true) :
    (c.isLower = true → c.isUpper = false) ∧ (c.toLower = c ↔ c.isUpper = false) ∧
      (c.toUpper = c ↔ c.isLower = false) ∧ (c.isAlpha = true → c.toLower.isAlpha = true) ∧
      Slug.isSlugChar c.toLower = true :=
  Text.forall_isAlphanum (P := fun c => (c.isLower = true → c.isUpper = false) ∧
    (c.toLower = c ↔ c.isUpper = false) ∧ (c.toUpper = c ↔ c.isLower = false) ∧
    (c.isAlpha = true → c.toLower.isAlpha = true) ∧ Slug.isSlugChar c.toLower = true)
    (by decide +kernel) h

/-- No letter is in both cases. -/
theorem isUpper_eq_false_of_isLower (h : c.isLower = true) : c.isUpper = false :=
  (letter_cases (by simp [Char.isAlphanum, Char.isAlpha, h])).1 h

/-- Lower case leaves what is not in upper case. -/
theorem toLower_eq_self_iff (h : c.isAlphanum = true) : c.toLower = c ↔ c.isUpper = false :=
  (letter_cases h).2.1

/-- Upper case leaves what is not in lower case. -/
theorem toUpper_eq_self_iff (h : c.isAlphanum = true) : c.toUpper = c ↔ c.isLower = false :=
  (letter_cases h).2.2.1

/-- A letter stays one in lower case. -/
theorem isAlpha_toLower (h : c.isAlpha = true) : c.toLower.isAlpha = true :=
  (letter_cases (by simp [Char.isAlphanum, h])).2.2.2.1 h

/-- Letters and digits in lower case make up slugs. -/
theorem isSlugChar_toLower (h : c.isAlphanum = true) : Slug.isSlugChar c.toLower = true :=
  (letter_cases h).2.2.2.2

end Letters

namespace LetterCase

variable {state : LetterCase} {c : Char}

/-- A lower-case letter is the last letter. -/
theorem after_of_isLower (h : c.isLower = true) : state.after c = .lower := by
  rw [after, if_pos h]

/-- An upper-case letter is the last letter. -/
theorem after_of_isUpper (h : c.isUpper = true) : state.after c = .upper := by
  have hlower : ¬ c.isLower = true := fun hlower => by simp [isUpper_eq_false_of_isLower hlower] at h
  rw [after, if_neg hlower, if_pos h]

/-- Anything else leaves the last letter. -/
theorem after_of_digit (hlower : c.isLower = false) (hupper : c.isUpper = false) :
    state.after c = state := by
  simp [after, hlower, hupper]

/-- What a lower-case letter is the last letter of does not end with an upper-case one. -/
theorem isUpper_eq_false_of_after (h : state.after c = .lower) : c.isUpper = false := by
  by_contra hupper
  rw [after_of_isUpper (by simpa using hupper)] at h
  cases h

end LetterCase

/-! ## Where words begin -/

variable {last state : LetterCase} {begun text : List Char} {words : List (List Char)}

/-- The first word begins as the text does, and the others begin with an upper-case letter. -/
theorem exists_cutCase (hstate : begun = [] → state = .none) (hne : begun.reverse ++ text ≠ []) :
    ∃ first others, cutCase state begun text = first :: others ∧
      first.head? = (begun.reverse ++ text).head? ∧
      ∀ word ∈ others, ∃ c, word.head? = some c ∧ c.isUpper = true := by
  fun_induction cutCase state begun text with
  | case1 state begun hempty => simp_all
  | case2 state begun hempty => exact ⟨_, [], rfl, by simp, by simp⟩
  | case3 state begun c => exact ⟨_, [], rfl, by simp, by simp⟩
  | case4 state begun c next rest hcut ih =>
    rw [Bool.and_eq_true] at hcut
    obtain ⟨first, others, hwords, hfirst, hothers⟩ := ih (fun _ => rfl) (by simp)
    rw [hwords]
    refine ⟨_, _, rfl, by simp [List.head?_append], List.forall_mem_cons.mpr ⟨?_, hothers⟩⟩
    exact ⟨next, by simpa using hfirst, hcut.2⟩
  | case5 state begun c next rest hstay hcut ih =>
    simp only [Bool.and_eq_true, decide_eq_true_eq] at hcut
    obtain ⟨first, others, hwords, hfirst, hothers⟩ := ih (by simp) (by simp)
    have hbegun : begun ≠ [] := by
      intro hnil
      rw [hstate hnil] at hcut
      cases hcut.1.1
    rw [hwords]
    refine ⟨_, _, rfl, ?_, List.forall_mem_cons.mpr ⟨?_, hothers⟩⟩
    · rw [List.head?_append_of_ne_nil _ (by simpa using hbegun)]
    · exact ⟨c, by simpa using hfirst, hcut.1.2⟩
  | case6 state begun c next rest hstay hstay' ih =>
    obtain ⟨first, others, hwords, hfirst, hothers⟩ := ih (by simp) (by simp)
    exact ⟨first, others, hwords, by simpa using hfirst, hothers⟩

/-- The first word of a run begins as the run does, and the others begin with an upper-case letter. -/
theorem exists_cutCase_run {run : List Char} (hne : run ≠ []) :
    ∃ first others, cutCase .none [] run = first :: others ∧ first.head? = run.head? ∧
      ∀ word ∈ others, ∃ c, word.head? = some c ∧ c.isUpper = true :=
  exists_cutCase (fun _ => rfl) hne

/-- No letter of the word but the first is in upper case. -/
def LowerTail (word : List Char) : Prop := ∀ c ∈ word.tail, c.isUpper = false

/-- A character behind others is in lower case with them. -/
theorem lowerTail_concat {word : List Char} (hne : word ≠ []) (c : Char) :
    LowerTail (word ++ [c]) ↔ LowerTail word ∧ c.isUpper = false := by
  rw [LowerTail, LowerTail, List.tail_append_of_ne_nil hne, List.forall_mem_append,
    List.forall_mem_singleton]

/-- What is not in upper case does not matter. -/
theorem lowerTail_concat_of_lower {c : Char} (hc : c.isUpper = false) (word : List Char) :
    LowerTail (word ++ [c]) ↔ LowerTail word := by
  by_cases hne : word = []
  · simp [hne, LowerTail]
  · rw [lowerTail_concat hne, and_iff_left hc]

/-- Each upper-case letter of the text stands behind one in lower case, digits aside, or in front of
one, where `last` is the case of the last letter in front of the text. -/
def UpperApart (last : LetterCase) : List Char → Prop
  | [] => True
  | c :: rest =>
    (c.isUpper = true → last = .lower ∨ rest.head?.any Char.isLower = true) ∧
      UpperApart (last.after c) rest

/-- A text is told letter by letter. -/
theorem upperApart_cons (last : LetterCase) (c : Char) (rest : List Char) :
    UpperApart last (c :: rest) ↔
      (c.isUpper = true → last = .lower ∨ rest.head?.any Char.isLower = true) ∧
        UpperApart (last.after c) rest := Iff.rfl

/-- What is known while a text that starts with a letter is being cut: `last` is the case of the last
letter that was read, `state` forgets it where a word begins. -/
inductive Cutting (last : LetterCase) : LetterCase → List Char → List Char → Prop
  /-- A word begins with the next letter. -/
  | fresh {text : List Char} (isAlpha : ∀ c ∈ text.head?, c.isAlpha = true)
      (behind : ∀ c ∈ text.head?, c.isUpper = true → last = .lower) : Cutting last .none [] text
  /-- A word has begun, and goes on. -/
  | within {state : LetterCase} {begun text : List Char} (begun_ne_nil : begun ≠ [])
      (known : state = last ∨ text.head?.any Char.isLower = true) (last_ne_none : last ≠ .none)
      (not_cut : last = .lower → ∀ c ∈ text.head?, c.isUpper = false) :
      Cutting last state begun text

/-- Where a letter is read, the state catches up with it. -/
theorem Cutting.after_eq {c : Char} {rest : List Char} (h : Cutting last state begun (c :: rest)) :
    state.after c = last.after c ∧ last.after c ≠ .none := by
  have hletter : c.isAlpha = true → state.after c = last.after c ∧ last.after c ≠ .none := by
    intro hc
    rw [Char.isAlpha, Bool.or_eq_true] at hc
    rcases hc with hc | hc
    · simp [LetterCase.after_of_isUpper hc]
    · simp [LetterCase.after_of_isLower hc]
  cases h with
  | fresh isAlpha behind => exact hletter (isAlpha c rfl)
  | within begun_ne_nil known last_ne_none not_cut =>
    by_cases hc : c.isAlpha = true
    · exact hletter hc
    · simp only [Char.isAlpha, Bool.or_eq_true, not_or, Bool.not_eq_true] at hc
      obtain rfl : state = last := known.resolve_right (by simp [hc.2])
      rw [LetterCase.after_of_digit hc.2 hc.1]
      exact ⟨rfl, last_ne_none⟩

/-- Words that begin with their only upper-case letter are cut from a text whose upper-case letters
are apart. -/
theorem lowerTail_cutCase_iff (h : Cutting last state begun text) :
    (∀ word ∈ cutCase state begun text, LowerTail word) ↔
      LowerTail begun.reverse ∧ UpperApart last text := by
  fun_induction cutCase state begun text generalizing last with
  | case1 state begun hempty =>
    obtain rfl := List.isEmpty_iff.mp hempty
    simp [LowerTail, UpperApart]
  | case2 state begun hempty => simp [UpperApart]
  | case3 state begun c =>
    rw [List.forall_mem_singleton, List.reverse_cons]
    cases h with
    | fresh isAlpha behind =>
      have hbehind := behind c rfl
      simp_all [LowerTail, UpperApart]
    | within begun_ne_nil known last_ne_none not_cut =>
      have hnot_cut : last = .lower → c.isUpper = false := fun hlast => not_cut hlast c rfl
      rw [lowerTail_concat (by simpa using begun_ne_nil)]
      cases hc : c.isUpper <;> simp_all [UpperApart]
  | case4 state begun c next rest hcut ih =>
    rw [Bool.and_eq_true, decide_eq_true_eq] at hcut
    have hnext : Cutting .lower .none [] (next :: rest) := by
      refine .fresh ?_ fun _ _ _ => rfl
      rintro d ⟨⟩
      simp [Char.isAlpha, hcut.2]
    have hc := LetterCase.isUpper_eq_false_of_after hcut.1
    rw [List.forall_mem_cons, ih hnext, List.reverse_cons, lowerTail_concat_of_lower hc,
      upperApart_cons last c, ← h.after_eq.1, hcut.1]
    simp [hc, LowerTail]
  | case5 state begun c next rest hstay hcut ih =>
    simp only [Bool.and_eq_true, decide_eq_true_eq] at hcut
    obtain ⟨⟨rfl, hc⟩, hlower⟩ := hcut
    have hnext : Cutting .upper .none [c] (next :: rest) :=
      .within (by simp) (Or.inr (by simpa using hlower)) (by simp) (by simp)
    rw [List.forall_mem_cons, ih hnext, upperApart_cons last c, ← h.after_eq.1,
      LetterCase.after_of_isUpper hc]
    simp [hlower, LowerTail]
  | case6 state begun c next rest hstay hstay' ih =>
    simp only [Bool.and_eq_true, decide_eq_true_eq, not_and, Bool.not_eq_true] at hstay hstay'
    obtain ⟨hafter, hnone⟩ := h.after_eq
    have hnext : Cutting (last.after c) (state.after c) (c :: begun) (next :: rest) := by
      refine .within (by simp) (Or.inl hafter) hnone fun hlast => ?_
      rintro d ⟨⟩
      exact hstay (hafter.trans hlast)
    rw [ih hnext, List.reverse_cons, upperApart_cons last c, ← and_assoc]
    refine and_congr_left fun _ => ?_
    cases h with
    | fresh isAlpha behind =>
      have hbehind := behind c rfl
      simp_all [LowerTail]
    | within begun_ne_nil known last_ne_none not_cut =>
      rw [lowerTail_concat (by simpa using begun_ne_nil)]
      refine and_congr_right fun _ =>
        ⟨fun hc hupper => absurd hupper (by simp [hc]), fun happlies => ?_⟩
      by_contra hupper
      rw [Bool.not_eq_false] at hupper
      rcases happlies hupper with hlast | hlower
      · exact absurd (not_cut hlast c rfl) (by simp [hupper])
      · -- behind an upper-case letter the word would have been cut off in front of this one
        have hstate : state = last := known.resolve_right fun hhead => by
          simp [isUpper_eq_false_of_isLower (show c.isLower = true by simpa using hhead)] at hupper
        cases last with
        | none => exact last_ne_none rfl
        | lower => exact absurd (not_cut rfl c rfl) (by simp [hupper])
        | upper => exact absurd (hstay' ⟨hstate, hupper⟩) (by simpa using hlower)

/-- The upper-case letters of a text are apart if each is, with what stands around it. -/
theorem upperApart_iff (last : LetterCase) (text : List Char) :
    UpperApart last text ↔ ∀ before c after, text = before ++ c :: after → c.isUpper = true →
      before.foldl LetterCase.after last = .lower ∨ after.head?.any Char.isLower = true := by
  induction text generalizing last with
  | nil => simp [UpperApart]
  | cons d rest ih =>
    rw [upperApart_cons, ih]
    constructor
    · rintro ⟨hfirst, hrest⟩ before c after hsplit hupper
      cases before with
      | nil =>
        obtain ⟨rfl, rfl⟩ := List.cons.inj hsplit
        exact hfirst hupper
      | cons e before =>
        obtain ⟨rfl, hbehind⟩ := List.cons.inj hsplit
        exact hrest before c after hbehind hupper
    · intro h
      exact ⟨fun hupper => h [] d rest rfl hupper,
        fun before c after hsplit hupper => h (d :: before) c after (by rw [hsplit]; rfl) hupper⟩

/-! ## Running words together -/

/-- Characters that a mapping leaves make up a text that it leaves. -/
theorem map_eq_self_iff {f : Char → Char} {text : List Char} :
    text.map f = text ↔ ∀ c ∈ text, f c = c := by
  have h := List.map_eq_map_iff (f := f) (l := text) (g := id)
  rwa [List.map_id] at h

/-- A word that begins with an upper-case letter is left if no other letter of it is in upper case. -/
theorem capitalize_eq_self_iff {word : List Char} (halnum : ∀ c ∈ word, c.isAlphanum = true)
    (hupper : ∃ c, word.head? = some c ∧ c.isUpper = true) :
    capitalize word = word ↔ LowerTail word := by
  obtain ⟨c, hc, hupper⟩ := hupper
  obtain ⟨rest, rfl⟩ := List.head?_eq_some_iff.mp hc
  obtain ⟨hfirst, hrest⟩ := List.forall_mem_cons.mp halnum
  have hkept : c.toUpper = c := by
    refine (toUpper_eq_self_iff hfirst).mpr (Bool.not_eq_true _ ▸ fun hlower => ?_)
    simp [isUpper_eq_false_of_isLower hlower] at hupper
  rw [capitalize, hkept, List.cons_inj_right, map_eq_self_iff, LowerTail, List.tail_cons]
  exact forall₂_congr fun d hd => toLower_eq_self_iff (hrest d hd)

/-- Capitalized words stand for the words they are made of if they are these. -/
theorem flatMap_capitalize_eq_iff (words : List (List Char)) :
    words.flatMap capitalize = words.flatten ↔ ∀ word ∈ words, capitalize word = word := by
  induction words with
  | nil => simp
  | cons word words ih =>
    rw [List.flatMap_cons, List.flatten_cons, List.forall_mem_cons, ← ih]
    constructor
    · intro h
      exact List.append_inj h (by cases word <;> simp [capitalize])
    · rintro ⟨hword, hwords⟩
      rw [hword, hwords]

/-- Words are left as they are when they are run together if the first one has no upper-case letter
and the others have one each, which begins them. -/
theorem camelCase_eq_flatten_iff {first : List Char} {others : List (List Char)}
    (halnum : ∀ word ∈ first :: others, ∀ c ∈ word, c.isAlphanum = true)
    (hothers : ∀ word ∈ others, ∃ c, word.head? = some c ∧ c.isUpper = true) :
    camelCase (first :: others) = (first :: others).flatten ↔
      (∀ c ∈ first.head?, c.isUpper = false) ∧ ∀ word ∈ first :: others, LowerTail word := by
  obtain ⟨hfirst, hrest⟩ := List.forall_mem_cons.mp halnum
  have hparts : camelCase (first :: others) = (first :: others).flatten ↔
      first.map Char.toLower = first ∧ others.flatMap capitalize = others.flatten := by
    rw [camelCase, List.flatten_cons]
    constructor
    · intro h
      exact List.append_inj h (List.length_map _)
    · rintro ⟨hmap, hflat⟩
      rw [hmap, hflat]
  have hlower : (∀ c ∈ first, c.toLower = c) ↔
      (∀ c ∈ first.head?, c.isUpper = false) ∧ LowerTail first := by
    rw [forall₂_congr fun c hc => toLower_eq_self_iff (hfirst c hc)]
    cases first <;> simp [LowerTail]
  rw [hparts, map_eq_self_iff, hlower, flatMap_capitalize_eq_iff, List.forall_mem_cons, and_assoc]
  refine and_congr_right fun _ => and_congr_right fun _ => ?_
  exact forall₂_congr fun word hword => capitalize_eq_self_iff (hrest word hword) (hothers word hword)

/-- A word of letters and digits that begins with a lower-case letter is its own lower camel case if
its upper-case letters are apart. -/
theorem camelCase_cutCase_iff {c : Char} {rest : List Char} (hc : c.isAlpha = true)
    (halnum : ∀ d ∈ c :: rest, d.isAlphanum = true) :
    camelCase (cutCase .none [] (c :: rest)) = c :: rest ↔
      c.isLower = true ∧ UpperApart .none (c :: rest) := by
  obtain ⟨first, others, hwords, hfirst, hothers⟩ :=
    exists_cutCase_run (List.cons_ne_nil c rest)
  have hflatten : (first :: others).flatten = c :: rest := by
    rw [← hwords, flatten_cutCase]
    rfl
  have hword : ∀ word ∈ first :: others, ∀ d ∈ word, d.isAlphanum = true := fun word hword d hd =>
    halnum d (hflatten ▸ List.mem_flatten.mpr ⟨word, hword, hd⟩)
  have hhead : (∀ d ∈ first.head?, d.isUpper = false) ↔ c.isUpper = false := by
    rw [hfirst]
    simp
  have hcamel := camelCase_eq_flatten_iff hword hothers
  rw [hflatten, hhead, ← hwords] at hcamel
  rw [hcamel]
  cases hlower : c.isLower with
  | true =>
    have hupper := isUpper_eq_false_of_isLower hlower
    have hcutting : Cutting .none .none [] (c :: rest) := by
      refine .fresh ?_ ?_
      · rintro d ⟨⟩
        exact hc
      · rintro d ⟨⟩ h
        simp [hupper] at h
    rw [lowerTail_cutCase_iff hcutting]
    simp [hupper, LowerTail]
  | false =>
    have hupper : c.isUpper = true := by simpa [Char.isAlpha, hlower] using hc
    simp [hupper]

/-! ## The names of a font -/

/-- A name in lower camel case. -/
structure IsCamelCase (name : List Char) : Prop where
  /-- It is one word to people. -/
  one_word : ' ' ∉ name
  /-- It begins with a lower-case letter. -/
  begins_lower : name.head?.any Char.isLower = true
  /-- Each upper-case letter stands behind one in lower case, digits aside, or in front of one. -/
  upper_apart : ∀ before c after, name = before ++ c :: after → c.isUpper = true →
    before.foldl LetterCase.after .none = .lower ∨ after.head?.any Char.isLower = true

/-- Texts of the form `[A-Za-z][A-Za-z0-9_]*`. -/
def identifier : Language Char :=
  {text | ∃ first rest, text = first :: rest ∧ first.isAlpha = true ∧
    ∀ c ∈ rest, c.isAlphanum = true ∨ c = '_'}

/-- A text that begins with a letter and goes on with letters, digits and underscores. -/
theorem mem_identifier {text : List Char} {first : Char} (hhead : text.head? = some first)
    (hfirst : first.isAlpha = true) (h : ∀ c ∈ text, c.isAlphanum = true ∨ c = '_') :
    text ∈ identifier := by
  obtain ⟨rest, rfl⟩ := List.head?_eq_some_iff.mp hhead
  exact ⟨first, rest, rfl, hfirst, (List.forall_mem_cons.mp h).2⟩

/-- A text with a given beginning. -/
theorem append_mem_singleton_mul (front : List Char) {text : List Char} {language : Language Char}
    (h : text ∈ language) : front ++ text ∈ {front} * language :=
  Language.append_mem_mul (Set.mem_singleton front) h

section Names

variable {name : List Char}

/-- A name that is accepted begins with a letter, and has letters, digits and spaces. -/
theorem isWellFormed_iff : isWellFormed name = true ↔
    ∃ first rest, name = first :: rest ∧ first.isAlpha = true ∧
      ∀ c ∈ name, c.isAlphanum = true ∨ c = ' ' := by
  cases name with
  | nil => simp [isWellFormed]
  | cons first rest => simp [isWellFormed]

/-- The words of a name that is accepted are its runs of letters and digits. -/
theorem words_eq_runs (h : ∀ c ∈ name, c.isAlphanum = true ∨ c = ' ') :
    Text.words name = Text.runs Char.isAlphanum name := by
  refine Text.runs_congr fun c hc => ?_
  rcases h c hc with halnum | rfl
  · rw [halnum, Text.isBlank_of_isAlphanum halnum]
    rfl
  · decide

/-- The identifier of a name has the words of the name. -/
theorem caseWords_intercalate_runs (name : List Char) :
    caseWords (['_'].intercalate (Text.runs Char.isAlphanum name)) = caseWords name := by
  rw [caseWords, Text.runs_intercalate (by decide) (fun _ => Text.ne_nil_of_mem_runs)
    fun _ hrun _ => Text.inClass_of_mem_runs hrun]
  rfl

/-- The first word of a name begins as the name does. -/
theorem exists_caseWords_cons {first : Char} (hfirst : first.isAlphanum = true) (rest : List Char) :
    ∃ behind others, caseWords (first :: rest) = (first :: behind) :: others := by
  obtain ⟨word, others, hwords, hhead, -⟩ :=
    exists_cutCase_run (List.cons_ne_nil first (rest.takeWhile Char.isAlphanum))
  obtain ⟨behind, rfl⟩ := List.head?_eq_some_iff.mp hhead
  rw [caseWords, Text.runs_cons hfirst, List.flatMap_cons, hwords]
  exact ⟨behind, _, rfl⟩

/-- Words have characters. -/
theorem ne_nil_of_mem_caseWords {word : List Char} (h : word ∈ caseWords name) : word ≠ [] := by
  obtain ⟨run, hrun, hword⟩ := List.mem_flatMap.mp h
  have hne := Text.ne_nil_of_mem_runs hrun
  obtain ⟨first, others, hwords, hfirst, hothers⟩ := exists_cutCase_run hne
  rw [hwords] at hword
  rintro rfl
  rcases List.mem_cons.mp hword with rfl | hword
  · exact hne (List.head?_eq_none_iff.mp hfirst.symm)
  · obtain ⟨c, hc, -⟩ := hothers _ hword
    cases hc

/-- The words in lower case, joined by hyphens, are of the form of a slug. -/
theorem kebabCase_mem_canonical (h : caseWords name ≠ []) :
    kebabCase (caseWords name) ∈ Slug.canonical := by
  refine Slug.mem_canonical_iff.mpr ⟨_, by simpa using h, List.forall_mem_map.mpr ?_, rfl⟩
  intro word hword
  refine ⟨by simpa using ne_nil_of_mem_caseWords hword, List.forall_mem_map.mpr fun c hc => ?_⟩
  exact isSlugChar_toLower (isAlphanum_of_mem_caseWords hword c hc)

/-- A name with a space between visible characters has several words. -/
theorem one_lt_length_runs {first last : Char} (hspace : ' ' ∈ name) (hhead : name.head? = some first)
    (hfirst : first.isAlphanum = true) (hend : name.getLast? = some last)
    (hlast : last.isAlphanum = true) : 1 < (Text.runs Char.isAlphanum name).length := by
  obtain ⟨before, after, rfl⟩ := List.append_of_mem hspace
  have hpos : ∀ {text : List Char} {c : Char}, c ∈ text → c.isAlphanum = true →
      0 < (Text.runs Char.isAlphanum text).length := by
    intro text c hc halnum
    obtain ⟨run, hrun, -⟩ := Text.exists_mem_runs_iff.mpr ⟨hc, halnum⟩
    exact List.length_pos_of_mem hrun
  have hbefore : first ∈ before := by
    cases before with
    | nil =>
      obtain rfl : ' ' = first := by simpa using hhead
      cases hfirst
    | cons c before =>
      obtain rfl : c = first := by simpa using hhead
      exact List.mem_cons_self
  have hafter : last ∈ after := by
    rcases List.eq_nil_or_concat' after with rfl | ⟨init, c, rfl⟩
    · obtain rfl : ' ' = last := by simpa using hend
      cases hlast
    · rw [← List.cons_append, ← List.append_assoc, List.getLast?_concat] at hend
      obtain rfl := Option.some.inj hend
      simp
  rw [Text.runs_append_separator (by decide), List.length_append]
  have := hpos hbefore hfirst
  have := hpos hafter hlast
  omega

/-- The constant is another name than the identifier unless the name is in lower camel case. -/
theorem intercalate_eq_camelCase_iff {first : Char} {rest : List Char} (hfirst : first.isAlpha = true)
    (hname : ∀ c ∈ first :: rest, c.isAlphanum = true ∨ c = ' ')
    (hend : ∀ c ∈ (first :: rest).getLast?, Text.isBlank c = false) :
    ['_'].intercalate (Text.runs Char.isAlphanum (first :: rest)) =
        camelCase (caseWords (first :: rest)) ↔ IsCamelCase (first :: rest) := by
  have hfirst' : first.isAlphanum = true := by simp [Char.isAlphanum, hfirst]
  by_cases hspace : ' ' ∈ first :: rest
  · refine iff_of_false (fun hsame => ?_) fun hcamel => hcamel.one_word hspace
    obtain ⟨last, hlast⟩ := Option.ne_none_iff_exists'.mp
      (List.getLast?_eq_none_iff.not.mpr (List.cons_ne_nil first rest))
    have hlast' : last.isAlphanum = true := by
      refine (hname last (List.mem_of_getLast? hlast)).resolve_right ?_
      rintro rfl
      exact absurd (hend _ hlast) (by decide)
    have hjoined : '_' ∈ ['_'].intercalate (Text.runs Char.isAlphanum (first :: rest)) :=
      Text.mem_intercalate_iff.mpr
        (Or.inl ⟨rfl, one_lt_length_runs hspace rfl hfirst' hlast hlast'⟩)
    rw [hsame] at hjoined
    exact absurd (isAlphanum_of_mem_camelCase (fun _ => isAlphanum_of_mem_caseWords) _ hjoined)
      (by decide)
  · have halnum : ∀ c ∈ first :: rest, c.isAlphanum = true := fun c hc =>
      (hname c hc).resolve_right (ne_of_mem_of_not_mem hc hspace)
    have hruns : Text.runs Char.isAlphanum (first :: rest) = [first :: rest] :=
      Text.runs_eq_singleton (List.cons_ne_nil _ _) halnum
    rw [caseWords, hruns, List.intercalate_singleton, List.flatMap_singleton, eq_comm,
      camelCase_cutCase_iff hfirst halnum, upperApart_iff]
    constructor
    · rintro ⟨hlower, hapart⟩
      exact ⟨hspace, by simpa using hlower, hapart⟩
    · intro hcamel
      exact ⟨by simpa using hcamel.begins_lower, hcamel.upper_apart⟩

end Names

/-- Whatever name is accepted, the identifier and the constant are of the form
`[A-Za-z][A-Za-z0-9_]*`, the variable is of the form `--font-[a-z0-9]+(-[a-z0-9]+)*`, and the import
and the declaration bring the identifier and the constant. These two are different names unless the
name, without white space at its ends, is in lower camel case. -/
theorem names_of_ofName {text : String} {font : Font} (h : ofName text = .ok font) :
    font.name = String.ofList (Text.trim text.toList) ∧
      font.ident.toList ∈ identifier ∧ font.binding.toList ∈ identifier ∧
      font.cssVariable.toList ∈ {"--font-".toList} * Slug.canonical ∧
      font.importLine = "import \x7b " ++ font.ident ++ " \x7d from \"next/font/google\";" ∧
      font.factoryLines.head? = some ("const " ++ font.binding ++ " = " ++ font.ident ++ "(\x7b") ∧
      (font.ident = font.binding ↔ IsCamelCase font.name.toList) := by
  have hend : ∀ c ∈ (Text.trim text.toList).getLast?, Text.isBlank c = false :=
    fun _ => Text.isBlank_of_mem_getLast?_trim
  unfold ofName at h
  simp only at h
  split at h
  next hwell =>
    cases h
    generalize Text.trim text.toList = name at hwell hend ⊢
    obtain ⟨first, rest, rfl, hfirst, hname⟩ := isWellFormed_iff.mp hwell
    have hfirst' : first.isAlphanum = true := by simp [Char.isAlphanum, hfirst]
    obtain ⟨behind, others, hwords⟩ := exists_caseWords_cons hfirst' rest
    have halnum : ∀ c ∈ camelCase (caseWords (first :: rest)), c.isAlphanum = true :=
      isAlphanum_of_mem_camelCase fun _ => isAlphanum_of_mem_caseWords
    rw [words_eq_runs hname, caseWords_intercalate_runs]
    refine ⟨rfl, ?_, ?_, ?_, rfl, rfl, ?_⟩
    · rw [String.toList_ofList]
      refine mem_identifier ?_ hfirst fun c hc => ?_
      · rw [Text.runs_cons hfirst', Text.intercalate_cons]
        rfl
      · rcases Text.mem_intercalate_iff.mp hc with ⟨hc, -⟩ | ⟨run, hrun, hc⟩
        · exact Or.inr hc
        · exact Or.inl (Text.inClass_of_mem_runs hrun hc)
    · rw [String.toList_ofList]
      refine mem_identifier ?_ (isAlpha_toLower hfirst) fun c hc => Or.inl (halnum c hc)
      rw [hwords]
      rfl
    · simpa only [String.toList_ofList] using append_mem_singleton_mul "--font-".toList
        (kebabCase_mem_canonical (by simp [hwords] : caseWords (first :: rest) ≠ []))
    · rw [String.ofList_inj, String.toList_ofList]
      exact intercalate_eq_camelCase_iff hfirst hname hend
  next => cases h

/-- The names of a font of two words. -/
theorem names_of_ofName_playfair : ∃ font, ofName " Playfair Display" = .ok font ∧
    font.ident = "Playfair_Display" ∧ font.binding = "playfairDisplay" ∧
    font.cssVariable = "--font-playfair-display" ∧ font.ident.toList ∈ identifier ∧
    font.binding.toList ∈ identifier ∧
    font.cssVariable.toList ∈ {"--font-".toList} * Slug.canonical ∧
    ¬ IsCamelCase font.name.toList := by
  have hfont : ofName " Playfair Display" = .ok ⟨"Playfair Display", "Playfair_Display",
      "playfairDisplay", "--font-playfair-display"⟩ := by decide +kernel
  obtain ⟨-, hident, hbinding, hvariable, -, -, hsame⟩ := names_of_ofName hfont
  exact ⟨_, hfont, rfl, rfl, rfl, hident, hbinding, hvariable,
    fun hcamel => absurd (hsame.mpr hcamel) (by decide)⟩

/-- The import and the declaration of a font that is named in lower camel case bring one name. -/
theorem exists_ident_eq_binding : ∃ font, ofName "inter" = .ok font ∧
    font.ident = font.binding ∧
    font.importLine = "import \x7b inter \x7d from \"next/font/google\";" ∧
    font.factoryLines.head? = some "const inter = inter(\x7b" :=
  ⟨⟨"inter", "inter", "inter", "--font-inter"⟩, by decide +kernel⟩

end Font

end Siteworks
