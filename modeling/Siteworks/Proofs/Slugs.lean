import Mathlib
import Siteworks.Proofs.Words

/-!
# The form of a slug

A slug joins by hyphens the runs of lower-case ASCII letters and digits in the lower case of a name.
So a text is URL-safe exactly if it is of the form `[a-z0-9]+(-[a-z0-9]+)*`, slugs are slugs of
themselves, and the slug of two names side by side joins their slugs.
-/

namespace Siteworks.Slug

open scoped Computability

/-- The texts of the form `[a-z0-9]+`. -/
def word : Language Char := {text | text ≠ [] ∧ ∀ c ∈ text, isSlugChar c = true}

/-- The texts of the form `[a-z0-9]+(-[a-z0-9]+)*`. -/
def canonical : Language Char := word * ({['-']} * word)∗

/-- A hyphen in front of each of some words. -/
private theorem mem_hyphened_iff {text : List Char} :
    text ∈ (({['-']} : Language Char) * word)∗ ↔
      ∃ parts : List (List Char), (∀ part ∈ parts, part ∈ word) ∧
        text = parts.flatMap ('-' :: ·) := by
  rw [Language.mem_kstar]
  constructor
  · rintro ⟨pieces, rfl, hpieces⟩
    induction pieces with
    | nil => exact ⟨[], fun _ h => absurd h List.not_mem_nil, rfl⟩
    | cons piece pieces ih =>
      obtain ⟨parts, hparts, hjoined⟩ := ih fun y hy => hpieces y (List.mem_cons_of_mem _ hy)
      obtain ⟨hyphen, hhyphen, part, hpart, rfl⟩ :=
        Language.mem_mul.mp (hpieces _ List.mem_cons_self)
      obtain rfl := Set.mem_singleton_iff.mp hhyphen
      exact ⟨part :: parts, List.forall_mem_cons.mpr ⟨hpart, hparts⟩, by simp [hjoined]⟩
  · rintro ⟨parts, hparts, rfl⟩
    refine ⟨parts.map ('-' :: ·), List.flatMap_def, fun piece hpiece => ?_⟩
    obtain ⟨part, hpart, rfl⟩ := List.mem_map.mp hpiece
    exact Language.mem_mul.mpr ⟨['-'], Set.mem_singleton _, part, hparts part hpart, rfl⟩

/-- The texts of that form are words joined by hyphens. -/
theorem mem_canonical_iff {text : List Char} :
    text ∈ canonical ↔ ∃ parts, parts ≠ [] ∧ (∀ part ∈ parts, part ∈ word) ∧
      text = ['-'].intercalate parts := by
  rw [canonical, Language.mem_mul]
  constructor
  · rintro ⟨first, hfirst, behind, hbehind, rfl⟩
    obtain ⟨parts, hparts, rfl⟩ := mem_hyphened_iff.mp hbehind
    exact ⟨first :: parts, List.cons_ne_nil _ _, List.forall_mem_cons.mpr ⟨hfirst, hparts⟩,
      (Text.intercalate_cons _ _ _).symm⟩
  · rintro ⟨parts, hne, hparts, rfl⟩
    obtain ⟨first, parts, rfl⟩ := List.exists_cons_of_ne_nil hne
    obtain ⟨hfirst, hparts⟩ := List.forall_mem_cons.mp hparts
    exact ⟨first, hfirst, _, mem_hyphened_iff.mpr ⟨parts, hparts, rfl⟩,
      (Text.intercalate_cons _ _ _).symm⟩

/-- The runs of slug characters are words. -/
private theorem runs_mem_word (text : List Char) :
    ∀ run ∈ Text.runs isSlugChar text, run ∈ word := fun _ hrun =>
  ⟨Text.ne_nil_of_mem_runs hrun, fun _ hc => Text.inClass_of_mem_runs hrun hc⟩

/-- A slug is empty or of that form. -/
theorem ofChars_mem_canonical {name : List Char} (h : ofChars name ≠ []) :
    ofChars name ∈ canonical := by
  rw [ofChars_eq] at h ⊢
  refine mem_canonical_iff.mpr ⟨_, fun hnil => h ?_, runs_mem_word _, rfl⟩
  rw [hnil]
  rfl

/-- A text of that form is the slug of itself. -/
theorem ofChars_of_mem_canonical {text : List Char} (h : text ∈ canonical) :
    ofChars text = text := by
  obtain ⟨parts, _, hparts, rfl⟩ := mem_canonical_iff.mp h
  have hkept : ∀ c ∈ ['-'].intercalate parts, Text.lowercase c = [c] :=
    (Text.forall_mem_intercalate (Text.lowercase_eq_singleton (Or.inr rfl)) parts).mpr
      fun part hpart c hc => Text.lowercase_eq_singleton (Or.inl ((hparts part hpart).2 c hc))
  rw [ofChars_eq, List.flatMap_congr hkept, List.flatMap_singleton',
    Text.runs_intercalate (by decide) (fun part hpart => (hparts part hpart).1)
      fun part hpart => (hparts part hpart).2]

/-- A text that is the slug of itself is empty or of that form, and the reverse. -/
theorem isUrlSafe_iff_mem_canonical {text : String} :
    isUrlSafe text = true ↔ text.toList ∈ canonical := by
  simp only [isUrlSafe, Bool.and_eq_true, decide_eq_true_eq]
  constructor
  · rintro ⟨hne, hself⟩
    have hslug : ofChars text.toList = text.toList := by
      simpa [ofName] using congrArg String.toList hself
    rw [← hslug]
    refine ofChars_mem_canonical fun hnil => hne ?_
    rw [← hself, ofName, hnil]
  · intro h
    refine ⟨?_, by rw [ofName, ofChars_of_mem_canonical h, String.ofList_toList]⟩
    rintro rfl
    obtain ⟨first, ⟨hne, _⟩, _, _, hjoined⟩ := Language.mem_mul.mp h
    exact hne (List.append_eq_nil_iff.mp hjoined).1

/-- Joining all parts of two sides joins what the sides are joined to, as far as it is not empty. -/
private theorem intercalate_append (sep : Char) {front back : List (List Char)}
    (hfront : [] ∉ front) (hback : [] ∉ back) :
    [sep].intercalate (front ++ back) =
      [sep].intercalate ([[sep].intercalate front, [sep].intercalate back].filter (· ≠ [])) := by
  have hne : ∀ {first : List Char} {parts : List (List Char)}, [] ∉ first :: parts →
      [sep].intercalate (first :: parts) ≠ [] := by
    intro first parts hparts hnil
    rw [Text.intercalate_cons] at hnil
    exact hparts ((List.append_eq_nil_iff.mp hnil).1 ▸ List.mem_cons_self)
  cases front with
  | nil =>
    cases back with
    | nil => rfl
    | cons first parts => simp [hne hback]
  | cons first parts =>
    cases back with
    | nil => simp [hne hfront]
    | cons second others =>
      rw [List.filter_cons_of_pos (by simpa using hne hfront),
        List.filter_cons_of_pos (by simpa using hne hback)]
      simp [Text.intercalate_cons]

/-- The slug of two names with a space between them joins by a hyphen those of their slugs that
are not empty. -/
theorem ofChars_append_space (front back : List Char) :
    ofChars (front ++ ' ' :: back) =
      ['-'].intercalate ([ofChars front, ofChars back].filter (· ≠ [])) := by
  have hspace : (' ' :: back).flatMap Text.lowercase = ' ' :: back.flatMap Text.lowercase := by
    rw [List.flatMap_cons, (Text.lowercase_of_isBlank (by decide)).1, List.singleton_append]
  have hruns : ∀ text : List Char, [] ∉ Text.runs isSlugChar text := fun _ hrun =>
    Text.ne_nil_of_mem_runs hrun rfl
  rw [ofChars_eq, ofChars_eq front, ofChars_eq back, List.flatMap_append, hspace,
    Text.runs_append_separator (by decide), intercalate_append _ (hruns _) (hruns _)]

/-- The slug of a name joins by hyphens the runs of lower-case ASCII letters and digits in its
lower case, so it is empty or of the form `[a-z0-9]+(-[a-z0-9]+)*`, and it is the slug of itself.
The texts of that form are the ones that are URL-safe, and the slug of two names with a space
between them joins by a hyphen those of their slugs that are not empty. -/
theorem ofName_normal_form :
    (∀ name : String,
      (ofName name).toList =
          ['-'].intercalate (Text.runs isSlugChar (name.toList.flatMap Text.lowercase)) ∧
        (ofName name = "" ∨ (ofName name).toList ∈ canonical) ∧
        ofName (ofName name) = ofName name) ∧
      (∀ text : String, isUrlSafe text = true ↔ text.toList ∈ canonical) ∧
      ∀ front back : String, ofName (front ++ " " ++ back) =
        "-".intercalate ([ofName front, ofName back].filter (· ≠ "")) := by
  refine ⟨fun name => ⟨?_, ?_, ?_⟩, fun text => isUrlSafe_iff_mem_canonical, fun front back => ?_⟩
  · rw [ofName, String.toList_ofList, ofChars_eq]
  · by_cases h : ofName name = ""
    · exact Or.inl h
    · exact Or.inr (isUrlSafe_iff_mem_canonical.mp (isUrlSafe_ofName h))
  · rw [ofName, ofName, String.toList_ofList, ofChars_ofChars]
  · refine String.toList_inj.mp ?_
    have hslugs : (([ofName front, ofName back].filter (· ≠ "")).map String.toList) =
        [ofChars front.toList, ofChars back.toList].filter (· ≠ []) := by
      have hempty : ∀ name : String, ofName name = "" ↔ ofChars name.toList = [] :=
        fun name => by simp [ofName]
      simp only [List.filter_cons, List.filter_nil, ne_eq, hempty]
      split_ifs <;> simp [ofName]
    rw [String.toList_intercalate, hslugs, ofName, String.toList_ofList, String.toList_append,
      String.toList_append, List.append_assoc]
    exact ofChars_append_space front.toList back.toList

/-- The lower case of the Kelvin sign is an ASCII letter, that of an accented letter is none. -/
example : ofName "\u212Aunst & Caf\u00E9" = "kunst-caf" := by decide

end Siteworks.Slug
