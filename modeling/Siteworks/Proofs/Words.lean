import Mathlib
import Siteworks.Slug

/-!
# Runs of characters under joining and letter case

The runs of a text hold exactly its characters of the class, in order, and runs that are joined by
a character of no run are found again. Neither mapping of letter case turns a blank character into
a visible one or the reverse, and lower case keeps ASCII letters and digits that are in it already.
Together these say that a slug is the slug of itself.
-/

namespace Siteworks.Text

/-- Cutting into runs loses only the characters of other classes. -/
theorem flatten_runs (inClass : Char → Bool) (text : List Char) :
    (runs inClass text).flatten = text.filter inClass := by
  have hdrop (pieces : List (List Char)) :
      (pieces.filter fun piece => !piece.isEmpty).flatten = pieces.flatten := by
    induction pieces with
    | nil => rfl
    | cons piece pieces ih => cases piece <;> simp [ih]
  rw [runs, hdrop]
  induction text with
  | nil => rfl
  | cons c rest ih =>
    rw [List.splitOnP_cons_eq_if_modifyHead]
    obtain ⟨first, others, he⟩ :=
      List.exists_cons_of_ne_nil (List.splitOnP_ne_nil (fun c => !inClass c) rest)
    rw [he] at ih ⊢
    cases hc : inClass c <;> simpa [hc] using ih

/-- A character of the class lies in a run. -/
theorem exists_mem_runs_iff {inClass : Char → Bool} {text : List Char} {c : Char} :
    (∃ run ∈ runs inClass text, c ∈ run) ↔ c ∈ text ∧ inClass c = true := by
  rw [← List.mem_flatten, flatten_runs, List.mem_filter]

/-- A run in front of a separator is the first run of the whole. -/
theorem runs_append_cons {inClass : Char → Bool} {run rest : List Char} {sep : Char}
    (hne : run ≠ []) (hrun : ∀ c ∈ run, inClass c = true) (hsep : inClass sep = false) :
    runs inClass (run ++ sep :: rest) = run :: runs inClass rest := by
  rw [runs, List.splitOnP_append_cons _ _ (by simp [hsep]),
    List.splitOnP_eq_singleton (fun c hc => by simp [hrun c hc])]
  simp [runs, hne]

/-- A separator keeps the runs on its sides apart. -/
theorem runs_append_separator {inClass : Char → Bool} {sep : Char} (hsep : inClass sep = false)
    (text rest : List Char) :
    runs inClass (text ++ sep :: rest) = runs inClass text ++ runs inClass rest := by
  rw [runs, List.splitOnP_append_cons _ _ (by simp [hsep]), List.filter_append]
  rfl

/-- A separator in front of a text is in no run. -/
theorem runs_separator_cons {inClass : Char → Bool} {sep : Char} (hsep : inClass sep = false)
    (rest : List Char) : runs inClass (sep :: rest) = runs inClass rest :=
  runs_append_separator hsep [] rest

/-- Characters of other classes in front of a text are in no run. -/
theorem runs_append_left {inClass : Char → Bool} {front : List Char}
    (hfront : ∀ c ∈ front, inClass c = false) (text : List Char) :
    runs inClass (front ++ text) = runs inClass text := by
  induction front with
  | nil => rfl
  | cons c front ih =>
    rw [List.cons_append, runs_separator_cons (hfront c List.mem_cons_self),
      ih fun d hd => hfront d (List.mem_cons_of_mem _ hd)]

/-- Characters of other classes behind a text are in no run. -/
theorem runs_append_right {inClass : Char → Bool} {back : List Char}
    (hback : ∀ c ∈ back, inClass c = false) (text : List Char) :
    runs inClass (text ++ back) = runs inClass text := by
  cases back with
  | nil => rw [List.append_nil]
  | cons c back =>
    have hrest := runs_append_left (fun d hd => hback d (List.mem_cons_of_mem _ hd)) []
    rw [List.append_nil] at hrest
    rw [runs_append_separator (hback c List.mem_cons_self), hrest]
    exact List.append_nil _

/-- A text of one class is its only run. -/
theorem runs_eq_singleton {inClass : Char → Bool} {run : List Char}
    (hne : run ≠ []) (hrun : ∀ c ∈ run, inClass c = true) : runs inClass run = [run] := by
  rw [runs, List.splitOnP_eq_singleton (fun c hc => by simp [hrun c hc])]
  simp [hne]

/-- A character of the class begins the first run. -/
theorem runs_cons {inClass : Char → Bool} {c : Char} (hc : inClass c = true) (rest : List Char) :
    runs inClass (c :: rest) =
      (c :: rest.takeWhile inClass) :: runs inClass (rest.dropWhile inClass) := by
  have hrun : ∀ d ∈ c :: rest.takeWhile inClass, inClass d = true :=
    List.forall_mem_cons.mpr ⟨hc, fun d hd => List.mem_takeWhile_imp hd⟩
  have hwhole : c :: rest = (c :: rest.takeWhile inClass) ++ rest.dropWhile inClass := by
    rw [List.cons_append, List.takeWhile_append_dropWhile]
  rw [hwhole]
  cases hdrop : rest.dropWhile inClass with
  | nil => rw [List.append_nil, runs_eq_singleton (List.cons_ne_nil _ _) hrun]; rfl
  | cons sep behind =>
    have hsep : inClass sep = false := by
      have hhead := List.head?_dropWhile_not inClass rest
      simpa [hdrop] using hhead
    rw [runs_append_cons (List.cons_ne_nil _ _) hrun hsep, runs_separator_cons hsep]

/-- Runs joined by a separator are cut apart again. -/
theorem runs_intercalate {inClass : Char → Bool} {sep : Char} (hsep : inClass sep = false)
    {parts : List (List Char)} (hne : ∀ part ∈ parts, part ≠ [])
    (hpart : ∀ part ∈ parts, ∀ c ∈ part, inClass c = true) :
    runs inClass ([sep].intercalate parts) = parts := by
  induction parts with
  | nil => rfl
  | cons part parts ih =>
    have hfirst := hne part List.mem_cons_self
    have hclass := hpart part List.mem_cons_self
    have hrest := ih (fun p hp => hne p (List.mem_cons_of_mem _ hp))
      (fun p hp => hpart p (List.mem_cons_of_mem _ hp))
    cases parts with
    | nil => rw [List.intercalate_singleton, runs_eq_singleton hfirst hclass]
    | cons next parts =>
      rw [List.intercalate_cons_cons, List.append_assoc, List.singleton_append,
        runs_append_cons hfirst hclass hsep, hrest]

/-- What holds of a separator and of the characters of all parts holds of the joined text. -/
theorem forall_mem_intercalate {P : Char → Prop} {sep : Char} (hsep : P sep)
    (parts : List (List Char)) :
    (∀ c ∈ [sep].intercalate parts, P c) ↔ ∀ part ∈ parts, ∀ c ∈ part, P c := by
  induction parts with
  | nil => simp
  | cons part parts ih =>
    cases parts with
    | nil => simp
    | cons next parts =>
      rw [List.intercalate_cons_cons, List.forall_mem_cons, ← ih, List.append_assoc,
        List.forall_mem_append, List.singleton_append, List.forall_mem_cons]
      simp only [hsep, true_and]

/-- Joined texts are the first one, and the others with a separator in front. -/
theorem intercalate_cons (sep : Char) (part : List Char) (parts : List (List Char)) :
    [sep].intercalate (part :: parts) = part ++ parts.flatMap (sep :: ·) := by
  induction parts generalizing part with
  | nil => simp
  | cons next parts ih =>
    rw [List.intercalate_cons_cons, ih, List.flatMap_cons]
    simp

/-- A text is blank if each of its characters is. -/
theorem allBlank_iff {text : List Char} : allBlank text = true ↔ ∀ c ∈ text, isBlank c = true :=
  List.all_eq_true

/-- A visible character is not trimmed off. -/
theorem mem_trim {text : List Char} {c : Char} (hc : c ∈ text) (h : isBlank c = false) : c ∈ trim text := by
  have hdrop : ∀ text : List Char, c ∈ text → c ∈ text.dropWhile isBlank := by
    intro text hc
    rw [← List.takeWhile_append_dropWhile (p := isBlank) (l := text)] at hc
    refine (List.mem_append.mp hc).resolve_left fun htake => ?_
    rw [List.mem_takeWhile_imp htake] at h
    cases h
  rw [trim, trimEnd, List.mem_reverse]
  exact hdrop _ (List.mem_reverse.mpr (hdrop _ hc))

/-- Nothing but blank characters is trimmed off. -/
theorem exists_append_trim (text : List Char) :
    ∃ front back, (∀ c ∈ front, isBlank c = true) ∧ (∀ c ∈ back, isBlank c = true) ∧
      text = front ++ trim text ++ back := by
  refine ⟨text.takeWhile isBlank, ((text.dropWhile isBlank).reverse.takeWhile isBlank).reverse,
    fun c => List.mem_takeWhile_imp, fun c hc => List.mem_takeWhile_imp (List.mem_reverse.mp hc), ?_⟩
  rw [trim, trimEnd, trimStart, List.append_assoc, ← List.reverse_append,
    List.takeWhile_append_dropWhile, List.reverse_reverse, List.takeWhile_append_dropWhile]

/-- The image of a code point lies in the image of a run that covers it. -/
theorem CaseRun.exists_of_image? {table : List CaseRun} {code image : Nat}
    (h : CaseRun.image? table code = some image) :
    ∃ run ∈ table, run.first ≤ code ∧ code ≤ run.last ∧ image = (run.offset + code).toNat := by
  obtain ⟨run, hrun, rfl⟩ := Option.map_eq_some_iff.mp h
  have hcovers := List.find?_some hrun
  simp only [Bool.and_eq_true, decide_eq_true_eq] at hcovers
  exact ⟨run, List.mem_of_find?_eq_some hrun, hcovers.1.1, hcovers.1.2, rfl⟩

/-- A case mapping gives a mapped character of a sequence or a run, or keeps the character. -/
theorem caseMap_cases (table : List CaseRun) (sequences : List (Nat × List Nat)) (c : Char) :
    (∃ codes, (c.toNat, codes) ∈ sequences ∧ caseMap table sequences c = codes.map Char.ofNat) ∨
      (∃ run ∈ table, run.first ≤ c.toNat ∧ c.toNat ≤ run.last ∧
        caseMap table sequences c = [Char.ofNat (run.offset + c.toNat).toNat]) ∨
      caseMap table sequences c = [c] := by
  unfold caseMap
  cases hs : sequences.lookup c.toNat with
  | some codes =>
    obtain ⟨before, after, he, _⟩ := List.lookup_eq_some_iff.mp hs
    exact Or.inl ⟨codes, by simp [he], rfl⟩
  | none =>
    cases hi : CaseRun.image? table c.toNat with
    | none => exact Or.inr (Or.inr rfl)
    | some image =>
      obtain ⟨run, hrun, hfirst, hlast, rfl⟩ := CaseRun.exists_of_image? hi
      exact Or.inr (Or.inl ⟨run, hrun, hfirst, hlast, rfl⟩)

/-- What holds of the codes of ASCII holds of its characters. -/
theorem forall_ascii {P : Char → Prop} (h : ∀ code < 128, P (Char.ofNat code)) {c : Char}
    (hc : c.toNat < 128) : P c := by
  have hcode := h c.toNat hc
  rwa [Char.ofNat_toNat] at hcode

/-- The code points around the blank ones that have no upper or lower case. -/
private def blankSpans : List (Nat × Nat) :=
  [(0x1, 0x40), (0x7b, 0xa0), (0x1680, 0x1680), (0x2000, 0x205f), (0x3000, 0x3000)]

private theorem exists_span_of_isBlank {c : Char} (h : isBlank c = true) :
    ∃ span ∈ blankSpans, span.1 ≤ c.toNat ∧ c.toNat ≤ span.2 := by
  simp only [isBlank, inRanges, List.any_cons, List.any_nil, Bool.or_false, Bool.or_eq_true,
    Bool.and_eq_true, decide_eq_true_eq] at h
  simp only [blankSpans, List.exists_mem_cons_iff, List.not_mem_nil, false_and, exists_false,
    or_false]
  omega

set_option maxRecDepth 4000 in
/-- Neither the code points in the tables of upper case nor their images are blank. -/
private theorem upper_clear :
    (∀ run ∈ upperRuns, ∀ span ∈ blankSpans,
      (run.last < span.1 ∨ span.2 < run.first) ∧
        (run.offset + run.last < span.1 ∨ (span.2 : Int) < run.offset + run.first)) ∧
      ∀ entry ∈ upperSequences, (∀ span ∈ blankSpans, entry.1 < span.1 ∨ span.2 < entry.1) ∧
        ∃ code ∈ entry.2, isBlank (Char.ofNat code) = false := by
  decide

private theorem exists_span_of_isBlank_ofNat {code : Nat} (h : isBlank (Char.ofNat code) = true) :
    ∃ span ∈ blankSpans, 0 < span.1 ∧ span.1 ≤ code ∧ code ≤ span.2 := by
  have hpos : ∀ span ∈ blankSpans, 0 < span.1 := by decide
  by_cases hv : code.isValidChar
  · have hcode : (Char.ofNat code).toNat = code := by simp [Char.ofNat, hv]
    obtain ⟨span, hspan, hin⟩ := exists_span_of_isBlank h
    exact ⟨span, hspan, hpos span hspan, hcode ▸ hin⟩
  · simp [Char.ofNat, hv] at h
    exact absurd h (by decide)

/-- Upper case keeps a blank character blank and a visible one visible. -/
theorem forall_mem_uppercase_isBlank (c : Char) :
    (∀ u ∈ uppercase c, isBlank u = true) ↔ isBlank c = true := by
  rcases caseMap_cases upperRuns upperSequences c with
    ⟨codes, hmem, he⟩ | ⟨run, hrun, hfirst, hlast, he⟩ | he
  · obtain ⟨hkey, code, hcode, hclear⟩ := upper_clear.2 _ hmem
    have hc : isBlank c ≠ true := by
      intro hblank
      obtain ⟨span, hspan, hlow, hhigh⟩ := exists_span_of_isBlank hblank
      have hclear := hkey span hspan
      omega
    have hu : Char.ofNat code ∈ uppercase c := by
      rw [uppercase, he]
      exact List.mem_map_of_mem hcode
    refine iff_of_false (fun h => ?_) hc
    simp [h _ hu] at hclear
  · have hc : isBlank c ≠ true := by
      intro hblank
      obtain ⟨span, hspan, hlow, hhigh⟩ := exists_span_of_isBlank hblank
      have hclear := (upper_clear.1 run hrun span hspan).1
      omega
    have hu : isBlank (Char.ofNat (run.offset + c.toNat).toNat) ≠ true := by
      intro hblank
      obtain ⟨span, hspan, hpos, hlow, hhigh⟩ := exists_span_of_isBlank_ofNat hblank
      have hclear := (upper_clear.1 run hrun span hspan).2
      omega
    simp [uppercase, he, hc, hu]
  · simp [uppercase, he]

/-- The characters of a slug by their code points. -/
theorem isSlugChar_iff {c : Char} : Slug.isSlugChar c = true ↔
    97 ≤ c.toNat ∧ c.toNat ≤ 122 ∨ 48 ≤ c.toNat ∧ c.toNat ≤ 57 := by
  simp only [Slug.isSlugChar, Bool.or_eq_true, Bool.and_eq_true, decide_eq_true_eq, Char.le_def,
    UInt32.le_iff_toNat_le]
  rfl

/-- The characters of a slug are ASCII. -/
theorem toNat_lt_of_isSlugChar {c : Char} (h : Slug.isSlugChar c = true ∨ c = '-') :
    c.toNat < 128 := by
  rcases h with h | rfl
  · rw [isSlugChar_iff] at h
    omega
  · decide

/-- The code points that lower case keeps: of small letters, and around the blank ones. -/
private def keptSpans : List (Nat × Nat) := (0x61, 0x7a) :: blankSpans

set_option maxRecDepth 4000 in
private theorem lower_clear :
    (∀ run ∈ lowerRuns, ∀ span ∈ keptSpans, run.last < span.1 ∨ span.2 < run.first) ∧
      ∀ entry ∈ lowerSequences, ∀ span ∈ keptSpans, entry.1 < span.1 ∨ span.2 < entry.1 := by
  decide

private theorem lowercase_of_span {c : Char}
    (h : ∃ span ∈ keptSpans, span.1 ≤ c.toNat ∧ c.toNat ≤ span.2) : lowercase c = [c] := by
  obtain ⟨span, hspan, hlow, hhigh⟩ := h
  rcases caseMap_cases lowerRuns lowerSequences c with
    ⟨codes, hmem, -⟩ | ⟨run, hrun, hfirst, hlast, -⟩ | he
  · have hclear := lower_clear.2 _ hmem span hspan
    omega
  · have hclear := lower_clear.1 run hrun span hspan
    omega
  · exact he

/-- Lower case keeps the ASCII characters that have no upper case. -/
theorem lowercase_eq_singleton {c : Char} (h : Slug.isSlugChar c = true ∨ c = '-') :
    lowercase c = [c] := by
  have hcode : 97 ≤ c.toNat ∧ c.toNat ≤ 122 ∨ 1 ≤ c.toNat ∧ c.toNat ≤ 64 := by
    rcases h with h | rfl
    · rw [isSlugChar_iff] at h
      omega
    · decide
  rcases hcode with hletter | hsign
  · exact lowercase_of_span ⟨_, List.mem_cons_self, hletter⟩
  · exact lowercase_of_span ⟨_, List.mem_cons_of_mem _ List.mem_cons_self, hsign⟩

/-- Lower case keeps blank characters, and they are none of a slug. -/
theorem lowercase_of_isBlank {c : Char} (h : isBlank c = true) :
    lowercase c = [c] ∧ Slug.isSlugChar c = false := by
  obtain ⟨span, hspan, hin⟩ := exists_span_of_isBlank h
  refine ⟨lowercase_of_span ⟨span, List.mem_cons_of_mem _ hspan, hin⟩, ?_⟩
  simp only [isBlank, inRanges, List.any_cons, List.any_nil, Bool.or_false, Bool.or_eq_true,
    Bool.and_eq_true, decide_eq_true_eq] at h
  rw [← Bool.not_eq_true, isSlugChar_iff]
  omega

end Siteworks.Text

namespace Siteworks.Slug

/-- Behind a part of a slug each run follows a hyphen, the first one once a hyphen is due. -/
theorem scan_true (text : List Char) :
    scan true true text = (Text.runs isSlugChar text).flatMap ('-' :: ·) ∧
      scan true false text = text.takeWhile isSlugChar ++
        (Text.runs isSlugChar (text.dropWhile isSlugChar)).flatMap ('-' :: ·) := by
  induction text with
  | nil => exact ⟨rfl, rfl⟩
  | cons c rest ih =>
    cases hc : isSlugChar c with
    | true => simp [scan, hc, ih, Text.runs_cons hc]
    | false => simp [scan, hc, ih, Text.runs_separator_cons hc]

/-- The first run is written without a hyphen. -/
theorem scan_false (due : Bool) (text : List Char) :
    scan false due text = ['-'].intercalate (Text.runs isSlugChar text) := by
  induction text generalizing due with
  | nil => rfl
  | cons c rest ih =>
    cases hc : isSlugChar c with
    | true => simp [scan, hc, scan_true, Text.runs_cons hc, Text.intercalate_cons]
    | false => simp [scan, hc, ih, Text.runs_separator_cons hc]

/-- A slug is made of the runs of slug characters in the lower case of its name, joined by
hyphens. -/
theorem ofChars_eq (name : List Char) :
    ofChars name = ['-'].intercalate (Text.runs isSlugChar (name.flatMap Text.lowercase)) := by
  obtain ⟨front, back, hfront, hback, hname⟩ := Text.exists_append_trim name
  have hblank : ∀ {blank : List Char}, (∀ c ∈ blank, Text.isBlank c = true) →
      ∀ c ∈ blank.flatMap Text.lowercase, isSlugChar c = false := by
    intro blank hall c hc
    obtain ⟨d, hd, hcd⟩ := List.mem_flatMap.mp hc
    obtain ⟨hkept, hnot⟩ := Text.lowercase_of_isBlank (hall d hd)
    rw [hkept] at hcd
    exact List.mem_singleton.mp hcd ▸ hnot
  conv_rhs => rw [hname]
  rw [ofChars, scan_false, List.flatMap_append, List.flatMap_append,
    Text.runs_append_right (hblank hback), Text.runs_append_left (hblank hfront)]

/-- The slug of a slug is that slug. -/
theorem ofChars_ofChars (name : List Char) : ofChars (ofChars name) = ofChars name := by
  have hpart : ∀ part ∈ Text.runs isSlugChar (name.flatMap Text.lowercase), ∀ c ∈ part,
      isSlugChar c = true := fun _ hp _ hc => Text.inClass_of_mem_runs hp hc
  have hkept : ∀ c ∈ ofChars name, Text.lowercase c = [c] := by
    rw [ofChars_eq, Text.forall_mem_intercalate (Text.lowercase_eq_singleton (Or.inr rfl))]
    exact fun part hp c hc => Text.lowercase_eq_singleton (Or.inl (hpart part hp c hc))
  have hlower : (ofChars name).flatMap Text.lowercase = ofChars name := by
    rw [List.flatMap_congr hkept, List.flatMap_singleton']
  rw [ofChars_eq (ofChars name), hlower, ofChars_eq,
    Text.runs_intercalate (by decide) (fun _ hp => Text.ne_nil_of_mem_runs hp) hpart]

/-- What a name leaves in a web address is URL-safe, unless it is nothing. -/
theorem isUrlSafe_ofName {name : String} (h : ofName name ≠ "") : isUrlSafe (ofName name) = true := by
  have hfix : ofName (ofName name) = ofName name := by simp only [ofName, String.toList_ofList,
    ofChars_ofChars]
  simp [isUrlSafe, h, hfix]

/-- A slug consists of lower-case ASCII letters, digits and hyphens. -/
theorem isSlugChar_of_isUrlSafe {slug : String} (h : isUrlSafe slug = true) :
    ∀ c ∈ slug.toList, isSlugChar c = true ∨ c = '-' := by
  simp only [isUrlSafe, Bool.and_eq_true, decide_eq_true_eq] at h
  rw [← h.2, ofName, String.toList_ofList, ofChars_eq, Text.forall_mem_intercalate (Or.inr rfl)]
  exact fun part hp c hc => Or.inl (Text.inClass_of_mem_runs hp hc)

end Siteworks.Slug
