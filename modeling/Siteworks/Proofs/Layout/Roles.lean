import Mathlib
import Siteworks.Proofs.Layout.Classes

/-!
# The role of a line in a layout

What a layout makes of a line depends on how the line starts, on a few texts that it may hold, and on
whether it begins or ends a call. A line whose class attribute is written anew keeps all of that.
-/

namespace Siteworks

namespace Text

variable {part text before after : List Char} {c : Char}

/-- White space is taken off in front of a visible character only. -/
theorem trimStart_append_cons (h : isBlank c = false) :
    trimStart (before ++ c :: after) = trimStart before ++ c :: after := by
  rw [trimStart, trimStart, List.dropWhile_append]
  split
  next hnil =>
    rw [List.isEmpty_iff.mp hnil, List.nil_append, List.dropWhile_cons, h]
    rfl
  next => rfl

/-- A text without a character starts two texts around that character if it starts the first. -/
theorem isPrefixOf_append_cons (h : c ∉ part) :
    part.isPrefixOf (before ++ c :: after) = part.isPrefixOf before := by
  rw [Bool.eq_iff_iff, List.isPrefixOf_iff_prefix, List.isPrefixOf_iff_prefix]
  constructor
  · rintro ⟨rest, hrest⟩
    rcases List.append_eq_append_iff.mp hrest with ⟨between, rfl, -⟩ | ⟨between, rfl, hgap⟩
    · exact List.prefix_append _ _
    · cases between with
      | nil => simp
      | cons d between =>
        obtain ⟨rfl, -⟩ := List.cons.inj hgap
        exact absurd (List.mem_append_right _ List.mem_cons_self) h
  · exact fun hbefore => hbefore.trans (List.prefix_append _ _)

end Text

namespace Layout

variable {line before value follow quoted text binding part : List Char}

/-- A line that ends a call has no characters but those that do, and white space. -/
theorem mem_of_closesCall (h : closesCall line = true) {c : Char} (hc : c ∈ line)
    (hvisible : Text.isBlank c = false) : c ∈ ['\x7d', ')', ';'] := by
  have hmem := Text.mem_trim hc hvisible
  rwa [of_decide_eq_true h] at hmem

/-- A line with a letter or a digit ends no call. -/
theorem closesCall_eq_false {c : Char} (hc : c ∈ line) (halpha : c.isAlphanum = true) :
    closesCall line = false := by
  rw [← Bool.not_eq_true]
  intro hclose
  have hmem := mem_of_closesCall hclose hc (Text.isBlank_of_isAlphanum halpha)
  simp only [List.mem_cons, List.not_mem_nil, or_false] at hmem
  rcases hmem with rfl | rfl | rfl <;> exact absurd halpha (by decide)

/-- A line that begins a call is made of words, white space, and the signs of a call. -/
theorem mem_of_factoryBinding? (h : factoryBinding? line = some binding) {c : Char}
    (hc : c ∈ line) : Text.isBlank c = true ∨ Text.isWord c = true ∨ c ∈ ['=', '(', '\x7b'] := by
  have htrim : ∀ (text : List Char) (c : Char), c ∈ text → Text.isBlank c = true ∨
      c ∈ Text.trimStart text := by
    intro text c hc
    rw [← List.takeWhile_append_dropWhile (p := Text.isBlank) (l := text)] at hc
    exact (List.mem_append.mp hc).imp_left List.mem_takeWhile_imp
  have hconst : ∀ c ∈ "const".toList, Text.isWord c = true := fun c hc =>
    Text.isWord_of_isAlphanum (List.all_eq_true.mp (by decide) c hc)
  simp only [factoryBinding?, Option.bind_eq_bind, Option.bind_eq_some_iff] at h
  obtain ⟨first, hfirst, ⟨_, second⟩, hsecond, ⟨name, third⟩, hthird, fourth, hfourth,
    ⟨_, fifth⟩, hfifth, sixth, hsixth, h⟩ := h
  obtain ⟨-, hgap, rfl⟩ := run?_eq_some hsecond
  obtain ⟨-, hname, rfl⟩ := run?_eq_some hthird
  obtain ⟨-, hcallee, hfifth⟩ := run?_eq_some hfifth
  simp only [Text.isPrefixOf?_eq_some_iff] at hfirst hfourth hsixth
  split at h
  next hblank =>
    rcases htrim line c hc with hc | hc
    · exact Or.inl hc
    rw [hfirst, List.mem_append, List.mem_append, List.mem_append] at hc
    rcases hc with hc | hc | hc | hc
    · exact Or.inr (Or.inl (hconst c hc))
    · exact Or.inl (hgap c hc)
    · exact Or.inr (Or.inl (hname c hc))
    rcases htrim third c hc with hc | hc
    · exact Or.inl hc
    rw [hfourth, List.mem_append, List.mem_singleton] at hc
    rcases hc with rfl | hc
    · exact Or.inr (Or.inr (by decide))
    rcases htrim fourth c hc with hc | hc
    · exact Or.inl hc
    rw [hfifth, hsixth, List.mem_append, List.mem_append] at hc
    rcases hc with hc | hc | hc
    · exact Or.inr (Or.inl (hcallee c hc))
    · refine Or.inr (Or.inr ?_)
      have hopen : "(\x7b".toList.all fun c => ['=', '(', '\x7b'].contains c := by decide
      exact List.contains_iff_mem.mp (List.all_eq_true.mp hopen c hc)
    · exact Or.inl (List.all_eq_true.mp hblank c hc)
  next => cases h

/-! ## Texts that a line may hold -/

/-- A text that a layout looks for in lines: no blank splits it, no delimiter of a class attribute
either, and no class that is put in or taken out holds it. -/
structure Marker (part : List Char) : Prop where
  /-- It has no white space. -/
  visible : ∀ c ∈ part, Text.isBlank c = false
  /-- It has none of the characters around the value of a class attribute. -/
  apart : ∀ c ∈ ['=', '"', '\x7b', '\x60', '\x7d'], c ∉ part
  /-- It has a character that stands in no reference to a constant. -/
  telling : ∃ c ∈ part, isNaming c = false ∧ Text.isWord c = false

/-- A text is a marker if a check of its characters says so. -/
theorem marker_of_check
    (h : (part.all fun c =>
      !Text.isBlank c && !(['=', '"', '\x7b', '\x60', '\x7d'].contains c)) = true)
    (htelling : (part.any fun c => !isNaming c && Text.inRanges Text.gapRanges c) = true) :
    Marker part := by
  have hall : ∀ c ∈ part, Text.isBlank c = false ∧ c ∉ ['=', '"', '\x7b', '\x60', '\x7d'] := by
    intro c hc
    have := List.all_eq_true.mp h c hc
    rw [Bool.and_eq_true] at this
    exact ⟨by simpa using this.1, by simpa using this.2⟩
  obtain ⟨c, hc, hother⟩ := List.any_eq_true.mp htelling
  rw [Bool.and_eq_true] at hother
  exact ⟨fun c hc => (hall c hc).1, fun c hmem hc => (hall c hc).2 hmem,
    c, hc, by simpa using hother.1, Text.isWord_of_gap hother.2⟩

/-- The module of fonts is a marker. -/
theorem marker_nextFont : Marker "next/font/".toList :=
  marker_of_check (by decide) (by decide)

/-- The variable of a font is a marker. -/
theorem marker_variable : Marker "variable:".toList :=
  marker_of_check (by decide) (by decide)

/-- The subsets of a font are a marker. -/
theorem marker_subsets : Marker "subsets:".toList :=
  marker_of_check (by decide) (by decide)

/-- The display of a font is a marker. -/
theorem marker_display : Marker "display:".toList :=
  marker_of_check (by decide) (by decide)

/-- The body element is a marker. -/
theorem marker_body : Marker "<body".toList :=
  marker_of_check (by decide) (by decide)

namespace Marker

/-- A marker is not empty. -/
theorem ne_nil (h : Marker part) : part ≠ [] := by
  obtain ⟨c, hc, -⟩ := h.telling
  exact List.ne_nil_of_mem hc

/-- A text holds a marker if one of its words does. -/
theorem contains_eq_any_words (h : Marker part) (text : List Char) :
    Text.contains part text = (Text.words text).any (Text.contains part) :=
  Text.contains_eq_any_runs h.ne_nil (fun c hc => by rw [h.visible c hc]; rfl) text

/-- No class that is put in or taken out holds a marker. -/
theorem contains_eq_false (h : Marker part)
    (htext : ∀ c ∈ text, isNaming c = true ∨ Text.isWord c = true) :
    Text.contains part text = false := by
  obtain ⟨c, hc, hnaming, hword⟩ := h.telling
  refine Text.contains_eq_false hc fun hmem => ?_
  rcases htext c hmem with hin | hin
  · rw [hin] at hnaming
    cases hnaming
  · rw [hin] at hword
    cases hword

/-- A class that holds a marker names no font. -/
theorem otherClass_of_contains (h : Marker part) {token : List Char}
    (hpart : Text.contains part token = true) :
    isFontReference token = false ∧ token ≠ fontClass ∧ token ≠ smoothClass := by
  have hput : ∀ token : List Char, token.all isNaming = true → Text.contains part token ≠ true := by
    intro token htoken
    rw [h.contains_eq_false fun c hc => Or.inl (List.all_eq_true.mp htoken c hc)]
    exact Bool.false_ne_true
  refine ⟨?_, ?_, ?_⟩
  · rw [← Bool.not_eq_true]
    intro hreference
    obtain ⟨name, -, hname, rfl⟩ := isFontReference_iff.mp hreference
    have hstart : "$\x7b".toList.all isNaming = true := by decide
    have hend : ".variable\x7d".toList.all isNaming = true := by decide
    refine Bool.false_ne_true ((h.contains_eq_false fun c hc => ?_).symm.trans hpart)
    rw [fontReference, List.mem_append, List.mem_append] at hc
    rcases hc with (hc | hc) | hc
    · exact Or.inl (List.all_eq_true.mp hstart c hc)
    · exact Or.inr (hname c hc)
    · exact Or.inl (List.all_eq_true.mp hend c hc)
  · rintro rfl
    exact hput _ (by decide) hpart
  · rintro rfl
    exact hput _ (by decide) hpart

/-- The classes of the body element hold a marker if the old classes do. -/
theorem contains_intercalate_rootClasses (h : Marker part) (hbinding : IsConstant binding)
    (value : List Char) : Text.contains part ([' '].intercalate (rootClasses binding value)) =
      Text.contains part value := by
  have hfont : fontClass.all isNaming = true := by decide
  have hsmooth : smoothClass.all isNaming = true := by decide
  have hput : ∀ token : List Char, token.all isNaming = true → Text.contains part token = false :=
    fun token htoken => h.contains_eq_false fun c hc => Or.inl (List.all_eq_true.mp htoken c hc)
  have hreference : Text.contains part (fontReference binding) = false :=
    h.contains_eq_false fun c hc => Or.inl (hbinding.isNaming_of_mem hc)
  have hkept : ∀ token, ((!isFontReference token && token ≠ fontClass && token ≠ smoothClass) &&
      Text.contains part token) = Text.contains part token := by
    intro token
    cases hpart : Text.contains part token with
    | false => simp
    | true =>
      obtain ⟨hfontReference, hother⟩ := h.otherClass_of_contains hpart
      simp [hfontReference, hother]
  rw [h.contains_eq_any_words, words_intercalate_rootClasses hbinding, rootClasses,
    h.contains_eq_any_words value]
  simp only [List.any_append, List.any_cons, List.any_nil, List.any_filter, hreference,
    hput _ hfont, hput _ hsmooth, hkept, Bool.or_false, Bool.false_or]

/-- A delimiter in front of a text is passed over in the search for a marker. -/
theorem contains_cons (h : Marker part) {c : Char} (hc : c ∈ ['=', '"', '\x7b', '\x60', '\x7d'])
    (after : List Char) : Text.contains part (c :: after) = Text.contains part after := by
  have hnil : Text.contains part [] = false := by
    rw [Text.contains, List.isEmpty_eq_false_iff]
    exact h.ne_nil
  rw [← List.nil_append (c :: after), Text.contains_append_cons (h.apart c hc), hnil, Bool.false_or]

/-- A marker stands in a value in backquotes and braces, or behind it. -/
theorem contains_template (h : Marker part) (value follow : List Char) :
    Text.contains part ('\x7b' :: '\x60' :: (value ++ '\x60' :: '\x7d' :: follow)) =
      (Text.contains part value || Text.contains part follow) := by
  rw [h.contains_cons (by simp), h.contains_cons (by simp),
    Text.contains_append_cons (h.apart _ (by simp)), h.contains_cons (by simp)]

/-- A marker stands in the value of a class attribute or behind the attribute. -/
theorem contains_quoted (h : Marker part) (hquoted : Quotes quoted value) (follow : List Char) :
    Text.contains part (quoted ++ follow) =
      (Text.contains part value || Text.contains part follow) := by
  cases hquoted with
  | plain =>
    rw [List.cons_append, List.append_assoc, List.singleton_append, h.contains_cons (by simp),
      Text.contains_append_cons (h.apart _ (by simp))]
  | template =>
    rw [← h.contains_template]
    simp

end Marker

/-! ## The role of a line -/

/-- A line is an import that is told apart if it imports types, or imports from the module of
fonts. -/
theorem isSome_importBlock? (line : List Char) : (importBlock? line).isSome =
    ("import type ".toList.isPrefixOf (Text.trimStart line) ||
      ("import ".toList.isPrefixOf (Text.trimStart line) &&
        Text.contains "next/font/".toList (Text.trimStart line))) := by
  simp only [importBlock?]
  generalize "import type ".toList.isPrefixOf (Text.trimStart line) = types
  generalize "import ".toList.isPrefixOf (Text.trimStart line) = imports
  generalize Text.contains "next/font/".toList (Text.trimStart line) = fonts
  cases types <;> cases imports <;> cases fonts <;> rfl

/-- Two lines that a layout treats alike. -/
structure SameRole (line other : List Char) : Prop where
  /-- Both are imports that are told apart, or none. -/
  importBlock : (importBlock? other).isSome = (importBlock? line).isSome
  /-- They begin calls of the same constant, or none. -/
  binding : factoryBinding? other = factoryBinding? line
  /-- Both end a call, or none. -/
  closes : closesCall other = closesCall line
  /-- They hold the same markers. -/
  markers : ∀ part, Marker part → Text.contains part other = Text.contains part line
  /-- Both export the metadata, or none. -/
  metadata : startsMetadata other = startsMetadata line
  /-- Both export the layout function, or none. -/
  layoutFunction : startsLayoutFunction other = startsLayoutFunction line
  /-- Both are empty, or none. -/
  empty : other = [] ↔ line = []
  /-- The second one has no more line breaks. -/
  breaks : ∀ c, c = '\n' ∨ c = '\r' → other.count c ≤ line.count c

/-- A line has its own role. -/
theorem SameRole.rfl : SameRole line line :=
  ⟨.refl _, .refl _, .refl _, fun _ _ => .refl _, .refl _, .refl _, .rfl, fun _ _ => le_rfl⟩

/-- Lines that are the same up to an equals sign have the same role if they hold the same markers
behind it and begin no calls. -/
theorem sameRole_of_tail {start tail other : List Char}
    (hmarkers : ∀ part, Marker part → Text.contains part other = Text.contains part tail)
    (hbreaks : ∀ c, c = '\n' ∨ c = '\r' → other.count c ≤ tail.count c)
    (htail : factoryBinding? (start ++ '=' :: tail) = none)
    (hother : factoryBinding? (start ++ '=' :: other) = none) :
    SameRole (start ++ '=' :: tail) (start ++ '=' :: other) := by
  have hstarts : ∀ (part rest : List Char), '=' ∉ part →
      part.isPrefixOf (Text.trimStart (start ++ '=' :: rest)) =
        part.isPrefixOf (Text.trimStart start) := by
    intro part rest hpart
    rw [Text.trimStart_append_cons (by decide), Text.isPrefixOf_append_cons hpart]
  have hopen : ∀ rest, closesCall (start ++ '=' :: rest) = false := by
    intro rest
    rw [← Bool.not_eq_true]
    intro hclose
    exact absurd (mem_of_closesCall hclose (c := '=') (by simp) (by decide)) (by decide)
  refine ⟨?_, hother.trans htail.symm, by rw [hopen, hopen], ?_, ?_, ?_, by simp, ?_⟩
  · have hnext : ∀ rest, Text.contains "next/font/".toList (Text.trimStart (start ++ '=' :: rest)) =
        (Text.contains "next/font/".toList (Text.trimStart start) ||
          Text.contains "next/font/".toList rest) := by
      intro rest
      rw [Text.trimStart_append_cons (by decide),
        Text.contains_append_cons (marker_nextFont.apart _ (by simp))]
    rw [isSome_importBlock?, isSome_importBlock?, hstarts _ _ (by decide), hstarts _ _ (by decide),
      hstarts _ _ (by decide), hstarts _ _ (by decide), hnext, hnext, hmarkers _ marker_nextFont]
  · intro part hpart
    rw [Text.contains_append_cons (hpart.apart _ (by simp)),
      Text.contains_append_cons (hpart.apart _ (by simp)), hmarkers part hpart]
  · rw [startsMetadata, startsMetadata, hstarts _ _ (by decide), hstarts _ _ (by decide)]
  · rw [startsLayoutFunction, startsLayoutFunction, hstarts _ _ (by decide), hstarts _ _ (by decide)]
  · intro c hc
    rw [List.count_append, List.count_append, List.count_cons, List.count_cons]
    have := hbreaks c hc
    omega

/-- A line with a quote begins no call. -/
theorem factoryBinding?_eq_none {c : Char} (hc : c = '"' ∨ c = '\x60') (hmem : c ∈ line) :
    factoryBinding? line = none := by
  rw [Option.eq_none_iff_forall_ne_some]
  intro name hname
  have hchars := mem_of_factoryBinding? hname hmem
  have hquote : Text.isBlank c = false ∧ Text.inRanges Text.gapRanges c = true ∧
      c ∉ ['=', '(', '\x7b'] := by
    rcases hc with rfl | rfl <;> decide
  simp [hquote.1, Text.isWord_of_gap hquote.2.1, hquote.2.2] at hchars

/-- A line keeps its role if a font is named in its class attribute. -/
theorem sameRole_classAttribute (hbinding : IsConstant binding)
    (h : classAttribute? line = some (before, value, follow)) :
    SameRole line (before ++ classAttribute (rootClasses binding value) ++ follow) := by
  obtain ⟨⟨quoted, hquoted, rfl⟩, -⟩ := classAttribute?_eq_some_iff.mp h
  have hquote : ∃ c, (c = '"' ∨ c = '\x60') ∧ c ∈ quoted := by
    cases hquoted with
    | plain => exact ⟨'"', Or.inl rfl, by simp⟩
    | template => exact ⟨'\x60', Or.inr rfl, by simp⟩
  have hold : before ++ ("className=".toList ++ (quoted ++ follow)) =
      (before ++ "className".toList) ++ '=' :: (quoted ++ follow) := by simp
  have hnew : before ++ classAttribute (rootClasses binding value) ++ follow =
      (before ++ "className".toList) ++ '=' :: '\x7b' :: '\x60' ::
        ([' '].intercalate (rootClasses binding value) ++ '\x60' :: '\x7d' :: follow) := by
    rw [classAttribute_eq]
    simp only [List.append_assoc, List.cons_append, List.nil_append]
  rw [hnew, hold]
  obtain ⟨c, hc, hmem⟩ := hquote
  refine sameRole_of_tail (fun part hpart => ?_) (fun d hd => ?_)
    (factoryBinding?_eq_none hc (by simp [hmem]))
    (factoryBinding?_eq_none (c := '\x60') (Or.inr rfl) (by simp))
  · rw [hpart.contains_quoted hquoted, hpart.contains_template,
      hpart.contains_intercalate_rootClasses hbinding]
  · have hfresh : d ∉ [' '].intercalate (rootClasses binding value) := by
      intro hmem
      rcases Text.mem_intercalate_iff.mp hmem with ⟨rfl, -⟩ | ⟨token, htoken, hin⟩
      · exact absurd hd (by decide)
      · rw [← words_intercalate_rootClasses hbinding] at htoken
        have hvisible := Text.inClass_of_mem_runs htoken hin
        rcases hd with rfl | rfl <;> exact absurd hvisible (by decide)
    have hother : ∀ c : Char, c ∈ ['\x7b', '\x60', '\x7d'] → (c == d) = false := by
      intro c hc
      simp only [List.mem_cons, List.not_mem_nil, or_false] at hc
      rcases hd with rfl | rfl <;> rcases hc with rfl | rfl | rfl <;> rfl
    rw [List.count_cons, List.count_cons, List.count_append, List.count_cons, List.count_cons,
      List.count_eq_zero.mpr hfresh, List.count_append]
    simp [hother]

end Layout

end Siteworks
