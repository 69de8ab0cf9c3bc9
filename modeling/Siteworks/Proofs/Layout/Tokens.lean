import Mathlib
import Siteworks.Proofs.Layout.Places
import Siteworks.Proofs.Theme.CarriedTexts

/-!
# Classes that are read back

Whatever quotes the class attribute of the body element had, it is written anew in backquotes and
braces, and the classes go into it as they are. They are read back from there exactly if none of them
ends the attribute early, is cut apart at a blank, or closes a quote that was open in front of it.
Then the attribute is found again, and another font can be named in it.
-/

namespace Siteworks.Layout

variable {binding before value follow line part : List Char} {place : ClassPlace}

/-- The classes that are put in an attribute, and those that stay in it, can be read back. -/
structure Rereadable (binding before value : List Char) : Prop where
  /-- The name of the constant has no white space. -/
  visible : ∀ c ∈ binding, Text.isBlank c = false
  /-- It has no backquote. -/
  unquoted : '\x60' ∉ binding
  /-- No class that stays has a backquote. -/
  others_unquoted : ∀ token ∈ otherClasses value, '\x60' ∉ token
  /-- If the name has a quote, none is open in front of the attribute. -/
  closed : '"' ∈ binding → Text.contains "className=\"".toList before = false

/-- A character that no class ever has is in the joined ones if it is in the name of the constant or
in a class that stays. -/
theorem mem_intercalate_rootClasses_iff {c : Char}
    (hc : c ∉ "$\x7b.variable\x7d font-sans antialiased".toList) :
    c ∈ [' '].intercalate (rootClasses binding value) ↔
      c ∈ binding ∨ ∃ token ∈ otherClasses value, c ∈ token := by
  have hchars : "$\x7b.variable\x7d font-sans antialiased".toList =
      "$\x7b".toList ++ (".variable\x7d".toList ++ (' ' :: (fontClass ++ ' ' :: smoothClass))) := by
    decide
  simp only [hchars, List.mem_append, List.mem_cons, not_or] at hc
  obtain ⟨hopen, hclose, hspace, hfont, -, hsmooth⟩ := hc
  have hreference : c ∈ fontReference binding ↔ c ∈ binding := by
    rw [fontReference, List.mem_append, List.mem_append, or_iff_left hclose, or_iff_right hopen]
  rw [Text.mem_intercalate_iff, rootClasses_eq]
  simp [hspace, hreference, hfont, hsmooth, or_and_right, exists_or]

/-- An attribute whose classes can be read back is found where the old one was found. -/
theorem Rereadable.classAttribute?_eq (h : Rereadable binding before value)
    (hfound : classAttribute? line = some (before, value, follow)) :
    classAttribute? (before ++ classAttribute (rootClasses binding value) ++ follow) =
      some (before, [' '].intercalate (rootClasses binding value), follow) := by
  refine classAttribute?_rewritten hfound (fun hmem => ?_) ?_ fun hmem => ?_
  · rcases (mem_intercalate_rootClasses_iff (by decide)).mp hmem with hmem | ⟨token, htoken, hmem⟩
    · exact h.unquoted hmem
    · exact h.others_unquoted token htoken hmem
  · simp [rootClasses, fontReference, List.intercalate_cons_cons]
  · rcases (mem_intercalate_rootClasses_iff (by decide)).mp hmem with hmem | ⟨token, htoken, hmem⟩
    · exact Or.inr (h.closed hmem)
    · have hword := (List.mem_filter.mp htoken).1
      exact Or.inl (Text.exists_mem_runs_iff.mp ⟨token, hword, hmem⟩).1

/-- The name of a class attribute with a quote behind it starts an attribute if another quote
follows. -/
theorem isSome_classValue?_of_quote {rest : List Char} (h : '"' ∈ rest) :
    (classValue? ("className=\"".toList ++ rest)).isSome = true := by
  obtain ⟨tail, htail⟩ := Text.exists_eq_takeWhile_append h
  have hfree : '"' ∉ rest.takeWhile (· ≠ '"') := fun hmem => by simpa using List.mem_takeWhile_imp hmem
  have hcut : "className=\"".toList ++ rest =
      "className=".toList ++ ('"' :: (rest.takeWhile (· ≠ '"') ++ ['"']) ++ tail) := by
    conv_lhs => rw [htail]
    simp
  rw [classValue?_eq_some_iff.mpr ⟨_, .plain hfree, hcut⟩]
  rfl

/-- If the classes are read back from the attribute, then they can be. -/
theorem rereadable_of_reread {value' follow' : List Char}
    (hfound : classAttribute? (before ++ classAttribute (rootClasses binding value) ++ follow) =
      some (before, value', follow'))
    (hwords : Text.words value' = rootClasses binding value) : Rereadable binding before value := by
  obtain ⟨⟨quoted, hquoted, hline⟩, hfirst⟩ := classAttribute?_eq_some_iff.mp hfound
  have hclass : ∀ token ∈ rootClasses binding value, (∀ c ∈ token, Text.isBlank c = false) ∧
      ∀ c ∈ token, c ∈ value' := by
    rw [← hwords]
    refine fun token htoken => ⟨fun c hc => ?_, fun c hc => ?_⟩
    · simpa using Text.inClass_of_mem_runs htoken hc
    · exact (Text.exists_mem_runs_iff.mp ⟨token, htoken, hc⟩).1
  have hbackquote : '\x60' ∉ value' := by
    rw [classAttribute_eq, List.append_assoc, List.append_cancel_left_eq] at hline
    cases hquoted with
    | plain => simp at hline
    | template hnot => exact hnot
  have hreference : ∀ c ∈ binding, c ∈ fontReference binding := fun c hc => by
    simp [fontReference, hc]
  have hfirstClass : fontReference binding ∈ rootClasses binding value := List.mem_cons_self
  refine ⟨fun c hc => (hclass _ hfirstClass).1 c (hreference c hc),
    fun hmem => hbackquote ((hclass _ hfirstClass).2 _ (hreference _ hmem)), fun token htoken hmem => ?_,
    fun hquote => ?_⟩
  · refine hbackquote ((hclass token ?_).2 _ hmem)
    rw [rootClasses_eq]
    simp [htoken]
  · -- the quote in the name would end an attribute that starts further ahead
    rw [← Bool.not_eq_true, Text.contains_iff_isInfix]
    rintro ⟨start, ahead, rfl⟩
    have hnone := hfirst start ("className=\"".toList ++ ahead)
      ("className=\"".toList ++ (ahead ++ classAttribute (rootClasses binding value) ++ follow))
      (by simp) (by simp) (by simp)
    have hin : '"' ∈ [' '].intercalate (rootClasses binding value) :=
      (mem_intercalate_rootClasses_iff (by decide)).mpr (Or.inl hquote)
    have hbehind : '"' ∈ ahead ++ classAttribute (rootClasses binding value) ++ follow := by
      simp [classAttribute_eq, hin]
    have hsome := isSome_classValue?_of_quote hbehind
    rw [hnone] at hsome
    cases hsome

/-- The class of the font family and the one for smooth text are put in once. -/
theorem count_rootClasses (binding value : List Char) :
    (rootClasses binding value).count fontClass = 1 ∧
      (rootClasses binding value).count smoothClass = 1 := by
  have hreference : ∀ token : List Char, token.head? ≠ some '$' → fontReference binding ≠ token := by
    rintro token htoken rfl
    exact htoken rfl
  have hnone : ∀ token, token = fontClass ∨ token = smoothClass → (otherClasses value).count token = 0 := by
    intro token htoken
    rw [List.count_eq_zero]
    intro hmem
    have hkept := (List.mem_filter.mp hmem).2
    rcases htoken with rfl | rfl <;> simp at hkept
  rw [rootClasses_eq]
  simp only [List.count_cons, List.count_append, List.count_nil, hnone _ (Or.inl rfl),
    hnone _ (Or.inr rfl), beq_iff_eq, hreference fontClass (by decide),
    hreference smoothClass (by decide)]
  decide

namespace ClassPlace

/-- The place with a font named in it. -/
def renamed (binding : List Char) (place : ClassPlace) : ClassPlace :=
  { place with
    line := place.newLine binding
    value := [' '].intercalate (rootClasses binding place.value) }

/-- A line still opens the body element if a font is named on it. -/
theorem IsRoot.opensBody_newLine (h : place.IsRoot) (hbinding : ∀ c ∈ binding, Text.isBlank c = false)
    (hopens : opensBody place.line = true) : opensBody (place.newLine binding) = true := by
  obtain ⟨⟨quoted, hquoted, hline⟩, -⟩ := classAttribute?_eq_some_iff.mp h.found
  have hvalue : Text.contains "<body".toList place.value = true →
      Text.contains "<body".toList ([' '].intercalate (rootClasses binding place.value)) = true := by
    rw [marker_body.contains_eq_any_words, marker_body.contains_eq_any_words ([' '].intercalate _),
      words_intercalate_rootClasses_of_visible hbinding, List.any_eq_true, List.any_eq_true]
    rintro ⟨token, hword, hpart⟩
    obtain ⟨hreference, hfont, hsmooth⟩ := marker_body.otherClass_of_contains hpart
    refine ⟨token, ?_, hpart⟩
    rw [rootClasses_eq]
    simp [otherClasses, hword, hreference, hfont, hsmooth]
  have hold : place.line =
      (place.before ++ "className".toList) ++ '=' :: (quoted ++ place.follow) := by simp [hline]
  have hnew : place.newLine binding = (place.before ++ "className".toList) ++ '=' :: '\x7b' :: '\x60' ::
      ([' '].intercalate (rootClasses binding place.value) ++ '\x60' :: '\x7d' :: place.follow) := by
    rw [newLine, classAttribute_eq]
    simp only [List.append_assoc, List.cons_append, List.nil_append]
  rw [opensBody, hold, Text.contains_append_cons (marker_body.apart _ (by simp)),
    marker_body.contains_quoted hquoted, Bool.or_eq_true, Bool.or_eq_true] at hopens
  rw [opensBody, hnew, Text.contains_append_cons (marker_body.apart _ (by simp)),
    marker_body.contains_template, Bool.or_eq_true, Bool.or_eq_true]
  exact hopens.imp_right (Or.imp_left hvalue)

/-- A font is named at the same place again, if its classes can be read back. -/
theorem IsRoot.renamed (h : place.IsRoot) (hread : Rereadable binding place.before place.value) :
    (place.renamed binding).IsRoot := by
  refine ⟨h.not_opened, ?_, h.unstyled, hread.classAttribute?_eq h.found⟩
  obtain ⟨first, hfirst, hopens⟩ := h.opens
  obtain ⟨top, between, line, before, value, follow, below⟩ := place
  cases between with
  | nil =>
    cases hfirst
    exact ⟨_, rfl, h.opensBody_newLine hread.visible hopens⟩
  | cons block between => exact ⟨first, hfirst, hopens⟩

end ClassPlace

/-- Naming a font fails for want of something in the layout, or it changes one class attribute. From
the changed line the attribute is read back at its place, with the classes that were put in and those
of the old ones that stay, exactly if these can be read back. Each class that is put in is there once,
and then any other font can be named too. -/
theorem setRootClasses_reread_iff (binding : List Char) (layout : Layout) :
    (∃ fault, layout.setRootClasses binding = .error (.template file fault)) ∨
      ∃ place : ClassPlace, ∃ layout' : Layout, place.IsRoot ∧ place.blocks = layout.blocks ∧
        layout.setRootClasses binding = .ok layout' ∧
          layout' = { layout with blocks := place.named binding } ∧
            ((∃ value follow, classAttribute? (place.newLine binding) = some (place.before, value, follow) ∧
                Text.words value =
                  fontReference binding :: fontClass :: (otherClasses place.value ++ [smoothClass]) ∧
                (Text.words value).count fontClass = 1 ∧ (Text.words value).count smoothClass = 1 ∧
                ∀ next, ∃ layout'', layout'.setRootClasses next = .ok layout'') ↔
              Rereadable binding place.before place.value) := by
  rcases setRootClasses_cases layout with ⟨fault, hfault⟩ | ⟨place, hplace, hblocks, hnamed⟩
  · exact Or.inl ⟨fault, hfault binding⟩
  refine Or.inr ⟨place, _, hplace, hblocks, hnamed binding, rfl, ?_, fun hread => ?_⟩
  · rintro ⟨value, follow, hfound, hwords, -⟩
    exact rereadable_of_reread hfound hwords
  · have hwords := words_intercalate_rootClasses_of_visible hread.visible place.value
    have hcount := count_rootClasses binding place.value
    refine ⟨_, place.follow, hread.classAttribute?_eq hplace.found, hwords, by rw [hwords, hcount.1],
      by rw [hwords, hcount.2], fun next => ?_⟩
    have hagain : restyleBody next (place.named binding) = .ok ((place.renamed binding).named next) :=
      (hplace.renamed hread).restyleBody_eq next
    have hnext := setRootClasses_eq next { layout with blocks := place.named binding }
    rw [hagain] at hnext
    exact ⟨_, hnext⟩

/-- A layout whose body element has a class with a backquote. -/
def quotingBody : Layout := parse "<body className=\"antialiased before:content-['\x60']\">\n".toList

/-- A class with a backquote ends the new attribute early: it is not found again, and naming a font
fails from then on. -/
theorem exists_setRootClasses_not_reread : ∃ (binding : List Char) (layout layout' : Layout),
    IsConstant binding ∧ layout.setRootClasses binding = .ok layout' ∧
      (∀ block ∈ layout'.blocks, attribute? block = none) ∧
        ∀ next, layout'.setRootClasses next = .error (.template file .noClassAttribute) := by
  have hbinding : IsConstant "inter".toList := ⟨by decide, List.all_eq_true.mp (by decide)⟩
  let line := "<body className=\x7b\x60$\x7binter.variable\x7d font-sans ".toList ++
    "before:content-['\x60'] antialiased\x60\x7d>".toList
  have hopens : (Block.plain line).isPlain opensBody = true := by decide
  have hnone : attribute? (.plain line) = none := Option.isNone_iff_eq_none.mp (by decide)
  refine ⟨"inter".toList, quotingBody, ⟨[.plain line], true⟩, hbinding, by decide,
    by simpa using hnone, fun next => ?_⟩
  rw [setRootClasses_eq, restyleBody, if_pos hopens, restyle, hnone]
  rfl

end Siteworks.Layout
