import Mathlib
import Siteworks.Proofs.Layout.Places

/-!
# The start tag of the body element

The attribute in which a font is named is looked for on the lines from the one on that opens the body
element, without regard to where the start tag begins and ends. So it is an attribute of the body
element exactly if the start tag has a class attribute at all and none stands in front of the tag on
its line. Otherwise another element is dressed in its place.
-/

namespace Siteworks.Layout

variable {text lead gap ahead rest before value follow : List Char} {above : List Block}

/-! ## Texts that lead into the start tag -/

/-- What opens the body element. -/
def bodyStart : List Char := "<body".toList

/-- The text leads into the start tag of the body element: no `>` follows the first `<body` in it. -/
def InBodyTag (text : List Char) : Prop :=
  ∃ lead gap, text = lead ++ bodyStart ++ gap ∧
    Text.contains bodyStart (lead ++ bodyStart.dropLast) = false ∧ '>' ∉ gap

/-- A beginning of a text in which the body element is opened goes on to behind the place where it is
opened first. -/
theorem isPrefix_of_contains (hfirst : Text.contains bodyStart (lead ++ bodyStart.dropLast) = false)
    (hbegins : text <+: lead ++ bodyStart ++ gap) (hopens : Text.contains bodyStart text = true) :
    lead ++ bodyStart <+: text := by
  rcases List.prefix_or_prefix_of_prefix (List.prefix_append (lead ++ bodyStart) gap) hbegins with
    hbegin | hshort
  · exact hbegin
  · have hcut : lead ++ bodyStart = (lead ++ bodyStart.dropLast) ++ ['y'] := by
      rw [List.append_assoc]
      rfl
    rcases List.prefix_concat_iff.mp (hcut ▸ hshort) with rfl | hshorter
    · exact hcut ▸ List.prefix_refl _
    · rw [Text.contains_iff_isInfix] at hopens
      rw [← Bool.not_eq_true, Text.contains_iff_isInfix] at hfirst
      exact absurd (hopens.trans hshorter.isInfix) hfirst

/-- The body element is opened where it is opened. -/
theorem contains_bodyStart (lead gap : List Char) :
    Text.contains bodyStart (lead ++ bodyStart ++ gap) = true :=
  Text.contains_iff_isInfix.mpr ⟨lead, gap, rfl⟩

/-- A text that leads into the start tag opens the body element. -/
theorem InBodyTag.contains (h : InBodyTag text) : Text.contains bodyStart text = true := by
  obtain ⟨lead, gap, rfl, -⟩ := h
  exact contains_bodyStart lead gap

/-- So does a beginning of such a text lead into the tag, if the body element is opened in it. -/
theorem InBodyTag.of_isPrefix {start : List Char} (h : InBodyTag text) (hbegins : start <+: text)
    (hopens : Text.contains bodyStart start = true) : InBodyTag start := by
  obtain ⟨lead, gap, rfl, hfirst, hgap⟩ := h
  obtain ⟨gap', rfl⟩ := isPrefix_of_contains hfirst hbegins hopens
  obtain ⟨more, hmore⟩ := hbegins
  obtain rfl : gap' ++ more = gap := by simpa using hmore
  exact ⟨lead, gap', rfl, hfirst, fun hmem => hgap (List.mem_append_left _ hmem)⟩

/-- Where the body element is opened first, the start tag goes on to the next `>`. -/
theorem inBodyTag_append_iff
    (hfirst : Text.contains bodyStart (lead ++ bodyStart.dropLast) = false) :
    InBodyTag (lead ++ bodyStart ++ gap) ↔ '>' ∉ gap := by
  refine ⟨?_, fun hgap => ⟨lead, gap, rfl, hfirst, hgap⟩⟩
  rintro ⟨lead', gap', hcut, hfirst', hgap'⟩
  have hopens (lead : List Char) : Text.contains bodyStart (lead ++ bodyStart) = true := by
    simpa using contains_bodyStart lead []
  have hle := isPrefix_of_contains hfirst (hcut ▸ List.prefix_append (lead' ++ bodyStart) gap')
    (hopens lead')
  have hge := isPrefix_of_contains hfirst' (hcut ▸ List.prefix_append (lead ++ bodyStart) gap)
    (hopens lead)
  rw [hle.eq_of_length (le_antisymm hle.length_le hge.length_le), List.append_cancel_left_eq] at hcut
  exact hcut ▸ hgap'

/-! ## Class attributes by the text in front of them -/

/-- The text of some blocks and of what stands before a place on the line below. -/
def textUpTo (above : List Block) (ahead : List Char) : List Char :=
  ['\n'].intercalate (above.flatMap Block.lines ++ [ahead])

/-- A class attribute starts behind a text, on a line of its own block. -/
def StyledBehind (blocks : List Block) (text : List Char) : Prop :=
  ∃ above block below ahead rest, blocks = above ++ block :: below ∧
    block.line? = some (ahead ++ rest) ∧ (classValue? rest).isSome = true ∧
      text = textUpTo above ahead

/-- Joined lines start as lines do that go less far. -/
theorem intercalate_isPrefix (lines : List (List Char)) {line other : List Char}
    (h : line <+: other) (more : List (List Char)) :
    ['\n'].intercalate (lines ++ [line]) <+: ['\n'].intercalate (lines ++ other :: more) := by
  induction lines with
  | nil =>
    cases more with
    | nil => simpa using h
    | cons next more =>
      rw [List.nil_append, List.nil_append, List.intercalate_singleton, List.intercalate_cons_cons]
      exact h.trans (by rw [List.append_assoc]; exact List.prefix_append _ _)
  | cons first lines ih =>
    obtain ⟨next, rest, hrest⟩ := List.exists_cons_of_ne_nil (show lines ++ [line] ≠ [] by simp)
    obtain ⟨next', rest', hrest'⟩ := List.exists_cons_of_ne_nil
      (show lines ++ other :: more ≠ [] by simp)
    rw [List.cons_append, List.cons_append, hrest, hrest', List.intercalate_cons_cons,
      List.intercalate_cons_cons, ← hrest, ← hrest']
    exact List.prefix_append_right_inj _ |>.mpr ih

/-- On a line with a class attribute the first one is found, there or further ahead. -/
theorem exists_classAttribute? (ahead : List Char) (hstart : (classValue? rest).isSome = true) :
    ∃ before value follow, classAttribute? (ahead ++ rest) = some (before, value, follow) ∧
      before <+: ahead := by
  induction ahead with
  | nil =>
    obtain ⟨⟨value, follow⟩, hvalue⟩ := Option.isSome_iff_exists.mp hstart
    obtain ⟨c, tail, rfl⟩ := List.exists_cons_of_ne_nil (show rest ≠ [] by rintro rfl; cases hvalue)
    exact ⟨[], value, follow, by rw [List.nil_append, classAttribute?, hvalue], List.prefix_refl _⟩
  | cons c ahead ih =>
    obtain ⟨before, value, follow, hfound, hbegins⟩ := ih
    rw [List.cons_append, classAttribute?]
    cases hhere : classValue? (c :: (ahead ++ rest)) with
    | some found => exact ⟨[], found.1, found.2, rfl, List.nil_prefix⟩
    | none => exact ⟨c :: before, value, follow, by rw [hfound], List.cons_prefix_cons.mpr ⟨rfl, hbegins⟩⟩

namespace ClassPlace

variable {place : ClassPlace}

/-- The text from the line on that opens the body element, up to the attribute. -/
def upTo (place : ClassPlace) : List Char := textUpTo place.between place.before

/-- The attribute in which a font is named is one of those from the body element on. -/
theorem IsRoot.styledBehind (h : place.IsRoot) : StyledBehind place.fromBody place.upTo := by
  obtain ⟨⟨quoted, hquoted, hline⟩, -⟩ := classAttribute?_eq_some_iff.mp h.found
  refine ⟨place.between, .plain place.line, place.below, place.before, _, rfl, congrArg some hline,
    ?_, rfl⟩
  rw [classValue?_eq_some_iff.mpr ⟨quoted, hquoted, rfl⟩]
  rfl

/-- It is the first one of them. -/
theorem IsRoot.upTo_isPrefix (h : place.IsRoot) (hstyled : StyledBehind place.fromBody text) :
    place.upTo <+: text := by
  obtain ⟨above, block, below, ahead, rest, hcut, hline, hstart, rfl⟩ := hstyled
  obtain ⟨before, value, follow, hfound, hbegins⟩ := exists_classAttribute? ahead hstart
  have hblock : attribute? block = some (before, value, follow) := by
    rw [attribute?, hline]
    exact hfound
  rcases List.append_eq_append_iff.mp hcut with ⟨_ | ⟨first, lower⟩, rfl, hlower⟩ |
    ⟨_ | ⟨first, lower⟩, hbetween, hlower⟩
  · -- the attribute is on the line of the first one
    obtain ⟨hsame, -⟩ := List.cons.inj hlower
    rw [← hsame, attribute?, Block.line?, Option.bind_some, h.found] at hblock
    cases hblock
    rw [upTo, textUpTo, textUpTo, List.append_nil]
    exact intercalate_isPrefix _ hbegins []
  · -- it is below
    obtain ⟨rfl, -⟩ := List.cons.inj hlower
    obtain ⟨⟨quoted, -, hfirst⟩, -⟩ := classAttribute?_eq_some_iff.mp h.found
    rw [upTo, textUpTo, textUpTo, List.flatMap_append, List.append_assoc]
    exact intercalate_isPrefix _ ⟨_, hfirst.symm⟩ _
  · obtain ⟨hsame, -⟩ := List.cons.inj hlower
    rw [List.append_nil] at hbetween
    rw [hsame, attribute?, Block.line?, Option.bind_some, h.found] at hblock
    cases hblock
    rw [upTo, hbetween]
    exact intercalate_isPrefix _ hbegins []
  · -- above there is none
    obtain ⟨rfl, -⟩ := List.cons.inj hlower
    have hnone := h.unstyled block (by rw [hbetween]; simp)
    rw [hblock] at hnone
    cases hnone

end ClassPlace

/-- Naming a font fails for want of something in the layout, or it changes one class attribute. This
one is in the start tag of the body element exactly if some class attribute is, and none starts on
the line of the tag in front of it. -/
theorem setRootClasses_inBodyTag (binding : List Char) (layout : Layout) :
    (∃ fault, layout.setRootClasses binding = .error (.template file fault)) ∨
      ∃ place : ClassPlace, place.IsRoot ∧ place.blocks = layout.blocks ∧
        layout.setRootClasses binding = .ok { layout with blocks := place.named binding } ∧
          (InBodyTag place.upTo ↔
            (∃ text, StyledBehind place.fromBody text ∧ InBodyTag text) ∧
              ∀ text, StyledBehind place.fromBody text → Text.contains bodyStart text = true) := by
  rcases setRootClasses_cases layout with ⟨fault, hfault⟩ | ⟨place, hplace, hblocks, hnamed⟩
  · exact Or.inl ⟨fault, hfault binding⟩
  refine Or.inr ⟨place, hplace, hblocks, hnamed binding, ?_, ?_⟩
  · intro htag
    refine ⟨⟨place.upTo, hplace.styledBehind, htag⟩, fun text hstyled => ?_⟩
    have hopens := htag.contains
    rw [Text.contains_iff_isInfix] at hopens ⊢
    exact hopens.trans (hplace.upTo_isPrefix hstyled).isInfix
  · rintro ⟨⟨text, hstyled, htag⟩, hopens⟩
    exact htag.of_isPrefix (hplace.upTo_isPrefix hstyled) (hopens _ hplace.styledBehind)

/-- A layout in which the body element has no class, and the element inside it has. -/
def bareBody : Layout := parse "<body>\n<div className=\"antialiased\">\n".toList

/-- Without a class attribute in the start tag of the body element, that of another element is
changed. -/
theorem exists_restyled_outside_bodyTag : ∃ (binding : List Char) (layout layout' : Layout),
    layout.setRootClasses binding = .ok layout' ∧ layout' ≠ layout ∧
      (∃ block ∈ layout.blocks.head?, block.isPlain opensBody = true) ∧
        ∀ text, StyledBehind layout.blocks text → ¬ InBodyTag text := by
  refine ⟨"inter".toList, bareBody, ⟨[.plain "<body>".toList,
    .plain "<div className=\x7b\x60$\x7binter.variable\x7d font-sans antialiased\x60\x7d>".toList], true⟩,
    ?_, by decide +kernel, ⟨.plain "<body>".toList, by decide +kernel, by decide +kernel⟩, ?_⟩
  · unfold bareBody
    repeat rw [String.toList_ofList]
    decide +kernel
  have hblocks : bareBody.blocks = [.plain "<body>".toList,
      .plain "<div className=\"antialiased\">".toList] := by decide +kernel
  rintro text ⟨above, block, below, ahead, rest, hcut, hline, hstart, rfl⟩ htag
  rw [hblocks] at hcut
  obtain ⟨before, value, follow, hfound, -⟩ := exists_classAttribute? ahead hstart
  have hblock : attribute? block = some (before, value, follow) := by
    rw [attribute?, hline]
    exact hfound
  cases above with
  | nil =>
    obtain ⟨rfl, -⟩ := List.cons.inj hcut
    exact absurd hblock (by rw [show attribute? (.plain "<body>".toList) = none by decide +kernel]; simp)
  | cons first above =>
    obtain ⟨rfl, hbelow⟩ := List.cons.inj hcut
    have hlast : above = [] := by
      cases above with
      | nil => rfl
      | cons second above =>
        have := congrArg List.length hbelow
        simp at this
    subst hlast
    have htext : textUpTo [.plain "<body>".toList] ahead = [] ++ bodyStart ++ ('>' :: '\n' :: ahead) := by
      simp [textUpTo, Block.lines, bodyStart, List.intercalate_cons_cons]
    rw [htext, inBodyTag_append_iff (by decide +kernel)] at htag
    exact htag List.mem_cons_self

end Siteworks.Layout
