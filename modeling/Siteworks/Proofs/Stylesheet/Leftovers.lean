import Mathlib
import Siteworks.Proofs.Stylesheet.LastPalette
import Siteworks.Proofs.Stylesheet.Occurrences

/-!
# What is left of old values

A font is put into a stylesheet as a whole and a palette into the bodies of two blocks. Afterwards the
declarations show the new values exactly if those that are missed do so already. In particular they do
wherever a semicolon closes each declaration and something stands between that and the next one, as it
does on lines of their own.
-/

namespace Siteworks.Stylesheet

open Text (isBlank StartsFull)

variable {name value : List Char} {segments : List (List Char)} {last : List Char} {palette : Palette}
  {color foreground : Oklch} {body stylesheet stylesheet' : List Char}

/-- Nothing is missed where no two declarations have only a semicolon between them, and none stands
behind the last semicolon. -/
theorem missedShow_of_isChain {text : List Char} (hname : IsName name)
    (segments : List (List Char)) (last : List Char) (htext : text = closedText segments last)
    (hsegments : ∀ segment ∈ segments, ';' ∉ segment) (hlast : ';' ∉ last) (hcolon : ':' ∉ last)
    (hchain : segments.IsChain fun segment next =>
      found? name true segment = none ∨ head? name next = none) :
    MissedShow name value text := by
  rw [htext]
  refine (missedShow_closedText_iff hname hsegments hlast).mpr ⟨?_, ?_⟩
  · intro k found next hfound hnext rest hdeclared
    obtain ⟨fresh, segment, hsegment, hdeclares⟩ := exists_found?_of_marks hfound
    obtain ⟨⟨space, hcut, hspace⟩, -⟩ := hdeclared
    obtain ⟨head, hhead⟩ := exists_head?_iff.mpr ⟨space, rest, hcut, hspace⟩
    obtain ⟨hk, rfl⟩ := List.getElem?_eq_some_iff.mp hnext
    obtain ⟨_, rfl⟩ := List.getElem?_eq_some_iff.mp hsegment
    rcases hchain.getElem k hk with hnone | hnone
    · exact absurd hnone (found?_true_ne_none hdeclares)
    · rw [hnone] at hhead
      cases hhead
  · rintro start rest ⟨⟨space, rfl, -⟩, -⟩
    exact absurd (by simp) hcolon

/-- A text up to a closing parenthesis is not trimmed if it does not start with white space. -/
theorem trim_closed {front : List Char} (h : StartsFull (front ++ [')'])) :
    Text.trim (front ++ [')']) = front ++ [')'] := by
  refine Text.trim_eq_self h ?_
  rw [List.reverse_append, List.reverse_singleton, List.singleton_append]
  exact .cons (c := ')') (by decide) _

/-! ## Fonts -/

/-- The name of the default font family. -/
theorem isName_fontFamily : IsName "--font-sans".toList :=
  ⟨by decide, by decide, 's', by decide, by decide⟩

/-- A reference to a variable can be given to a property, if its name has no sign of a stylesheet. -/
theorem isValue_reference {fontVariable : List Char}
    (h : ∀ c ∈ [':', ';', '\x7b', '\x7d'], c ∉ fontVariable) :
    IsValue ("var(".toList ++ fontVariable ++ [')']) :=
  ⟨.cons (c := 'v') (by decide) _, by simp [h ':'], by simp [h ';'], by simp [h '\x7b'], by simp [h '\x7d']⟩

/-- It has no white space at its ends. -/
theorem trim_reference (fontVariable : List Char) :
    Text.trim ("var(".toList ++ fontVariable ++ [')']) = "var(".toList ++ fontVariable ++ [')'] :=
  trim_closed (.cons (c := 'v') (by decide) _)

/-! ## Palettes -/

/-- A colour has no white space at its ends. -/
theorem trim_text (color : Oklch) : Text.trim color.text = color.text := by
  obtain ⟨front, hfront⟩ : ∃ front, color.text = front ++ [')'] := ⟨_, rfl⟩
  have hfull := color.isValue_text.full
  rw [hfront] at hfull ⊢
  exact trim_closed hfull

/-- A body shows a main colour and a colour of text on it in all declarations. -/
structure BodyShows (color foreground : Oklch) (body : List Char) : Prop where
  /-- The main colour is shown. -/
  primary : Shows "--primary".toList color.text body
  /-- So is the colour of text on it. -/
  foreground : Shows "--primary-foreground".toList foreground.text body

/-- What is missed of a body when it is painted shows the colours already. -/
structure BodyMissedShow (color foreground : Oklch) (body : List Char) : Prop where
  /-- What is missed of the main colour shows it. -/
  primary : MissedShow "--primary".toList color.text body
  /-- With the main colour set, what is missed of the colour of text on it shows that. -/
  foreground : MissedShow "--primary-foreground".toList foreground.text
    (setProperty "--primary".toList color.text body)

/-- A painted body shows its colours exactly if what is missed does. -/
theorem bodyShows_paint_iff (color foreground : Oklch) (body : List Char) :
    BodyShows color foreground (paint color foreground body) ↔
      BodyMissedShow color foreground body := by
  have hboth := different_primary.shows_setProperty_setProperty_iff color.isValue_text
    (trim_text color) foreground.isValue_text (trim_text foreground) body
  exact ⟨fun h => ⟨(hboth.mp ⟨h.1, h.2⟩).1, (hboth.mp ⟨h.1, h.2⟩).2⟩,
    fun h => ⟨(hboth.mpr ⟨h.1, h.2⟩).1, (hboth.mpr ⟨h.1, h.2⟩).2⟩⟩

/-- The blocks for light and for dark mode show a palette in all declarations. -/
def ShowsPalette (palette : Palette) (text : List Char) : Prop :=
  ∃ root dark : Scope, scope ":root" text = .ok root ∧ scope ".dark" text = .ok dark ∧
    BodyShows palette.light palette.lightForeground root.body ∧
      BodyShows palette.dark palette.darkForeground dark.body

/-- The bodies in which a palette was put are found again, unless the blocks overlap. -/
theorem exists_scopes_of_applyPalette (h : applyPalette palette stylesheet = .ok stylesheet') :
    ∃ root dark : Scope, ∃ colored, scope ":root" stylesheet = .ok root ∧
      setInScope ":root" (colorProperties palette.light palette.lightForeground) stylesheet =
        .ok colored ∧ scope ".dark" colored = .ok dark ∧
      (root.after ≠ dark.after → ∃ root' dark' : Scope, scope ":root" stylesheet' = .ok root' ∧
        scope ".dark" stylesheet' = .ok dark' ∧
          root'.body = paint palette.light palette.lightForeground root.body ∧
            dark'.body = paint palette.dark palette.darkForeground dark.body) := by
  rw [applyPalette] at h
  cases hcolored : setInScope ":root" (colorProperties palette.light palette.lightForeground) stylesheet with
  | error e => rw [hcolored] at h; cases h
  | ok colored =>
    rw [hcolored] at h
    obtain ⟨root, hroot, rfl⟩ := exists_scope_of_setInScope isSelector_root hcolored
    obtain ⟨dark, hdark, rfl⟩ := exists_scope_of_setInScope isSelector_dark h
    refine ⟨root, dark, _, hroot, rfl, hdark, fun hapart => ?_⟩
    obtain ⟨before, light, after⟩ := root
    obtain ⟨before', night, after'⟩ := dark
    obtain ⟨rfl, hopens, hlight, follow, rfl⟩ := (scope_eq_ok_iff isSelector_root).mp hroot
    obtain ⟨hcut, hopens', hnight, follow', rfl⟩ := (scope_eq_ok_iff isSelector_dark).mp hdark
    have hclosing := closing_not_mem_paint palette.light palette.lightForeground hlight
    have hclosing' := closing_not_mem_paint palette.dark palette.darkForeground hnight
    -- Either block may come first.
    rcases append_eq_append_of_ne hclosing hnight (fun heq => hapart (by rw [heq])) hcut with
      ⟨between, rfl, rfl⟩ | ⟨between, rfl, rfl⟩
    · obtain ⟨hrow, hquiet⟩ := (opens_append_iff isSelector_dark hopens _).mp hopens'
      obtain ⟨hroot', hdark'⟩ := hrow.scopes isSelector_root isSelector_dark hquiet hclosing
        hclosing' follow'
      exact ⟨_, _, by simpa [inPlaces] using hroot', by simpa [inPlaces] using hdark', rfl, rfl⟩
    · obtain ⟨hrow, hquiet⟩ := (opens_append_iff isSelector_root hopens' night).mp hopens
      have hquiet' := quiet_paint isSelector_root palette.dark palette.darkForeground hquiet
      obtain ⟨hdark', hroot'⟩ := hrow.scopes isSelector_dark isSelector_root hquiet' hclosing'
        hclosing follow
      exact ⟨_, _, by simpa [inPlaces] using hroot', by simpa [inPlaces] using hdark', rfl, rfl⟩

/-- A font or a palette that was put into a stylesheet is shown by all declarations there exactly if
those that are missed show it already. No sign of a stylesheet stands in the name of the font's
variable, and the blocks with the palette do not overlap. -/
theorem declarations_show_iff (stylesheet stylesheet' : List Char) :
    (∀ {fontVariable : List Char},
      (∀ c ∈ [':', ';', '\x7b', '\x7d'], c ∉ fontVariable) →
      applyFontVariable fontVariable stylesheet = .ok stylesheet' →
        (Shows "--font-sans".toList ("var(".toList ++ fontVariable ++ [')']) stylesheet' ↔
          MissedShow "--font-sans".toList ("var(".toList ++ fontVariable ++ [')']) stylesheet)) ∧
    ∀ {palette : Palette},
      applyPalette palette stylesheet = .ok stylesheet' →
        ∃ root dark : Scope, ∃ colored, scope ":root" stylesheet = .ok root ∧
          setInScope ":root" (colorProperties palette.light palette.lightForeground) stylesheet =
            .ok colored ∧ scope ".dark" colored = .ok dark ∧
          (root.after ≠ dark.after → (ShowsPalette palette stylesheet' ↔
            BodyMissedShow palette.light palette.lightForeground root.body ∧
              BodyMissedShow palette.dark palette.darkForeground dark.body)) := by
  constructor
  · intro fontVariable hplain h
    simp only [applyFontVariable] at h
    split at h
    next =>
      obtain rfl := Except.ok.inj h
      exact shows_setProperty_iff isName_fontFamily (isValue_reference hplain)
        (trim_reference fontVariable) stylesheet
    next => cases h
  · intro palette h
    obtain ⟨root, dark, colored, hroot, hcolored, hdark, hscopes⟩ := exists_scopes_of_applyPalette h
    refine ⟨root, dark, colored, hroot, hcolored, hdark, fun hapart => ?_⟩
    obtain ⟨root', dark', hroot', hdark', hlight, hnight⟩ := hscopes hapart
    rw [← bodyShows_paint_iff, ← bodyShows_paint_iff, ← hlight, ← hnight]
    constructor
    · rintro ⟨other, other', hother, hother', hshows, hshows'⟩
      obtain rfl := Except.ok.inj (hroot'.symm.trans hother)
      obtain rfl := Except.ok.inj (hdark'.symm.trans hother')
      exact ⟨hshows, hshows'⟩
    · rintro ⟨hshows, hshows'⟩
      exact ⟨root', dark', hroot', hdark', hshows, hshows'⟩

/-- On lines of their own, two declarations of the font both get it, and so do the colours in two
blocks. -/
theorem declarations_show_iff_closed :
    (∃ stylesheet', applyFontVariable "--font-inter".toList
        ":root\x7b\n  --font-sans: a;\n  --font-sans: b;\n\x7d\n".toList = .ok stylesheet' ∧
      Shows "--font-sans".toList ("var(".toList ++ "--font-inter".toList ++ [')']) stylesheet') ∧
    ∃ stylesheet', applyPalette blackPalette (twoBlocks "--primary:#111;--primary-foreground:#fff;"
        "--primary:#fff;--primary-foreground:#111;") = .ok stylesheet' ∧
      ShowsPalette blackPalette stylesheet' := by
  constructor
  · have happlied : applyFontVariable "--font-inter".toList
        ":root\x7b\n  --font-sans: a;\n  --font-sans: b;\n\x7d\n".toList =
          .ok (":root\x7b\n  --font-sans: var(--font-inter);\n".toList ++
            "  --font-sans: var(--font-inter);\n\x7d\n".toList) := by
      repeat rw [String.toList_ofList]
      decide +kernel
    refine ⟨_, happlied, ((declarations_show_iff _ _).1 (by simp) happlied).mpr ?_⟩
    refine missedShow_of_isChain isName_fontFamily
      [":root\x7b\n  --font-sans: a".toList, "\n  --font-sans: b".toList] "\n\x7d\n".toList
      ?_ ?_ ?_ ?_ ?_
    all_goals repeat rw [String.toList_ofList]
    · rfl
    all_goals decide
  · obtain ⟨happlied, hlight, hlighted, hnight⟩ := passes_twoBlocks
    refine ⟨_, happlied, ?_⟩
    obtain ⟨root, dark, colored, hroot, hcolored, hdark, hiff⟩ :=
      (declarations_show_iff _ _).2 happlied
    obtain rfl := Except.ok.inj (hlight.symm.trans hroot)
    obtain rfl := Except.ok.inj (hlighted.symm.trans hcolored)
    obtain rfl := Except.ok.inj (hnight.symm.trans hdark)
    refine (hiff (by decide)).mpr ⟨⟨?_, ?_⟩, ?_, ?_⟩
    · refine missedShow_of_isChain different_primary.isName_first
        ["--primary:#111".toList, "--primary-foreground:#fff".toList] [] ?_ ?_ ?_ ?_ ?_
      all_goals repeat rw [String.toList_ofList]
      · rfl
      all_goals decide
    · refine missedShow_of_isChain different_primary.isName_second
        ["--primary:oklch(0 0 0)".toList, "--primary-foreground:#fff".toList] [] ?_ ?_ ?_ ?_ ?_
      all_goals repeat rw [String.toList_ofList]
      · decide +kernel
      all_goals decide
    · refine missedShow_of_isChain different_primary.isName_first
        ["--primary:#fff".toList, "--primary-foreground:#111".toList] [] ?_ ?_ ?_ ?_ ?_
      all_goals repeat rw [String.toList_ofList]
      · rfl
      all_goals decide
    · refine missedShow_of_isChain different_primary.isName_second
        ["--primary:oklch(0.3 0 0)".toList, "--primary-foreground:#111".toList] [] ?_ ?_ ?_ ?_ ?_
      all_goals repeat rw [String.toList_ofList]
      · decide +kernel
      all_goals decide

/-- Of two declarations with only a semicolon between them, the second one keeps its value. -/
theorem exists_applyFontVariable_not_shows :
    ∃ fontVariable stylesheet stylesheet' : List Char,
      (∀ c ∈ [':', ';', '\x7b', '\x7d'], c ∉ fontVariable) ∧
        applyFontVariable fontVariable stylesheet = .ok stylesheet' ∧
          ¬ Shows "--font-sans".toList ("var(".toList ++ fontVariable ++ [')']) stylesheet' := by
  have happlied : applyFontVariable "--font-inter".toList
      ":root\x7b--font-sans:a;--font-sans:b;\x7d\n".toList =
        .ok ":root\x7b--font-sans:var(--font-inter);--font-sans:b;\x7d\n".toList := by
    repeat rw [String.toList_ofList]
    rfl
  refine ⟨_, _, _, by simp, happlied, fun hshows => ?_⟩
  have hkept := hshows ":root\x7b--font-sans:var(--font-inter);".toList "b;\x7d\n".toList
    ⟨⟨[], by rfl, by simp⟩, by rintro _ ⟨⟩; rfl⟩
  have hold : valueBehind "b;\x7d\n".toList = ['b'] := by rfl
  rw [hold] at hkept
  exact absurd hkept (by decide)

end Siteworks.Stylesheet
