import Mathlib
import Siteworks.Proofs.Stylesheet.Keeping
import Siteworks.Proofs.Stylesheet.Missing

/-!
# Where a palette stays

A palette changes what stands in the first blocks for light and for dark mode, and there it keeps the
pieces that declare no colour. This is so for each of its two passes. It is so for both together, seen
from the stylesheet before to the stylesheet after, if the blocks stand apart, or if the one opens
inside the other and no colour is declared in front of it there without a semicolon. A declaration
that is open at the inner block runs over its opening, and the block is lost.
-/

namespace Siteworks.Stylesheet

/-! ## One block inside the other -/

/-- The first block of the second selector opens inside that of the first one. -/
structure Nested (selector selector' before front : List Char) : Prop where
  /-- There is the opening of the outer block. -/
  outer : Opens selector before
  /-- The inner block does not open before. -/
  notBefore : cutAtOpening selector' true before = none
  /-- In the body of the outer block there is the opening of the inner one. -/
  inner : OpensIn selector' front

section Blocks

variable {selector selector' : String} {before between front front' follow body body' painted
  painted' : List Char}

/-- A block opens inside another one if none opens before. -/
theorem opens_inside_iff {selector selector' : List Char} (hselector' : IsSelector selector')
    (hopens : Opens selector before) (hfront : front ≠ []) :
    Opens selector' (before ++ front) ↔ Nested selector selector' before front := by
  obtain ⟨-, ⟨begin, rfl⟩, -⟩ := exists_of_cutAtOpening hopens
  rw [Opens, List.append_assoc, List.singleton_append,
    cutAtOpening_append_cons_iff hselector'.opening (by decide) hfront]
  exact ⟨fun h => ⟨hopens, h.1, h.2⟩, fun h => ⟨h.notBefore, h.inner⟩⟩

/-- The blocks for light and for dark mode do not open at one place. -/
theorem Opens.not_opens_dark (h : Opens ":root".toList before) : ¬ Opens ".dark".toList before := by
  intro h'
  obtain ⟨front, line, space, rfl, -, hspace, -⟩ := ((opens_iff isSelector_root).mp h).ends
  obtain ⟨front', line', space', heq, -, hspace', -⟩ := ((opens_iff isSelector_dark).mp h').ends
  have hbrace : (front ++ line ++ ":root".toList ++ space) ++ ['\x7b'] =
      (front' ++ line' ++ ".dark".toList ++ space') ++ ['\x7b'] := by simpa using heq
  have hstems := stem_inj hspace hspace' ⟨'t', by simp, by decide⟩ ⟨'k', by simp, by decide⟩
    List.not_mem_nil List.not_mem_nil (congrArg (· ++ [':']) (List.append_inj' hbrace rfl).1)
  simpa using congrArg List.getLast? hstems

/-- Two blocks the one of which stands in the other are found. -/
theorem Nested.scopes (hselector : IsSelector selector.toList)
    (hselector' : IsSelector selector'.toList)
    (h : Nested selector.toList selector'.toList before front) (hbody : '\x7d' ∉ front ++ body)
    (follow : List Char) :
    scope selector (before ++ (front ++ body) ++ '\x7d' :: follow) =
        .ok ⟨before, front ++ body, '\x7d' :: follow⟩ ∧
      scope selector' (before ++ (front ++ body) ++ '\x7d' :: follow) =
        .ok ⟨before ++ front, body, '\x7d' :: follow⟩ := by
  have hne : front ≠ [] := by
    obtain ⟨begin, rfl⟩ := h.inner.exists_brace
    simp
  exact ⟨(scope_eq_ok_iff hselector).mpr ⟨rfl, h.outer, hbody, _, rfl⟩,
    (scope_eq_ok_iff hselector').mpr ⟨by simp, (opens_inside_iff hselector' h.outer hne).mpr h,
      fun hmem => hbody (List.mem_append_right _ hmem), _, rfl⟩⟩

end Blocks

/-! ## What stands around the bodies -/

/-- Two blocks of a text and two blocks of another one: what stands around the bodies is the same. -/
inductive SameOutside (first second first' second' : Scope) : Prop
  /-- The second block stands behind the first one, with the same text before, between and behind. -/
  | apart {between : List Char} (hbefore : first'.before = first.before)
    (hbetween : second.before = first.before ++ first.body ++ '\x7d' :: between)
    (hbetween' : second'.before = first'.before ++ first'.body ++ '\x7d' :: between)
    (hafter : second'.after = second.after) : SameOutside first second first' second'
  /-- The second block opens in the body of the first one and ends with it, with the same text before
  and behind. -/
  | nested {front front' : List Char} (hbefore : first'.before = first.before)
    (hfront : second.before = first.before ++ front)
    (hfront' : second'.before = first'.before ++ front')
    (hafter : first'.after = first.after) (hsecond : second.after = first.after)
    (hsecond' : second'.after = first.after) : SameOutside first second first' second'

/-- The first blocks of two selectors stay where they are, the first one first, and keep their pieces. -/
def Stay (selector selector' : String) (text text' : List Char) : Prop :=
  ∃ first second first' second' : Scope,
    scope selector text = .ok first ∧ scope selector' text = .ok second ∧
      scope selector text' = .ok first' ∧ scope selector' text' = .ok second' ∧
        SameOutside first second first' second' ∧ Keeps first.body first'.body ∧
          Keeps second.body second'.body

/-- A stylesheet stays as it was outside the first blocks for light and for dark mode, and these keep
their pieces. -/
def StaysInScopes (text text' : List Char) : Prop :=
  Stay ":root" ".dark" text text' ∨ Stay ".dark" ":root" text text'

/-- If the one block opens inside the other one, a semicolon in front of it closes each declaration of
a colour there. -/
def NestsClosed (outer inner : Scope) : Prop :=
  ∀ front, inner.before = outer.before ++ front → inner.after = outer.after → ColorsClosed front

section Stays

variable {selector selector' : String} {before between front front' follow body body' painted
  painted' : List Char}

/-- Blocks in a row stay when their bodies are painted. -/
theorem InRow.stay (hselector : IsSelector selector.toList) (hselector' : IsSelector selector'.toList)
    (h : InRow selector.toList selector'.toList before between) (hquiet : Quiet selector'.toList body)
    (hquiet' : Quiet selector'.toList painted) (hbody : '\x7d' ∉ body) (hbody' : '\x7d' ∉ body')
    (hpainted : '\x7d' ∉ painted) (hpainted' : '\x7d' ∉ painted') (hkeeps : Keeps body painted)
    (hkeeps' : Keeps body' painted') :
    Stay selector selector' (inPlaces before between follow body body')
      (inPlaces before between follow painted painted') := by
  obtain ⟨hfirst, hsecond⟩ := h.scopes hselector hselector' hquiet hbody hbody' follow
  obtain ⟨hfirst', hsecond'⟩ := h.scopes hselector hselector' hquiet' hpainted hpainted' follow
  exact ⟨_, _, _, _, hfirst, hsecond, hfirst', hsecond', .apart rfl rfl rfl rfl, hkeeps, hkeeps'⟩

/-- Blocks the one of which stands in the other stay when their bodies are painted. -/
theorem Nested.stay (hselector : IsSelector selector.toList)
    (hselector' : IsSelector selector'.toList)
    (h : Nested selector.toList selector'.toList before front)
    (h' : Nested selector.toList selector'.toList before front') (hbody : '\x7d' ∉ front ++ body)
    (hpainted : '\x7d' ∉ front' ++ painted) (houter : Keeps (front ++ body) (front' ++ painted))
    (hinner : Keeps body painted) :
    Stay selector selector' (before ++ (front ++ body) ++ '\x7d' :: follow)
      (before ++ (front' ++ painted) ++ '\x7d' :: follow) := by
  obtain ⟨hfirst, hsecond⟩ := h.scopes hselector hselector' hbody follow
  obtain ⟨hfirst', hsecond'⟩ := h'.scopes hselector hselector' hpainted follow
  exact ⟨_, _, _, _, hfirst, hsecond, hfirst', hsecond', .nested rfl rfl rfl rfl rfl rfl, houter, hinner⟩

end Stays

/-! ## The two passes -/

/-- The blocks in which the passes of a palette set colours, the second one of them in the text that the
first pass has left. -/
structure Passes (palette : Palette) (stylesheet stylesheet' : List Char) (root dark : Scope) :
    Prop where
  /-- The block for light mode is the first one of the stylesheet. -/
  first : scope ":root" stylesheet = .ok root
  /-- The block for dark mode is the first one when the other one is painted. -/
  second : scope ".dark" (root.before ++ paint palette.light palette.lightForeground root.body ++
    root.after) = .ok dark
  /-- Then this one is painted, and that is all. -/
  result : stylesheet' =
    dark.before ++ paint palette.dark palette.darkForeground dark.body ++ dark.after

variable {palette : Palette} {stylesheet stylesheet' before before' between front follow follow' light
  night : List Char}

/-- A palette that is put into a stylesheet passes over it twice. -/
theorem exists_passes (h : applyPalette palette stylesheet = .ok stylesheet') :
    ∃ root dark, Passes palette stylesheet stylesheet' root dark := by
  rw [applyPalette] at h
  cases hcolored : setInScope ":root" (colorProperties palette.light palette.lightForeground)
      stylesheet with
  | error e => rw [hcolored] at h; cases h
  | ok colored =>
    rw [hcolored] at h
    obtain ⟨root, hroot, rfl⟩ := exists_scope_of_setInScope isSelector_root hcolored
    obtain ⟨dark, hdark, rfl⟩ := exists_scope_of_setInScope isSelector_dark h
    exact ⟨root, dark, hroot, hdark, rfl⟩

/-- Wherever the first blocks of a stylesheet are one inside the other, a semicolon in front of the inner
one closes each declaration of a colour in the outer one. -/
def BlocksClosed (stylesheet : List Char) : Prop :=
  ∀ root dark, scope ":root" stylesheet = .ok root → scope ".dark" stylesheet = .ok dark →
    NestsClosed root dark ∧ NestsClosed dark root

/-- A block for dark mode that opens in the body for light mode opens there when that is painted. -/
theorem exists_inner_of_root (hclosed : BlocksClosed (before ++ light ++ '\x7d' :: follow))
    (hopens : Opens ":root".toList before) (hnone : cutAtOpening ".dark".toList true before = none)
    (hlight : '\x7d' ∉ light) (hloud : ¬ Quiet ".dark".toList light) (color foreground : Oklch) :
    ∃ front inner front' inner', light = front ++ inner ∧
      Nested ":root".toList ".dark".toList before front ∧
        paint color foreground light = front' ++ inner' ∧
          Nested ":root".toList ".dark".toList before front' ∧ Keeps inner inner' := by
  obtain ⟨front, inner, rfl, hinner⟩ := (not_quiet_iff isSelector_dark).mp hloud
  have hnested : Nested ":root".toList ".dark".toList before front := ⟨hopens, hnone, hinner⟩
  obtain ⟨hroot, hdark⟩ := hnested.scopes isSelector_root isSelector_dark hlight follow
  obtain ⟨front', inner', hpaint, hinner', hkeeps⟩ :=
    (paints_paint color foreground (front ++ inner)).exists_inner isSelector_dark hinner
      ((hclosed _ _ hroot hdark).1 front rfl rfl)
  exact ⟨front, inner, front', inner', rfl, hnested, hpaint, ⟨hopens, hnone, hinner'⟩, hkeeps⟩

/-- The block for light mode comes first, and the block for dark mode behind it. -/
theorem staysInScopes_of_root_first
    (hclosed : BlocksClosed (inPlaces before between follow light night))
    (hrow : InRow ":root".toList ".dark".toList before between)
    (hquiet : Quiet ".dark".toList (paint palette.light palette.lightForeground light))
    (hlight : '\x7d' ∉ light) (hnight : '\x7d' ∉ night) :
    StaysInScopes (inPlaces before between follow light night)
      (inPlaces before between follow (paint palette.light palette.lightForeground light)
        (paint palette.dark palette.darkForeground night)) := by
  -- the block found for dark mode is the first one of the stylesheet: there is none in the other
  have hquiet' : Quiet ".dark".toList light := by
    by_contra hloud
    obtain ⟨-, -, front', inner', -, -, hpaint, hnested', -⟩ := exists_inner_of_root hclosed
      hrow.first hrow.notBefore hlight hloud palette.light palette.lightForeground
    exact (not_quiet_iff isSelector_dark).mpr ⟨front', inner', hpaint, hnested'.inner⟩ hquiet
  exact Or.inl (hrow.stay isSelector_root isSelector_dark hquiet' hquiet hlight hnight
    (closing_not_mem_paint _ _ hlight) (closing_not_mem_paint _ _ hnight)
    (paints_paint _ _ light).keeps (paints_paint _ _ night).keeps)

/-- The block for dark mode comes first, and the block for light mode behind it. -/
theorem staysInScopes_of_dark_first (hrow : InRow ".dark".toList ":root".toList before between)
    (hquiet : Quiet ":root".toList night) (hlight : '\x7d' ∉ light) (hnight : '\x7d' ∉ night) :
    StaysInScopes (inPlaces before between follow night light)
      (inPlaces before between follow (paint palette.dark palette.darkForeground night)
        (paint palette.light palette.lightForeground light)) :=
  Or.inr (hrow.stay isSelector_dark isSelector_root hquiet (quiet_paint isSelector_root _ _ hquiet)
    hnight hlight (closing_not_mem_paint _ _ hnight) (closing_not_mem_paint _ _ hlight)
    (paints_paint _ _ night).keeps (paints_paint _ _ light).keeps)

/-- The block for light mode stands in the block for dark mode. -/
theorem staysInScopes_of_root_inside
    (hclosed : BlocksClosed (before ++ (front ++ light) ++ '\x7d' :: follow))
    (hnested : Nested ".dark".toList ":root".toList before front) (hbody : '\x7d' ∉ front ++ light) :
    StaysInScopes (before ++ (front ++ light) ++ '\x7d' :: follow)
      (before ++ paint palette.dark palette.darkForeground
        (front ++ paint palette.light palette.lightForeground light) ++ '\x7d' :: follow) := by
  obtain ⟨hfront, hlight⟩ := not_or.mp (mt List.mem_append.mpr hbody)
  obtain ⟨hdark, hroot⟩ := hnested.scopes isSelector_dark isSelector_root hbody follow
  obtain ⟨begin, rfl⟩ := hnested.inner.exists_brace
  set painted := paint palette.light palette.lightForeground light with hpainted
  have hkeeps : Keeps light painted := (paints_paint _ _ light).keeps
  have hclosing : '\x7d' ∉ begin ++ ['\x7b'] ++ painted := fun hmem =>
    (List.mem_append.mp hmem).elim hfront (closing_not_mem_paint _ _ hlight)
  have hpaints := paints_paint palette.dark palette.darkForeground (begin ++ ['\x7b'] ++ painted)
  obtain ⟨front', inner', hpaint, hinner', hkeeps'⟩ := hpaints.exists_inner isSelector_root
    hnested.inner ((hclosed _ _ hroot hdark).2 _ rfl rfl)
  have houter : Keeps (begin ++ ['\x7b'] ++ light) (begin ++ ['\x7b'] ++ painted) := by
    simpa using hkeeps.append begin
  rw [hpaint]
  exact Or.inr (hnested.stay isSelector_dark isSelector_root
    ⟨hnested.outer, hnested.notBefore, hinner'⟩ hbody
    (hpaint ▸ closing_not_mem_paint _ _ hclosing) (houter.trans (hpaint ▸ hpaints.keeps))
    (hkeeps.trans hkeeps'))

/-- The block for dark mode stands in the block for light mode. -/
theorem staysInScopes_of_dark_inside
    (hclosed : BlocksClosed (before ++ light ++ '\x7d' :: follow))
    (hnested : Nested ":root".toList ".dark".toList before front) (hlight : '\x7d' ∉ light)
    (hpaint : paint palette.light palette.lightForeground light = front ++ night) :
    StaysInScopes (before ++ light ++ '\x7d' :: follow)
      (before ++ (front ++ paint palette.dark palette.darkForeground night) ++ '\x7d' :: follow) := by
  have hloud : ¬ Quiet ".dark".toList light := fun hquiet =>
    (not_quiet_iff isSelector_dark).mpr ⟨front, night, hpaint, hnested.inner⟩
      (quiet_paint isSelector_dark _ _ hquiet)
  obtain ⟨front₀, inner, front', inner', rfl, hnested₀, hpaint', hnested', hkeeps⟩ :=
    exists_inner_of_root hclosed hnested.outer hnested.notBefore hlight hloud palette.light
      palette.lightForeground
  obtain ⟨rfl, rfl⟩ := hnested.inner.inj isSelector_dark hnested'.inner (hpaint.symm.trans hpaint')
  have hclosing := closing_not_mem_paint palette.light palette.lightForeground hlight
  rw [hpaint] at hclosing
  obtain ⟨hfront, hnight⟩ := not_or.mp (mt List.mem_append.mpr hclosing)
  have hkeeps' : Keeps night (paint palette.dark palette.darkForeground night) :=
    (paints_paint _ _ night).keeps
  have hpaints := paints_paint palette.light palette.lightForeground (front₀ ++ inner)
  rw [hpaint] at hpaints
  obtain ⟨begin, rfl⟩ := hnested.inner.exists_brace
  refine Or.inl (hnested₀.stay isSelector_root isSelector_dark hnested hlight ?_ ?_
    (hkeeps.trans hkeeps'))
  · exact fun hmem => (List.mem_append.mp hmem).elim hfront (closing_not_mem_paint _ _ hnight)
  · exact hpaints.keeps.trans (by simpa using hkeeps'.append begin)

/-- The passes of a palette stay in the first blocks of a stylesheet, if these are closed where the one
stands in the other. -/
theorem Passes.staysInScopes {root dark : Scope} (h : Passes palette stylesheet stylesheet' root dark)
    (hclosed : BlocksClosed stylesheet) : StaysInScopes stylesheet stylesheet' := by
  obtain ⟨before, light, after⟩ := root
  obtain ⟨before', night, after'⟩ := dark
  obtain ⟨hroot, hdark, rfl⟩ := h
  obtain ⟨rfl, hopens, hlight, follow, rfl⟩ := (scope_eq_ok_iff isSelector_root).mp hroot
  obtain ⟨hcut, hopens', hnight, follow', rfl⟩ := (scope_eq_ok_iff isSelector_dark).mp hdark
  have hclosing := closing_not_mem_paint palette.light palette.lightForeground hlight
  by_cases hfollow : follow = follow'
  · -- both bodies end at one brace, so that the one block stands in the other
    subst hfollow
    rcases List.append_eq_append_iff.mp (List.append_cancel_right hcut) with
      ⟨front, rfl, hpaint⟩ | ⟨front, rfl, rfl⟩
    · have hfront : front ≠ [] := by
        rintro rfl
        exact hopens.not_opens_dark (by rwa [List.append_nil] at hopens')
      have hnested := (opens_inside_iff isSelector_dark hopens hfront).mp hopens'
      simpa only [List.append_assoc] using
        staysInScopes_of_dark_inside hclosed hnested hlight hpaint
    · have hfront : front ≠ [] := by
        rintro rfl
        exact Opens.not_opens_dark (by rwa [List.append_nil] at hopens) hopens'
      have hnested := (opens_inside_iff isSelector_root hopens' hfront).mp hopens
      have hbody : '\x7d' ∉ front ++ light := fun hmem =>
        (List.mem_append.mp hmem).elim (fun hmem => hnight (List.mem_append_left _ hmem)) hlight
      simpa only [List.append_assoc] using staysInScopes_of_root_inside
        (by simpa only [List.append_assoc] using hclosed) hnested hbody
  · rcases append_eq_append_of_ne hclosing hnight hfollow hcut with
      ⟨between, rfl, rfl⟩ | ⟨between, rfl, rfl⟩
    · obtain ⟨hrow, hquiet⟩ := (opens_append_iff isSelector_dark hopens _).mp hopens'
      simpa [inPlaces] using staysInScopes_of_root_first (by simpa [inPlaces] using hclosed) hrow hquiet
        hlight hnight
    · obtain ⟨hrow, hquiet⟩ := (opens_append_iff isSelector_root hopens' night).mp hopens
      simpa [inPlaces] using staysInScopes_of_dark_first hrow hquiet hlight hnight

/-- A palette is refused exactly if something is missing for one of its passes, and that is named. Each
pass changes the body of one block only, and keeps the pieces of it in which no colour is declared. So
the stylesheet stays as it was outside the first blocks for light and for dark mode, and these keep
their pieces, if a semicolon closes each declaration of a colour in front of a block inside the other
one. -/
theorem applyPalette_stays_in_scopes (palette : Palette) (stylesheet : List Char) :
    (∀ e, applyPalette palette stylesheet = .error e ↔
      ∃ fault, e = .template file fault ∧ PaletteLacks palette stylesheet fault) ∧
    ∀ stylesheet', applyPalette palette stylesheet = .ok stylesheet' →
      (∃ root dark, Passes palette stylesheet stylesheet' root dark ∧
        Keeps root.body (paint palette.light palette.lightForeground root.body) ∧
          Keeps dark.body (paint palette.dark palette.darkForeground dark.body)) ∧
      (BlocksClosed stylesheet → StaysInScopes stylesheet stylesheet') := by
  refine ⟨fun e => applyPalette_eq_error_iff, fun stylesheet' h => ?_⟩
  obtain ⟨root, dark, hpasses⟩ := exists_passes h
  exact ⟨⟨root, dark, hpasses, (paints_paint _ _ root.body).keeps, (paints_paint _ _ dark.body).keeps⟩,
    hpasses.staysInScopes⟩

/-- A stylesheet with the block for light mode in the block for dark mode, behind a declaration. -/
def nestedBlocks (dark light foreground : String) : List Char :=
  ".dark\x7b--primary:".toList ++ dark.toList ++ ";\n:root\x7b--primary:".toList ++ light.toList ++
    ";--primary-foreground:".toList ++ foreground.toList ++ ";\x7d\n".toList

/-- Values of given characters need not be decoded. -/
theorem nestedBlocks_ofList (dark light foreground : List Char) :
    nestedBlocks (String.ofList dark) (String.ofList light) (String.ofList foreground) =
      ".dark\x7b--primary:".toList ++ dark ++ ";\n:root\x7b--primary:".toList ++ light ++
        ";--primary-foreground:".toList ++ foreground ++ ";\x7d\n".toList := by
  unfold nestedBlocks
  repeat rw [String.toList_ofList]

/-- Behind a declaration that is closed, the inner block stays. -/
theorem applyPalette_stays_in_scopes_nested :
    applyPalette blackPalette (nestedBlocks "#111" "#333" "#444") =
        .ok (nestedBlocks "oklch(0.3 0 0)" "oklch(0.3 0 0)" "oklch(0.985 0 0)") ∧
      StaysInScopes (nestedBlocks "#111" "#333" "#444")
        (nestedBlocks "oklch(0.3 0 0)" "oklch(0.3 0 0)" "oklch(0.985 0 0)") := by
  have happlied : applyPalette blackPalette (nestedBlocks "#111" "#333" "#444") =
      .ok (nestedBlocks "oklch(0.3 0 0)" "oklch(0.3 0 0)" "oklch(0.985 0 0)") := by
    rw [nestedBlocks_ofList, nestedBlocks_ofList]
    repeat rw [String.toList_ofList]
    decide +kernel
  have hroot : scope ":root" (nestedBlocks "#111" "#333" "#444") = .ok ⟨".dark\x7b".toList ++
      "--primary:#111;\n:root\x7b".toList, "--primary:#333;--primary-foreground:#444;".toList,
      "\x7d\n".toList⟩ := by
    rw [nestedBlocks_ofList]
    repeat rw [String.toList_ofList]
    decide +kernel
  have hdark : scope ".dark" (nestedBlocks "#111" "#333" "#444") = .ok ⟨".dark\x7b".toList,
      "--primary:#111;\n:root\x7b--primary:#333;--primary-foreground:#444;".toList,
      "\x7d\n".toList⟩ := by
    rw [nestedBlocks_ofList]
    repeat rw [String.toList_ofList]
    decide +kernel
  refine ⟨happlied, ((applyPalette_stays_in_scopes _ _).2 _ happlied).2 ?_⟩
  intro root dark hroot' hdark'
  obtain rfl := Except.ok.inj (hroot.symm.trans hroot')
  obtain rfl := Except.ok.inj (hdark.symm.trans hdark')
  refine ⟨fun front hfront _ => ?_, fun front hfront _ => ?_⟩
  · exact absurd (congrArg List.length hfront) (by simp)
  · obtain rfl := List.append_cancel_left hfront
    have hsplit : "--primary:#111;\n:root\x7b".toList =
        "--primary:#111".toList ++ ';' :: "\n:root\x7b".toList := by rfl
    rw [hsplit, colorsClosed_append_iff]
    exact .of_hyphen_not_mem (by decide)

/-- A colour for dark mode that no semicolon closes runs over the opening of a block for light mode behind
it, up to the first semicolon there. -/
theorem exists_applyPalette_not_staysInScopes :
    ∃ (palette : Palette) (stylesheet stylesheet' : List Char),
      applyPalette palette stylesheet = .ok stylesheet' ∧ ¬ StaysInScopes stylesheet stylesheet' := by
  have hlost : scope ":root" (".dark \x7b\n  --primary: oklch(0.3 0 0);\n".toList ++
      "  --primary: oklch(0.3 0 0);\n  --primary-foreground: oklch(0.985 0 0);\n\x7d\n".toList) =
        lacks (.noScope ":root") := by
    repeat rw [String.toList_ofList]
    decide +kernel
  refine ⟨blackPalette, ".dark \x7b\n  --primary: #fff\n:root \x7b\n  color: red;\n".toList ++
      "  --primary: #111;\n  --primary-foreground: #eee;\n\x7d\n".toList,
    ".dark \x7b\n  --primary: oklch(0.3 0 0);\n".toList ++
      "  --primary: oklch(0.3 0 0);\n  --primary-foreground: oklch(0.985 0 0);\n\x7d\n".toList,
    ?_, ?_⟩
  · repeat rw [String.toList_ofList]
    decide +kernel
  rintro (⟨-, -, first', -, -, -, hfirst', -⟩ | ⟨-, -, -, second', -, -, -, hsecond', -⟩)
  · cases hlost.symm.trans hfirst'
  · cases hlost.symm.trans hsecond'

end Siteworks.Stylesheet
