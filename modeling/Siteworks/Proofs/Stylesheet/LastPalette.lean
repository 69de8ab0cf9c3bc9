import Mathlib
import Siteworks.Proofs.Stylesheet.Steady

/-!
# The palette that is put in last

Putting a palette into a stylesheet after another one is putting it in at once, exactly if the
bodies of the blocks for light and for dark mode are steady: no declaration of the colour of text on
the main colour runs over one of the main colour that keeps another one from being seen, or over all
of them.
-/

namespace Siteworks

/-! ## Colours as values -/

/-- The characters that the text of a colour is made of. -/
def isPlain (c : Char) : Bool := c.isAlphanum || ".-( )".toList.contains c

/-- A number in a colour is made of plain characters. -/
theorem isPlain_of_mem_decimalText {x : Float} {c : Char} (h : c ∈ decimalText x) :
    isPlain c = true := by
  have hdigit {n : Nat} (hc : c ∈ Nat.toDigits 10 n) : isPlain c = true := by
    have := Nat.isDigit_of_mem_toDigits (by decide) (by decide) hc
    simp [isPlain, Char.isAlphanum, this]
  unfold decimalText at h
  split at h
  next finite _ =>
    have htrim : c ∈ finite.threeDecimals ∨ c = '0' := by
      unfold trimDecimal at h
      simp only at h
      split at h
      · exact Or.inr (by simpa using h)
      · rw [List.mem_reverse] at h
        exact Or.inl (List.mem_reverse.mp
          ((List.dropWhile_sublist _).subset ((List.dropWhile_sublist _).subset h)))
    rcases htrim with h | rfl
    · simp only [Binary64.threeDecimals, List.mem_append, List.mem_singleton,
        List.mem_replicate] at h
      rcases h with (((h | h) | rfl) | ⟨-, rfl⟩) | h
      · split at h
        · obtain rfl : c = '-' := by simpa using h
          decide
        · cases h
      · exact hdigit h
      · decide
      · decide
      · exact hdigit h
    · decide
  next =>
    have hnan : ∀ c ∈ "NaN".toList, isPlain c = true := List.all_eq_true.mp (by decide)
    have hinf : ∀ c ∈ "-inf".toList, isPlain c = true := List.all_eq_true.mp (by decide)
    split at h
    · exact hnan c h
    · split at h
      · exact hinf c h
      · exact hinf c (List.mem_cons_of_mem _ h)

open Stylesheet

/-- Three plain texts make a colour that can be given to a property. -/
theorem isValue_oklch {lightness chroma hue : List Char}
    (hlightness : ∀ c ∈ lightness, isPlain c = true) (hchroma : ∀ c ∈ chroma, isPlain c = true)
    (hhue : ∀ c ∈ hue, isPlain c = true) :
    IsValue ("oklch(".toList ++ lightness ++ [' '] ++ chroma ++ [' '] ++ hue ++ [')']) := by
  have hopening : ∀ c ∈ "oklch(".toList, isPlain c = true := List.all_eq_true.mp (by decide)
  have hplain : ∀ c ∈ "oklch(".toList ++ lightness ++ [' '] ++ chroma ++ [' '] ++ hue ++ [')'],
      isPlain c = true := by
    simp only [List.forall_mem_append, List.forall_mem_singleton]
    exact ⟨⟨⟨⟨⟨⟨hopening, hlightness⟩, by decide⟩, hchroma⟩, by decide⟩, hhue⟩, by decide⟩
  have hnot {c : Char} (hc : isPlain c = false) :
      c ∉ "oklch(".toList ++ lightness ++ [' '] ++ chroma ++ [' '] ++ hue ++ [')'] :=
    fun hmem => by simp [hplain c hmem] at hc
  exact ⟨.cons (c := 'o') (by decide) _, hnot (by decide), hnot (by decide), hnot (by decide),
    hnot (by decide)⟩

/-- The text of a colour can be given to a property. -/
theorem Oklch.isValue_text (color : Oklch) : IsValue color.text :=
  isValue_oklch (fun _ => isPlain_of_mem_decimalText) (fun _ => isPlain_of_mem_decimalText)
    (fun _ => isPlain_of_mem_decimalText)

namespace Stylesheet

/-- The main colour and the colour of text on it are different properties. -/
theorem different_primary : Different "--primary".toList "--primary-foreground".toList where
  isName_first := ⟨by decide, by decide, 'y', by decide, by decide⟩
  isName_second := ⟨by decide, by decide, 'd', by decide, by decide⟩
  last := by decide

/-- The selectors of the two blocks can select one. -/
theorem isSelector_root : IsSelector ":root".toList := ⟨by decide, by decide, by decide⟩

/-- The selectors of the two blocks can select one. -/
theorem isSelector_dark : IsSelector ".dark".toList := ⟨by decide, by decide, by decide⟩

/-- The body of a block with a main colour and a colour of text on it. -/
def paint (color foreground : Oklch) (body : List Char) : List Char :=
  setProperty "--primary-foreground".toList foreground.text
    (setProperty "--primary".toList color.text body)

/-- Colours are set in a body exactly if it declares the main colour and, after that is set, the
colour of text on it. -/
theorem setAll_colorProperties_eq_ok_iff {selector : String} {color foreground : Oklch}
    {body painted : List Char} :
    setAll selector (colorProperties color foreground) body = .ok painted ↔
      declares "--primary".toList body = true ∧
        declares "--primary-foreground".toList (setProperty "--primary".toList color.text body) =
          true ∧ painted = paint color foreground body := by
  simp only [colorProperties, setAll, lacks]
  split
  next hcolor =>
    split
    next hforeground =>
      rw [Except.ok.injEq]
      exact ⟨fun h => ⟨hcolor, hforeground, h.symm⟩, fun h => h.2.2.symm⟩
    next hforeground => exact ⟨nofun, fun h => absurd h.2.1 hforeground⟩
  next hcolor => exact ⟨nofun, fun h => absurd h.1 hcolor⟩

section Bodies

variable {selector : String} {color foreground : Oklch} {body painted : List Char}

/-- Setting a main colour a second time is setting it once. -/
theorem setProperty_primary_setProperty (color : Oklch) (last body : List Char) :
    setProperty "--primary".toList last (setProperty "--primary".toList color.text body) =
      setProperty "--primary".toList last body :=
  setProperty_setProperty different_primary.isName_first.colon color.isValue_text.semicolon
    color.isValue_text.full last body

/-- A body that can be painted with some colours can be painted with all. -/
theorem setAll_colorProperties (h : setAll selector (colorProperties color foreground) body =
    .ok painted) (color' foreground' : Oklch) :
    setAll selector (colorProperties color' foreground') body =
      .ok (paint color' foreground' body) := by
  obtain ⟨hcolor, hforeground, -⟩ := setAll_colorProperties_eq_ok_iff.mp h
  refine setAll_colorProperties_eq_ok_iff.mpr ⟨hcolor, ?_, rfl⟩
  rw [← setProperty_primary_setProperty color, declares_second_setProperty different_primary
    color.isValue_text color'.isValue_text (setProperty_primary_setProperty color _ body)]
  exact hforeground

/-- There are two colours. -/
theorem text_black_ne_grey : (Oklch.mk 0 0 0).text ≠ (Oklch.mk 0.5 0 0).text := by
  decide +kernel

/-- A painted body is painted again as it would have been at first, whatever the colours, exactly if
it is steady. -/
theorem setAll_painted_iff (h : setAll selector (colorProperties color foreground) body =
    .ok painted) :
    (∀ color' foreground', setAll selector (colorProperties color' foreground') painted =
      setAll selector (colorProperties color' foreground') body) ↔
      Steady "--primary".toList "--primary-foreground".toList
        (setProperty "--primary".toList color.text body) := by
  have hset := setProperty_primary_setProperty color color.text body
  obtain ⟨-, hforeground, rfl⟩ := setAll_colorProperties_eq_ok_iff.mp h
  simp only [setAll_colorProperties h, setAll_colorProperties_eq_ok_iff]
  constructor
  · intro hagain
    -- One colour is not enough: a declaration that is not found may have its value already.
    obtain ⟨hcolor, -, hblack⟩ := hagain (Oklch.mk 0 0 0) foreground
    obtain ⟨-, -, hgrey⟩ := hagain (Oklch.mk 0.5 0 0) foreground
    refine Steady.of_set_again different_primary color.isValue_text foreground.isValue_text hset
      (Oklch.isValue_text _) (Oklch.isValue_text _) text_black_ne_grey foreground.isValue_text
      foreground.isValue_text hcolor ?_ ?_
    · rw [setProperty_primary_setProperty]
      exact hblack.symm
    · rw [setProperty_primary_setProperty]
      exact hgrey.symm
  · intro hsteady color' foreground'
    obtain ⟨hcolor, hdeclares, hsame⟩ := hsteady.set_again different_primary color.isValue_text
      foreground.isValue_text hset color'.isValue_text foreground'.text
    rw [setProperty_primary_setProperty] at hdeclares hsame
    refine ⟨hcolor, hdeclares.trans ?_, hsame.symm⟩
    exact (setAll_colorProperties_eq_ok_iff.mp (setAll_colorProperties h color' foreground')).2.1

/-- New values bring no closing brace into a text. -/
theorem closing_not_mem_setProperty {name new text : List Char} (hnew : IsValue new)
    (htext : '\x7d' ∉ text) : '\x7d' ∉ setProperty name new text := by
  intro hmem
  obtain ⟨piece, hpiece, hmem⟩ := List.mem_flatMap.mp hmem
  have hkept : ∀ c ∈ piece.text, c ∈ text := fun c hc => by
    rw [← flatMap_text_pieces name text]
    exact List.mem_flatMap.mpr ⟨piece, hpiece, hc⟩
  cases piece with
  | char c => exact htext (hkept _ hmem)
  | declaration head value =>
    have hhead : '\x7d' ∉ head := fun hc => htext (hkept _ (by simp [Piece.text, hc]))
    simp [Piece.setValue, Piece.text, hhead, hnew.brace.2] at hmem

/-- Painting brings no closing brace into a body. -/
theorem closing_not_mem_paint (color foreground : Oklch) (hbody : '\x7d' ∉ body) :
    '\x7d' ∉ paint color foreground body :=
  closing_not_mem_setProperty foreground.isValue_text
    (closing_not_mem_setProperty color.isValue_text hbody)

/-- A quiet body stays quiet when it is painted. -/
theorem quiet_paint {selector : List Char} (hselector : IsSelector selector)
    (color foreground : Oklch) (hquiet : Quiet selector body) :
    Quiet selector (paint color foreground body) :=
  quiet_setProperty hselector different_primary.isName_second foreground.isValue_text
    (quiet_setProperty hselector different_primary.isName_first color.isValue_text hquiet)

/-- Whether a painted body is quiet does not depend on the colours. -/
theorem quiet_paint_of_quiet_paint {selector : List Char} (hselector : IsSelector selector)
    (color' foreground' : Oklch) (hquiet : Quiet selector (paint color foreground body)) :
    Quiet selector (paint color' foreground' body) := by
  have h := quiet_setProperty_setProperty different_primary hselector color.isValue_text
    color'.isValue_text foreground'.isValue_text (setProperty_primary_setProperty color _ body)
    hquiet
  rwa [setProperty_primary_setProperty] at h

end Bodies

/-! ## Palettes in stylesheets -/

/-- What is made of a result is an answer if the result is. -/
theorem exists_of_map_eq_ok {α β ε : Type} {first : Except ε α} {wrap : α → β} {answer : β}
    (h : first.map wrap = .ok answer) : ∃ a, first = .ok a ∧ wrap a = answer := by
  cases first with
  | error e => cases h
  | ok a =>
    cases h
    exact ⟨a, rfl, rfl⟩

/-- Setting colours in a block paints its body. -/
theorem exists_scope_of_setInScope {selector : String} (hselector : IsSelector selector.toList)
    {color foreground : Oklch} {text text' : List Char}
    (h : setInScope selector (colorProperties color foreground) text = .ok text') :
    ∃ cut : Scope, scope selector text = .ok cut ∧
      text' = cut.before ++ paint color foreground cut.body ++ cut.after := by
  cases hscope : scope selector text with
  | error e => rw [setInScope, hscope] at h; cases h
  | ok cut =>
    obtain ⟨before, body, after⟩ := cut
    obtain ⟨rfl, hopens, hbody, follow, rfl⟩ := (scope_eq_ok_iff hselector).mp hscope
    rw [setInScope_append hselector hopens hbody] at h
    obtain ⟨painted, hpainted, rfl⟩ := exists_of_map_eq_ok h
    obtain ⟨-, -, rfl⟩ := setAll_colorProperties_eq_ok_iff.mp hpainted
    exact ⟨_, rfl, rfl⟩

/-- If two results in a row make an answer, each is one. -/
theorem exists_of_bind_map_eq_ok {α β ε : Type} {first second : Except ε α} {wrap : α → α → β}
    {answer : β} (h : (first.bind fun a => second.map (wrap a)) = .ok answer) :
    ∃ a b, first = .ok a ∧ second = .ok b ∧ wrap a b = answer := by
  cases first with
  | error e => cases h
  | ok a =>
    cases second with
    | error e => cases h
    | ok b =>
      cases h
      exact ⟨a, b, rfl, rfl, rfl⟩

/-- The bodies of the blocks for light and for dark mode have their places in a stylesheet. The
block that comes second is found if the body of the first one does not open it. -/
structure Frame (rootFirst : Bool) (wrap : List Char → List Char → List Char) : Prop where
  /-- The block for light mode is found. -/
  root : ∀ {light dark : List Char}, '\x7d' ∉ light →
    (rootFirst = false → Quiet ":root".toList dark) → ∀ properties,
      setInScope ":root" properties (wrap light dark) =
        (setAll ":root" properties light).map (wrap · dark)
  /-- The block for dark mode is found. -/
  dark : ∀ {light dark : List Char}, '\x7d' ∉ dark →
    (rootFirst = true → Quiet ".dark".toList light) → ∀ properties,
      setInScope ".dark" properties (wrap light dark) =
        (setAll ".dark" properties dark).map (wrap light)
  /-- The bodies can be told from what is around them. -/
  inj : ∀ {light dark light' dark' : List Char}, '\x7d' ∉ light → '\x7d' ∉ dark →
    '\x7d' ∉ light' → '\x7d' ∉ dark' → wrap light dark = wrap light' dark' →
      light = light' ∧ dark = dark'

/-- The block for light mode comes first. -/
theorem InRow.frame_root {before between : List Char} (follow : List Char)
    (h : InRow ":root".toList ".dark".toList before between) :
    Frame true (inPlaces before between follow) where
  root hlight _ := h.setInScope_first isSelector_root hlight
  dark hdark hquiet := h.setInScope_second isSelector_dark (hquiet rfl) hdark
  inj := inPlaces_inj

/-- The block for dark mode comes first. -/
theorem InRow.frame_dark {before between : List Char} (follow : List Char)
    (h : InRow ".dark".toList ":root".toList before between) :
    Frame false fun light dark => inPlaces before between follow dark light where
  root hlight hquiet := h.setInScope_second isSelector_root (hquiet rfl) hlight
  dark hdark _ := h.setInScope_first isSelector_dark hdark
  inj hlight hdark hlight' hdark' heq :=
    (inPlaces_inj hdark hlight hdark' hlight' heq).symm

namespace Frame

variable {rootFirst : Bool} {wrap : List Char → List Char → List Char} {palette : Palette}
  {light dark light' dark' : List Char}

/-- A palette is put into the two bodies. -/
theorem applyPalette_eq (h : Frame rootFirst wrap) (palette : Palette)
    (hlight : '\x7d' ∉ light) (hdark : '\x7d' ∉ dark)
    (hquietDark : rootFirst = false → Quiet ":root".toList dark)
    (hquietLight : rootFirst = true →
      Quiet ".dark".toList (paint palette.light palette.lightForeground light)) :
    applyPalette palette (wrap light dark) =
      (setAll ":root" (colorProperties palette.light palette.lightForeground) light).bind
        fun painted =>
          (setAll ".dark" (colorProperties palette.dark palette.darkForeground) dark).map
            (wrap painted) := by
  rw [applyPalette, h.root hlight hquietDark]
  cases hpainted : setAll ":root" (colorProperties palette.light palette.lightForeground) light with
  | error e => rfl
  | ok painted =>
    obtain ⟨-, -, rfl⟩ := setAll_colorProperties_eq_ok_iff.mp hpainted
    exact h.dark hdark hquietLight _

/-- After a palette, another one makes of the stylesheet what it makes of it at once, whichever it
is, exactly if both bodies are steady. -/
theorem applyPalette_iff (h : Frame rootFirst wrap) (hlight : '\x7d' ∉ light)
    (hdark : '\x7d' ∉ dark) (hquietDark : rootFirst = false → Quiet ":root".toList dark)
    (hquietLight : rootFirst = true → Quiet ".dark".toList light')
    (hlight' : setAll ":root" (colorProperties palette.light palette.lightForeground) light =
      .ok light')
    (hdark' : setAll ".dark" (colorProperties palette.dark palette.darkForeground) dark =
      .ok dark') :
    (∀ last, applyPalette last (wrap light' dark') = applyPalette last (wrap light dark)) ↔
      Steady "--primary".toList "--primary-foreground".toList
          (setProperty "--primary".toList palette.light.text light) ∧
        Steady "--primary".toList "--primary-foreground".toList
          (setProperty "--primary".toList palette.dark.text dark) := by
  rw [← setAll_painted_iff hlight', ← setAll_painted_iff hdark']
  obtain ⟨-, -, hlightEq⟩ := setAll_colorProperties_eq_ok_iff.mp hlight'
  obtain ⟨-, -, hdarkEq⟩ := setAll_colorProperties_eq_ok_iff.mp hdark'
  have hlightClosing : '\x7d' ∉ light' := hlightEq ▸ closing_not_mem_paint _ _ hlight
  have hdarkClosing : '\x7d' ∉ dark' := hdarkEq ▸ closing_not_mem_paint _ _ hdark
  have hatOnce (last : Palette) := h.applyPalette_eq last hlight hdark hquietDark
    fun hfirst => quiet_paint_of_quiet_paint isSelector_dark last.light last.lightForeground
      (hlightEq ▸ hquietLight hfirst)
  have hafter (last : Palette) := h.applyPalette_eq last hlightClosing hdarkClosing
    (fun hsecond => hdarkEq ▸ quiet_paint isSelector_root _ _ (hquietDark hsecond))
    fun hfirst => quiet_paint isSelector_dark last.light last.lightForeground (hquietLight hfirst)
  simp only [hatOnce, hafter]
  constructor
  · intro hsame
    -- Palettes with the same colours in both blocks are enough.
    have hboth (color foreground : Oklch) :
        setAll ":root" (colorProperties color foreground) light' =
            setAll ":root" (colorProperties color foreground) light ∧
          setAll ".dark" (colorProperties color foreground) dark' =
            setAll ".dark" (colorProperties color foreground) dark := by
      have hpalette := hsame ⟨color, foreground, color, foreground⟩
      rw [setAll_colorProperties hlight', setAll_colorProperties hdark'] at hpalette ⊢
      obtain ⟨painted, painted', hpainted, hpainted', hwrap⟩ := exists_of_bind_map_eq_ok hpalette
      obtain ⟨-, -, rfl⟩ := setAll_colorProperties_eq_ok_iff.mp hpainted
      obtain ⟨-, -, rfl⟩ := setAll_colorProperties_eq_ok_iff.mp hpainted'
      obtain ⟨hlights, hdarks⟩ := h.inj (closing_not_mem_paint _ _ hlightClosing)
        (closing_not_mem_paint _ _ hdarkClosing) (closing_not_mem_paint _ _ hlight)
        (closing_not_mem_paint _ _ hdark) hwrap
      exact ⟨hlights ▸ hpainted, hdarks ▸ hpainted'⟩
    exact ⟨fun color foreground => (hboth color foreground).1,
      fun color foreground => (hboth color foreground).2⟩
  · rintro ⟨hlights, hdarks⟩ last
    rw [hlights, hdarks]

end Frame

/-- The last palette is the one that counts, whichever it is, exactly if the bodies of both blocks
are steady; the blocks are those in which the first palette was put, and do not overlap. -/
theorem applyPalette_applyPalette_iff {palette : Palette}
    {stylesheet stylesheet' colored : List Char} {root dark : Scope}
    (h : applyPalette palette stylesheet = .ok stylesheet')
    (hroot : scope ":root" stylesheet = .ok root)
    (hcolored : setInScope ":root" (colorProperties palette.light palette.lightForeground)
      stylesheet = .ok colored)
    (hdark : scope ".dark" colored = .ok dark) (hapart : root.after ≠ dark.after) :
    (∀ last, applyPalette last stylesheet' = applyPalette last stylesheet) ↔
      Steady "--primary".toList "--primary-foreground".toList
          (setProperty "--primary".toList palette.light.text root.body) ∧
        Steady "--primary".toList "--primary-foreground".toList
          (setProperty "--primary".toList palette.dark.text dark.body) := by
  obtain ⟨before, light, after⟩ := root
  obtain ⟨before', night, after'⟩ := dark
  rw [applyPalette, hcolored] at h
  obtain ⟨rfl, hopens, hlight, follow, rfl⟩ := (scope_eq_ok_iff isSelector_root).mp hroot
  obtain ⟨hcut, hopens', hnight, follow', rfl⟩ := (scope_eq_ok_iff isSelector_dark).mp hdark
  rw [setInScope_append isSelector_root hopens hlight] at hcolored
  obtain ⟨light', hlight', rfl⟩ := exists_of_map_eq_ok hcolored
  rw [hcut] at h
  simp only at h
  rw [setInScope_append isSelector_dark hopens' hnight] at h
  obtain ⟨night', hnight', rfl⟩ := exists_of_map_eq_ok h
  obtain ⟨-, -, hpaint⟩ := setAll_colorProperties_eq_ok_iff.mp hlight'
  have hclosing : '\x7d' ∉ light' := hpaint ▸ closing_not_mem_paint _ _ hlight
  -- Either block may come first.
  rcases append_eq_append_of_ne hclosing hnight (fun heq => hapart (by rw [heq])) hcut with
    ⟨between, rfl, rfl⟩ | ⟨between, rfl, rfl⟩
  · obtain ⟨hrow, hquiet⟩ := (opens_append_iff isSelector_dark hopens light').mp hopens'
    have hiff := (hrow.frame_root follow').applyPalette_iff hlight hnight (by simp)
      (fun _ => hquiet) hlight' hnight'
    simpa [inPlaces] using hiff
  · obtain ⟨hrow, hquiet⟩ := (opens_append_iff isSelector_root hopens' night).mp hopens
    have hiff := (hrow.frame_dark follow).applyPalette_iff hlight hnight (fun _ => hquiet)
      (by simp) hlight' hnight'
    simpa [inPlaces] using hiff

/-- A stylesheet with a block for light and one for dark mode. -/
def twoBlocks (light dark : String) : List Char :=
  ":root\x7b".toList ++ light.toList ++ "\x7d\n.dark\x7b".toList ++ dark.toList ++ "\x7d\n".toList

/-- Bodies of given characters need not be decoded. -/
theorem twoBlocks_ofList (light dark : List Char) :
    twoBlocks (String.ofList light) (String.ofList dark) =
      ":root\x7b".toList ++ light ++ "\x7d\n.dark\x7b".toList ++ dark ++ "\x7d\n".toList := by
  unfold twoBlocks
  repeat rw [String.toList_ofList]

/-- The palette of black. -/
def blackPalette : Palette := .ofColor ⟨0, 0, 0⟩

/-- The palette of black goes into both blocks: the first pass finds the one for light mode and leaves
the one for dark mode as it is, and the second pass finds that. -/
theorem passes_twoBlocks :
    applyPalette blackPalette (twoBlocks "--primary:#111;--primary-foreground:#fff;"
        "--primary:#fff;--primary-foreground:#111;") =
      .ok (twoBlocks "--primary:oklch(0 0 0);--primary-foreground:oklch(0.985 0 0);"
        "--primary:oklch(0.3 0 0);--primary-foreground:oklch(0.985 0 0);") ∧
    scope ":root" (twoBlocks "--primary:#111;--primary-foreground:#fff;"
      "--primary:#fff;--primary-foreground:#111;") = .ok ⟨":root\x7b".toList,
        "--primary:#111;--primary-foreground:#fff;".toList,
        "\x7d\n.dark\x7b--primary:#fff;--primary-foreground:#111;\x7d\n".toList⟩ ∧
    setInScope ":root" (colorProperties blackPalette.light blackPalette.lightForeground)
      (twoBlocks "--primary:#111;--primary-foreground:#fff;"
        "--primary:#fff;--primary-foreground:#111;") =
      .ok (twoBlocks "--primary:oklch(0 0 0);--primary-foreground:oklch(0.985 0 0);"
        "--primary:#fff;--primary-foreground:#111;") ∧
    scope ".dark" (twoBlocks "--primary:oklch(0 0 0);--primary-foreground:oklch(0.985 0 0);"
        "--primary:#fff;--primary-foreground:#111;") = .ok ⟨
        ":root\x7b--primary:oklch(0 0 0);--primary-foreground:oklch(0.985 0 0);".toList ++
          "\x7d\n.dark\x7b".toList,
        "--primary:#fff;--primary-foreground:#111;".toList, "\x7d\n".toList⟩ := by
  repeat rw [twoBlocks_ofList]
  repeat rw [String.toList_ofList]
  decide +kernel

/-- Where no value has a colon, the last palette is the one that counts. -/
theorem applyPalette_applyPalette_iff_two_blocks :
    applyPalette blackPalette (twoBlocks "--primary:#111;--primary-foreground:#fff;"
        "--primary:#fff;--primary-foreground:#111;") =
      .ok (twoBlocks "--primary:oklch(0 0 0);--primary-foreground:oklch(0.985 0 0);"
        "--primary:oklch(0.3 0 0);--primary-foreground:oklch(0.985 0 0);") ∧
    ∀ last, applyPalette last
        (twoBlocks "--primary:oklch(0 0 0);--primary-foreground:oklch(0.985 0 0);"
          "--primary:oklch(0.3 0 0);--primary-foreground:oklch(0.985 0 0);") =
      applyPalette last (twoBlocks "--primary:#111;--primary-foreground:#fff;"
        "--primary:#fff;--primary-foreground:#111;") := by
  obtain ⟨happlied, hroot, hcolored, hdark⟩ := passes_twoBlocks
  refine ⟨happlied, (applyPalette_applyPalette_iff happlied hroot hcolored hdark (by decide)).mpr
    ⟨?_, ?_⟩⟩
  · exact Steady.of_colon_not_mem different_primary (Oklch.isValue_text _)
      (setProperty_primary_setProperty _ _ _) (by decide +kernel) (by decide +kernel)
  · exact Steady.of_colon_not_mem different_primary (Oklch.isValue_text _)
      (setProperty_primary_setProperty _ _ _) (by decide +kernel) (by decide +kernel)

/-- A comment with a declaration in a value keeps the next declaration from being seen the first
time, but not the second. -/
theorem exists_applyPalette_applyPalette_ne :
    ∃ (palette : Palette) (stylesheet stylesheet' : List Char),
      applyPalette palette stylesheet = .ok stylesheet' ∧
        applyPalette palette stylesheet' ≠ applyPalette palette stylesheet := by
  refine ⟨blackPalette,
    twoBlocks "--primary-foreground:#fff /* --primary:#000 */;--primary:#111;"
      "--primary:#fff;--primary-foreground:#000;",
    twoBlocks "--primary-foreground:oklch(0.985 0 0);--primary:#111;"
      "--primary:oklch(0.3 0 0);--primary-foreground:oklch(0.985 0 0);", ?_, ?_⟩
  · rw [twoBlocks_ofList, twoBlocks_ofList]
    repeat rw [String.toList_ofList]
    decide +kernel
  · rw [twoBlocks_ofList, twoBlocks_ofList]
    repeat rw [String.toList_ofList]
    decide +kernel

end Stylesheet

end Siteworks
