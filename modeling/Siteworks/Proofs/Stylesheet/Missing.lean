import Mathlib
import Siteworks.Proofs.Stylesheet.LastPalette
import Siteworks.Proofs.Stylesheet.Occurrences

/-!
# What a palette misses

A block of a selector opens where the selector and a brace behind it come first on a line, and the
search finds the shortest beginning of the text that ends there. So a palette is refused exactly if,
for one of its two passes, no block opens, the first one is not closed, or its body lacks one of the
two declarations. What the second pass misses is missing in the text that the first one has left.
-/

namespace Siteworks.Stylesheet

open Text (isBlank)

/-! ## The first opening -/

/-- A text ends with the opening of a selector's block, and that comes first on its line; `fresh` says
that the line has been blank in front of the text. -/
def EndsInOpening (selector : List Char) (fresh : Bool) (text : List Char) : Prop :=
  ∃ front line space, text = front ++ line ++ (selector ++ space ++ ['\x7b']) ∧
    (∀ c ∈ line, isBlank c = true) ∧ (∀ c ∈ space, isBlank c = true) ∧
      ((front = [] ∧ fresh = true) ∨ front.getLast? = some '\n')

/-- A text ends with the first opening of a selector's block in it. -/
structure EndsInFirstOpening (selector text : List Char) : Prop where
  /-- It ends with an opening. -/
  ends : EndsInOpening selector true text
  /-- No shorter beginning does. -/
  first : ∀ shorter, shorter <+: text → EndsInOpening selector true shorter → shorter = text

variable {selector text rest : List Char} {fresh : Bool}

/-- An opening ends with a brace. -/
theorem not_endsInOpening_nil (selector : List Char) (fresh : Bool) :
    ¬ EndsInOpening selector fresh [] := by
  rintro ⟨front, line, space, htext, -⟩
  simp at htext

/-- The first character of a text starts the opening, or it stands in front of it. -/
theorem endsInOpening_cons_iff (c : Char) (text : List Char) :
    EndsInOpening selector fresh (c :: text) ↔
      (fresh = true ∧ opening? selector (c :: text) = some (c :: text, [])) ∨
        EndsInOpening selector (c = '\n' || fresh && isBlank c) text := by
  constructor
  · rintro ⟨_ | ⟨d, front⟩, line, space, htext, hline, hspace, hfront⟩
    · obtain ⟨-, hfresh⟩ : _ ∧ fresh = true := hfront.resolve_right (by simp)
      cases line with
      | nil => exact Or.inl ⟨hfresh, opening?_eq_some_iff.mpr ⟨space, htext, hspace, by simp⟩⟩
      | cons d line =>
        obtain ⟨rfl, rfl⟩ := List.cons.inj htext
        obtain ⟨hblank, hline⟩ := List.forall_mem_cons.mp hline
        exact Or.inr ⟨[], line, space, rfl, hline, hspace, Or.inl ⟨rfl, by simp [hfresh, hblank]⟩⟩
    · obtain ⟨rfl, rfl⟩ := List.cons.inj htext
      refine Or.inr ⟨front, line, space, rfl, hline, hspace, ?_⟩
      cases front with
      | nil => exact Or.inl ⟨rfl, by simp [show c = '\n' by simpa using hfront]⟩
      | cons d front => exact Or.inr (by simpa [List.getLast?_cons_cons] using hfront)
  · rintro (⟨hfresh, hopening⟩ | ⟨front, line, space, rfl, hline, hspace, ⟨rfl, hline'⟩ | hfront⟩)
    · obtain ⟨space, htext, hspace, -⟩ := opening?_eq_some_iff.mp hopening
      exact ⟨[], [], space, htext, by simp, hspace, Or.inl ⟨rfl, hfresh⟩⟩
    · rw [Bool.or_eq_true, decide_eq_true_eq, Bool.and_eq_true] at hline'
      rcases hline' with rfl | ⟨hfresh, hblank⟩
      · exact ⟨['\n'], line, space, rfl, hline, hspace, Or.inr rfl⟩
      · exact ⟨[], c :: line, space, rfl, List.forall_mem_cons.mpr ⟨hblank, hline⟩, hspace,
          Or.inl ⟨rfl, hfresh⟩⟩
    · exact ⟨c :: front, line, space, rfl, hline, hspace,
        Or.inr (by rw [List.getLast?_cons, hfront]; rfl)⟩

/-- No block is found exactly if no beginning of the text ends with an opening. -/
theorem cutAtOpening_eq_none_iff : cutAtOpening selector fresh text = none ↔
    ∀ before, before <+: text → ¬ EndsInOpening selector fresh before := by
  induction text generalizing fresh with
  | nil =>
    refine ⟨fun _ before hbefore => ?_, fun _ => rfl⟩
    rw [List.prefix_nil.mp hbefore]
    exact not_endsInOpening_nil selector fresh
  | cons c rest ih =>
    rw [cutAtOpening_cons, Option.or_eq_none_iff, Option.map_eq_none_iff, ih, ite_eq_right_iff]
    constructor
    · rintro ⟨hhere, hrest⟩ (_ | ⟨d, before⟩) hbefore hends
      · exact not_endsInOpening_nil selector fresh hends
      · obtain ⟨rfl, hinside⟩ := List.cons_prefix_cons.mp hbefore
        rcases (endsInOpening_cons_iff d before).mp hends with ⟨hfresh, hopening⟩ | hends
        · obtain ⟨follow, rfl⟩ := hinside
          cases (hhere hfresh).symm.trans (opening?_append_right hopening follow)
        · exact hrest before hinside hends
    · refine fun hnone => ⟨fun hfresh => ?_, fun before hinside hends => ?_⟩
      · by_contra hsome
        obtain ⟨⟨opening, follow⟩, hopening⟩ := Option.ne_none_iff_exists'.mp hsome
        obtain ⟨space, rfl, hspace, hcut⟩ := opening?_eq_some_iff.mp hopening
        exact hnone _ ⟨follow, hcut.symm⟩
          ⟨[], [], space, rfl, by simp, hspace, Or.inl ⟨rfl, hfresh⟩⟩
      · exact hnone (c :: before) (List.cons_prefix_cons.mpr ⟨rfl, hinside⟩)
          ((endsInOpening_cons_iff c before).mpr (Or.inr hends))

/-- In a text that ends with an opening the search finds one. -/
theorem EndsInOpening.exists_opens (h : EndsInOpening selector true text) :
    ∃ before, before <+: text ∧ Opens selector before := by
  have hsome : cutAtOpening selector true text ≠ none := fun hnone =>
    cutAtOpening_eq_none_iff.mp hnone text (List.prefix_refl text) h
  obtain ⟨⟨before, follow⟩, hcut⟩ := Option.ne_none_iff_exists'.mp hsome
  obtain ⟨rfl, -, hopens⟩ := exists_of_cutAtOpening hcut
  exact ⟨before, List.prefix_append before follow, hopens⟩

/-- Where the search finds a block, a beginning of the text ends with an opening. -/
theorem Opens.exists_endsInOpening (h : Opens selector text) :
    ∃ before, before <+: text ∧ EndsInOpening selector true before := by
  by_contra hnone
  push Not at hnone
  cases h.symm.trans (cutAtOpening_eq_none_iff.mpr hnone)

/-- The search ends at one place. -/
theorem Opens.eq_of_isPrefix (hselector : IsSelector selector) {before : List Char}
    (hbefore : Opens selector before) (htext : Opens selector text) (h : before <+: text) :
    before = text := by
  obtain ⟨follow, rfl⟩ := h
  have hcut := htext.symm.trans (cutAtOpening_before hselector hbefore follow)
  exact (Prod.mk.inj (Option.some.inj hcut)).1.symm

/-- The search ends with the first opening. -/
theorem opens_iff (hselector : IsSelector selector) :
    Opens selector text ↔ EndsInFirstOpening selector text := by
  constructor
  · intro hopens
    have hfirst (shorter : List Char) (hshorter : shorter <+: text)
        (hends : EndsInOpening selector true shorter) : shorter = text := by
      obtain ⟨before, hbefore, hopens'⟩ := hends.exists_opens
      obtain rfl := hopens'.eq_of_isPrefix hselector hopens (hbefore.trans hshorter)
      exact hshorter.eq_of_length_le hbefore.length_le
    obtain ⟨before, hbefore, hends⟩ := hopens.exists_endsInOpening
    exact ⟨hfirst before hbefore hends ▸ hends, hfirst⟩
  · rintro ⟨hends, hfirst⟩
    obtain ⟨before, hbefore, hopens⟩ := hends.exists_opens
    obtain ⟨shorter, hshorter, hends'⟩ := hopens.exists_endsInOpening
    obtain rfl := hfirst shorter (hshorter.trans hbefore) hends'
    rwa [hbefore.eq_of_length_le hshorter.length_le] at hopens

/-! ## What is missing -/

/-- A property that is missing in the body of a block when it is set, after the main colour if it is
the colour of text on that. -/
inductive BodyLacks (color : Oklch) (body : List Char) : String → Prop
  /-- The main colour is not declared. -/
  | primary (h : ¬ IsDeclared "--primary".toList body) : BodyLacks color body "--primary"
  /-- With the main colour set, the colour of text on it is not declared. -/
  | foreground (hcolor : IsDeclared "--primary".toList body)
    (h : ¬ IsDeclared "--primary-foreground".toList
      (setProperty "--primary".toList color.text body)) :
    BodyLacks color body "--primary-foreground"

/-- What is missing in a text when colours are put into the first block of a selector. -/
inductive Lacks (selector : String) (color : Oklch) (text : List Char) : TemplateFault → Prop
  /-- No block opens. -/
  | scope (h : ∀ before, before <+: text → ¬ EndsInOpening selector.toList true before) :
    Lacks selector color text (.noScope selector)
  /-- Behind the first opening no brace closes the block. -/
  | closing {before follow : List Char} (htext : text = before ++ follow)
    (hopens : EndsInFirstOpening selector.toList before) (hclosed : '\x7d' ∉ follow) :
    Lacks selector color text (.openScope selector)
  /-- The body of the block, up to the first closing brace, lacks a declaration. -/
  | declaration {before body follow : List Char} {name : String}
    (htext : text = before ++ body ++ '\x7d' :: follow)
    (hopens : EndsInFirstOpening selector.toList before) (hbody : '\x7d' ∉ body)
    (hlacks : BodyLacks color body name) :
    Lacks selector color text (.noDeclaration name selector)

section Pass

variable {selector : String} {color foreground : Oklch} {body : List Char} {e : GenerationError}

/-- Colours are refused exactly if the body lacks a declaration. -/
theorem setAll_colorProperties_eq_error_iff :
    setAll selector (colorProperties color foreground) body = .error e ↔
      ∃ name, e = .template file (.noDeclaration name selector) ∧ BodyLacks color body name := by
  have hcolor := declares_iff different_primary.isName_first body
  have hforeground := declares_iff different_primary.isName_second
    (setProperty "--primary".toList color.text body)
  simp only [colorProperties, setAll, lacks]
  constructor
  · intro h
    split at h
    next hdeclares =>
      split at h
      next => cases h
      next hdeclares' =>
        cases h
        exact ⟨_, rfl, .foreground (hcolor.mp hdeclares) (mt hforeground.mpr hdeclares')⟩
    next hdeclares =>
      cases h
      exact ⟨_, rfl, .primary (mt hcolor.mpr hdeclares)⟩
  · rintro ⟨name, rfl, hlacks | ⟨hdeclared, hlacks⟩⟩
    · rw [if_neg (mt hcolor.mp hlacks)]
    · rw [if_pos (hcolor.mpr hdeclared), if_neg (mt hforeground.mp hlacks)]

/-- Colours are refused exactly if the text lacks the block, its end or a declaration in it. -/
theorem setInScope_eq_error_iff (hselector : IsSelector selector.toList) :
    setInScope selector (colorProperties color foreground) text = .error e ↔
      ∃ fault, e = .template file fault ∧ Lacks selector color text fault := by
  constructor
  · intro h
    rw [setInScope] at h
    cases hscope : scope selector text with
    | error fault =>
      rw [hscope] at h
      cases h
      rw [scope] at hscope
      split at hscope
      next hnone =>
        cases hscope
        exact ⟨_, rfl, .scope (cutAtOpening_eq_none_iff.mp hnone)⟩
      next before follow hcut =>
        split at hscope
        next => cases hscope
        next hclosed =>
          cases hscope
          obtain ⟨htext, -, hopens⟩ := exists_of_cutAtOpening hcut
          exact ⟨_, rfl, .closing htext ((opens_iff hselector).mp hopens) hclosed⟩
    | ok cut =>
      obtain ⟨before, body, after⟩ := cut
      obtain ⟨htext, hopens, hbody, follow, rfl⟩ := (scope_eq_ok_iff hselector).mp hscope
      rw [hscope] at h
      simp only at h
      cases hset : setAll selector (colorProperties color foreground) body with
      | error fault =>
        rw [hset] at h
        cases h
        obtain ⟨name, rfl, hlacks⟩ := setAll_colorProperties_eq_error_iff.mp hset
        exact ⟨_, rfl, .declaration htext ((opens_iff hselector).mp hopens) hbody hlacks⟩
      | ok painted =>
        rw [hset] at h
        cases h
  · rintro ⟨fault, rfl, hnone | ⟨rfl, hopens, hclosed⟩ | ⟨rfl, hopens, hbody, hlacks⟩⟩
    · rw [setInScope, scope, cutAtOpening_eq_none_iff.mpr hnone]
      rfl
    · rw [setInScope, scope, cutAtOpening_before hselector ((opens_iff hselector).mpr hopens)]
      simp [hclosed, lacks]
    · rw [setInScope_append hselector ((opens_iff hselector).mpr hopens) hbody,
        setAll_colorProperties_eq_error_iff.mpr ⟨_, rfl, hlacks⟩]
      rfl

end Pass

/-- What is missing in a stylesheet for a palette: in the stylesheet itself for the colours of light
mode, and in the text with those for the colours of dark mode. -/
inductive PaletteLacks (palette : Palette) (stylesheet : List Char) : TemplateFault → Prop
  /-- The colours of light mode are refused. -/
  | root {fault : TemplateFault} (h : Lacks ":root" palette.light stylesheet fault) :
    PaletteLacks palette stylesheet fault
  /-- The colours of light mode are set, and those of dark mode are refused. -/
  | dark {fault : TemplateFault} {colored : List Char}
    (hcolored : setInScope ":root" (colorProperties palette.light palette.lightForeground)
      stylesheet = .ok colored)
    (h : Lacks ".dark" palette.dark colored fault) : PaletteLacks palette stylesheet fault

/-- A palette is refused exactly if something is missing, and that is named. -/
theorem applyPalette_eq_error_iff {palette : Palette} {stylesheet : List Char}
    {e : GenerationError} : applyPalette palette stylesheet = .error e ↔
      ∃ fault, e = .template file fault ∧ PaletteLacks palette stylesheet fault := by
  have hroot (fault : TemplateFault) (hlacks : Lacks ":root" palette.light stylesheet fault) :
      setInScope ":root" (colorProperties palette.light palette.lightForeground) stylesheet =
        .error (.template file fault) :=
    (setInScope_eq_error_iff isSelector_root).mpr ⟨fault, rfl, hlacks⟩
  rw [applyPalette]
  cases hcolored : setInScope ":root" (colorProperties palette.light palette.lightForeground)
      stylesheet with
  | error e' =>
    rw [Except.error.injEq]
    constructor
    · rintro rfl
      obtain ⟨fault, rfl, hlacks⟩ := (setInScope_eq_error_iff isSelector_root).mp hcolored
      exact ⟨fault, rfl, .root hlacks⟩
    · rintro ⟨fault, rfl, hlacks | ⟨hcolored', -⟩⟩
      · exact Except.error.inj (hcolored.symm.trans (hroot fault hlacks))
      · cases hcolored.symm.trans hcolored'
  | ok colored =>
    rw [setInScope_eq_error_iff isSelector_dark]
    constructor
    · rintro ⟨fault, rfl, hlacks⟩
      exact ⟨fault, rfl, .dark hcolored hlacks⟩
    · rintro ⟨fault, rfl, hlacks | ⟨hcolored', hlacks⟩⟩
      · cases hcolored.symm.trans (hroot fault hlacks)
      · obtain rfl := Except.ok.inj (hcolored.symm.trans hcolored')
        exact ⟨fault, rfl, hlacks⟩

end Siteworks.Stylesheet
