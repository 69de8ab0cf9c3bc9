import Mathlib
import Siteworks.Proofs.Stylesheet.Segments

/-!
# Blocks in a row

Where the first block of a selector opens does not depend on what follows, and a character that no
opening can have inside it cuts the search in two. So blocks that do not overlap are found in the
same places after their bodies have changed, unless a new body opens a block itself; and new values
in a body open none.
-/

namespace Siteworks.Stylesheet

open Text (isBlank)

variable {selector text rest : List Char} {fresh : Bool}

/-- The opening of a block is its selector, blanks and a brace. -/
theorem opening?_eq_some_iff {opening : List Char} : opening? selector text = some (opening, rest) ↔
    ∃ space, opening = selector ++ space ++ ['\x7b'] ∧ (∀ c ∈ space, isBlank c = true) ∧
      text = opening ++ rest := by
  simp only [opening?, Option.bind_eq_bind, Option.bind_eq_some_iff, Text.isPrefixOf?_eq_some_iff,
    Option.pure_def, Option.some.injEq, Prod.mk.injEq]
  constructor
  · rintro ⟨follow, rfl, inside, hinside, rfl, rfl⟩
    obtain ⟨hfollow, hspace, -⟩ := takeBlank_spec follow
    refine ⟨_, rfl, hspace, ?_⟩
    rw [List.append_assoc, List.append_assoc, ← hinside, ← hfollow]
  · rintro ⟨space, rfl, hspace, rfl⟩
    have hbrace : Text.StartsFull ('\x7b' :: rest) := .cons (by decide) rest
    refine ⟨space ++ '\x7b' :: rest, by simp, rest, ?_, ?_, rfl⟩
    · rw [takeBlank_append hspace hbrace]
      rfl
    · rw [takeBlank_append hspace hbrace]

/-- An opening stays one whatever follows. -/
theorem opening?_append_right {cut : List Char × List Char} (h : opening? selector text = some cut)
    (follow : List Char) : opening? selector (text ++ follow) = some (cut.1, cut.2 ++ follow) := by
  obtain ⟨space, hopening, hspace, rfl⟩ := opening?_eq_some_iff.mp h
  exact opening?_eq_some_iff.mpr ⟨space, hopening, hspace, List.append_assoc ..⟩

/-- A character that neither the selector nor blanks have can only end an opening. -/
theorem opening?_append {d : Char} (hd : d ∉ selector) (hblank : isBlank d = false)
    (front rest : List Char) : opening? selector (front ++ d :: rest) =
      (opening? selector (front ++ [d])).map fun cut => (cut.1, cut.2 ++ rest) := by
  ext ⟨opening, follow⟩
  simp only [Option.map_eq_some_iff, Prod.exists, Prod.mk.injEq, opening?_eq_some_iff]
  constructor
  · rintro ⟨space, rfl, hspace, hcut⟩
    have hnot : d ∉ selector ++ space := by
      rw [List.mem_append, not_or]
      exact ⟨hd, Text.not_mem_of_forall_isBlank hspace hblank⟩
    have hcut : (front ++ [d]) ++ rest = (selector ++ space ++ ['\x7b']) ++ follow := by
      simpa using hcut
    rcases List.append_eq_append_iff.mp hcut with ⟨between, hbegin, rfl⟩ | ⟨between, hbegin, rfl⟩
    · rcases List.eq_nil_or_concat between with rfl | ⟨between, c, rfl⟩
      · exact ⟨_, [], ⟨space, rfl, hspace, by simpa using hbegin.symm⟩, rfl, rfl⟩
      · rw [List.concat_eq_append, ← List.append_assoc] at hbegin
        refine (hnot ?_).elim
        rw [(List.append_inj' hbegin rfl).1]
        simp
    · exact ⟨_, between, ⟨space, rfl, hspace, hbegin⟩, rfl, rfl⟩
  · rintro ⟨_, follow, ⟨space, rfl, hspace, hcut⟩, rfl, rfl⟩
    refine ⟨space, rfl, hspace, ?_⟩
    rw [← List.append_assoc, ← hcut]
    simp

/-- A block opens here, or further on. -/
theorem cutAtOpening_cons (c : Char) (rest : List Char) (fresh : Bool) :
    cutAtOpening selector fresh (c :: rest) =
      (if fresh then opening? selector (c :: rest) else none).or
        ((cutAtOpening selector (c = '\n' || fresh && isBlank c) rest).map
          fun cut => (c :: cut.1, cut.2)) := by
  rw [cutAtOpening]
  cases (if fresh then opening? selector (c :: rest) else none) with
  | some cut => rfl
  | none =>
    cases cutAtOpening selector (c = '\n' || fresh && isBlank c) rest <;> rfl

/-- The search goes on behind a character that no opening has inside it as on a line with other
text. -/
theorem cutAtOpening_append {d : Char} (hd : d ∉ selector) (hblank : isBlank d = false)
    (front rest : List Char) (fresh : Bool) : cutAtOpening selector fresh (front ++ d :: rest) =
      ((cutAtOpening selector fresh (front ++ [d])).map fun cut => (cut.1, cut.2 ++ rest)).or
        ((cutAtOpening selector false rest).map fun cut => (front ++ d :: cut.1, cut.2)) := by
  have hfirst (front : List Char) (fresh : Bool) :
      (if fresh then opening? selector (front ++ d :: rest) else none) =
        (if fresh then opening? selector (front ++ [d]) else none).map
          fun cut => (cut.1, cut.2 ++ rest) := by
    cases fresh with
    | false => rfl
    | true => exact opening?_append hd hblank front rest
  induction front generalizing fresh with
  | nil =>
    have hline : (decide (d = '\n') || fresh && isBlank d) = false := by
      have hne : d ≠ '\n' := by
        rintro rfl
        simp [show isBlank '\n' = true by decide] at hblank
      simp [hne, hblank]
    have hhere := hfirst [] fresh
    simp only [List.nil_append] at hhere ⊢
    rw [cutAtOpening_cons, cutAtOpening_cons, hline, hhere]
    simp [cutAtOpening]
  | cons c front ih =>
    have hhere := hfirst (c :: front) fresh
    simp only [List.cons_append] at hhere ⊢
    rw [cutAtOpening_cons, cutAtOpening_cons, hhere, ih, Option.map_or, Option.map_or,
      Option.or_assoc]
    simp [Function.comp_def]

/-- The text up to the opening of a block is found whatever follows. -/
theorem exists_of_cutAtOpening {before follow : List Char}
    (h : cutAtOpening selector fresh text = some (before, follow)) :
    text = before ++ follow ∧ (∃ front, before = front ++ ['\x7b']) ∧
      cutAtOpening selector fresh before = some (before, []) := by
  induction text generalizing fresh before with
  | nil => cases h
  | cons c rest ih =>
    rw [cutAtOpening_cons, Option.or_eq_some_iff] at h
    rcases h with h | ⟨hnone, h⟩
    · obtain ⟨rfl, h⟩ := Option.ite_none_right_eq_some.mp h
      obtain ⟨space, rfl, hspace, hcut⟩ := opening?_eq_some_iff.mp h
      refine ⟨hcut, ⟨_, rfl⟩, ?_⟩
      obtain ⟨d, opening, hopening⟩ := List.exists_cons_of_ne_nil
        (show selector ++ space ++ ['\x7b'] ≠ [] by simp)
      rw [hopening, cutAtOpening_cons, if_pos rfl, Option.or_eq_some_iff]
      exact Or.inl (opening?_eq_some_iff.mpr ⟨space, hopening.symm, hspace, by simp⟩)
    · obtain ⟨⟨before, follow⟩, hrest, hcut⟩ := Option.map_eq_some_iff.mp h
      rw [Prod.mk.injEq] at hcut
      obtain ⟨rfl, rfl⟩ := hcut
      obtain ⟨rfl, ⟨front, rfl⟩, hbefore⟩ := ih hrest
      refine ⟨rfl, ⟨c :: front, rfl⟩, ?_⟩
      rw [cutAtOpening_cons, hbefore, Option.or_eq_some_iff]
      refine Or.inr ⟨ite_eq_right_iff.mpr fun hfresh => ?_, rfl⟩
      rw [if_pos hfresh] at hnone
      by_contra hsome
      obtain ⟨cut, hopening⟩ := Option.ne_none_iff_exists'.mp hsome
      cases hnone.symm.trans (opening?_append_right hopening follow)

/-- A text that can select a block: it has no brace and no semicolon. -/
structure IsSelector (selector : List Char) : Prop where
  /-- There is no opening brace. -/
  opening : '\x7b' ∉ selector
  /-- There is no closing brace. -/
  closing : '\x7d' ∉ selector
  /-- There is no semicolon. -/
  semicolon : ';' ∉ selector

/-- What follows the opening of a block makes no difference to where it is. -/
theorem cutAtOpening_before (hselector : IsSelector selector) {before : List Char}
    (h : cutAtOpening selector fresh before = some (before, [])) (follow : List Char) :
    cutAtOpening selector fresh (before ++ follow) = some (before, follow) := by
  obtain ⟨-, ⟨front, rfl⟩, -⟩ := exists_of_cutAtOpening h
  rw [List.append_assoc, List.singleton_append,
    cutAtOpening_append hselector.opening (by decide), h]
  rfl

/-- The text goes up to the opening brace of the first block of a selector. -/
def Opens (selector text : List Char) : Prop := cutAtOpening selector true text = some (text, [])

/-- A body is that of the first block of a selector exactly if the text before it goes up to the
opening brace and the body up to the first closing brace behind it. -/
theorem scope_eq_ok_iff {selector : String} (hselector : IsSelector selector.toList)
    {before body after : List Char} : scope selector text = .ok ⟨before, body, after⟩ ↔
      text = before ++ body ++ after ∧ Opens selector.toList before ∧ '\x7d' ∉ body ∧
        ∃ follow, after = '\x7d' :: follow := by
  rw [scope]
  constructor
  · intro h
    split at h
    next => cases h
    next before' follow hcut =>
      obtain ⟨rfl, -, hopens⟩ := exists_of_cutAtOpening hcut
      split at h
      next hclosed =>
        cases h
        obtain ⟨rest, hrest⟩ := Text.exists_eq_takeWhile_append hclosed
        refine ⟨by simp, hopens, fun hmem => by simpa using List.mem_takeWhile_imp hmem, rest, ?_⟩
        exact List.append_cancel_left (List.takeWhile_append_dropWhile.trans hrest)
      next => cases h
  · rintro ⟨rfl, hopens, hbody, follow, rfl⟩
    have hkeep : ∀ c ∈ body, decide (c ≠ '\x7d') = true := fun c hc => by
      simpa using ne_of_mem_of_not_mem hc hbody
    rw [List.append_assoc, cutAtOpening_before hselector hopens]
    simp only [List.mem_append, List.mem_cons, true_or, or_true, if_true]
    rw [List.takeWhile_append_of_pos hkeep, List.dropWhile_append_of_pos hkeep]
    simp

/-- Setting properties in a block changes its body only. -/
theorem setInScope_append {selector : String} (hselector : IsSelector selector.toList)
    {before body : List Char} (hopens : Opens selector.toList before) (hbody : '\x7d' ∉ body)
    (follow : List Char) (properties : List (String × List Char)) :
    setInScope selector properties (before ++ body ++ '\x7d' :: follow) =
      (setAll selector properties body).map fun body => before ++ body ++ '\x7d' :: follow := by
  have hscope := (scope_eq_ok_iff hselector).mpr ⟨rfl, hopens, hbody, follow, rfl⟩
  rw [setInScope, hscope]
  simp only
  cases setAll selector properties body <;> rfl

/-- A body of a block opens no block of a selector. -/
def Quiet (selector body : List Char) : Prop :=
  cutAtOpening selector false (body ++ ['\x7d']) = none

/-- Behind the first block of the one selector comes the first one of the other. -/
structure InRow (selector selector' before between : List Char) : Prop where
  /-- There is the opening of the first block. -/
  first : Opens selector before
  /-- The second block does not open before. -/
  notBefore : cutAtOpening selector' true before = none
  /-- Behind the first block there is the opening of the second one. -/
  second : cutAtOpening selector' false between = some (between, [])

/-- A block opens behind another one if that does not open it. -/
theorem opens_append_iff {selector' before between : List Char} (hselector' : IsSelector selector')
    (hopens : Opens selector before) (body : List Char) :
    Opens selector' (before ++ body ++ '\x7d' :: between) ↔
      InRow selector selector' before between ∧ Quiet selector' body := by
  obtain ⟨-, ⟨front, rfl⟩, -⟩ := exists_of_cutAtOpening hopens
  -- The braces of the first block cut the search into what is before it, its body and the rest.
  have hnone : cutAtOpening selector' true (front ++ ['\x7b'] ++ body ++ ['\x7d']) = none ↔
      cutAtOpening selector' true (front ++ ['\x7b']) = none ∧ Quiet selector' body := by
    rw [List.append_assoc, List.append_assoc, List.singleton_append,
      cutAtOpening_append hselector'.opening (by decide), Option.or_eq_none_iff]
    simp only [Option.map_eq_none_iff, Quiet]
  rw [Opens, cutAtOpening_append hselector'.closing (by decide), Option.or_eq_some_iff]
  constructor
  · rintro (h | ⟨h, hsecond⟩)
    · obtain ⟨⟨before, follow⟩, hbefore, hcut⟩ := Option.map_eq_some_iff.mp h
      simp only [Prod.mk.injEq, List.append_eq_nil_iff] at hcut
      obtain ⟨rfl, rfl, rfl⟩ := hcut
      obtain ⟨-, ⟨rest, hrest⟩, -⟩ := exists_of_cutAtOpening hbefore
      cases (List.append_inj' hrest rfl).2
    · obtain ⟨hbefore, hquiet⟩ := hnone.mp (Option.map_eq_none_iff.mp h)
      obtain ⟨⟨between', follow⟩, hbetween, hcut⟩ := Option.map_eq_some_iff.mp hsecond
      rw [Prod.mk.injEq] at hcut
      obtain ⟨hcut, rfl⟩ := hcut
      obtain rfl := (List.cons.inj (List.append_cancel_left hcut)).2
      exact ⟨⟨hopens, hbefore, hbetween⟩, hquiet⟩
  · rintro ⟨⟨-, hbefore, hbetween⟩, hquiet⟩
    refine Or.inr ⟨Option.map_eq_none_iff.mpr (hnone.mpr ⟨hbefore, hquiet⟩), ?_⟩
    rw [hbetween]
    rfl

/-- Two texts agree up to where the second one goes on without an opening brace. -/
def Alike (text text' : List Char) : Prop :=
  ∃ start rest rest', text = start ++ rest ∧ text' = start ++ rest' ∧ '\x7b' ∉ rest'

/-- No block opens where texts stop to agree. -/
theorem Alike.cutAtOpening_eq_none {text' : List Char} (h : Alike text text')
    (hselector : IsSelector selector)
    (hnone : cutAtOpening selector fresh (text ++ [';']) = none) :
    cutAtOpening selector fresh (text' ++ [';']) = none := by
  obtain ⟨start, rest, rest', rfl, rfl, hrest⟩ := h
  by_contra hsome
  obtain ⟨⟨before, follow⟩, hcut⟩ := Option.ne_none_iff_exists'.mp hsome
  obtain ⟨htext, ⟨front, rfl⟩, hbefore⟩ := exists_of_cutAtOpening hcut
  have hinside : front ++ ['\x7b'] <+: start := by
    rw [List.append_assoc] at htext
    rcases List.append_eq_append_iff.mp htext with ⟨between, hfront, hbetween⟩ | ⟨between, rfl, -⟩
    · rcases List.eq_nil_or_concat between with rfl | ⟨between, c, rfl⟩
      · rw [hfront, List.append_nil]
      · rw [List.concat_eq_append, ← List.append_assoc] at hfront
        obtain rfl : '\x7b' = c := by simpa using (List.append_inj' hfront rfl).2
        have hmem : '\x7b' ∈ rest' ++ [';'] := by simp [hbetween]
        simp [hrest] at hmem
    · exact List.prefix_append _ _
  obtain ⟨between, rfl⟩ := hinside
  rw [List.append_assoc, List.append_assoc, cutAtOpening_before hselector hbefore] at hnone
  cases hnone

/-- Segments that agree up to values open no block if the one row of them does not. -/
theorem cutAtOpening_closedText_eq_none {segments segments' : List (List Char)} {last : List Char}
    (hselector : IsSelector selector) (halike : List.Forall₂ Alike segments segments')
    (hnone : cutAtOpening selector fresh (closedText segments last) = none) :
    cutAtOpening selector fresh (closedText segments' last) = none := by
  induction halike generalizing fresh with
  | nil => exact hnone
  | cons hsegment _ ih =>
    rw [closedText_cons, cutAtOpening_append hselector.semicolon (by decide), Option.or_eq_none_iff,
      Option.map_eq_none_iff, Option.map_eq_none_iff] at hnone ⊢
    exact ⟨hsegment.cutAtOpening_eq_none hselector hnone.1, ih hnone.2⟩

/-- A body that agrees with a quiet one up to values is quiet. -/
theorem Quiet.of_alike {segments segments' : List (List Char)} {last : List Char}
    (hselector : IsSelector selector) (halike : List.Forall₂ Alike segments segments')
    (hquiet : Quiet selector (closedText segments last)) :
    Quiet selector (closedText segments' last) := by
  rw [Quiet, closedText, List.append_assoc] at hquiet ⊢
  exact cutAtOpening_closedText_eq_none hselector halike hquiet

/-- A new value leaves a segment as it was up to the value. -/
theorem alike_revalue {name new segment : List Char} (hnew : IsValue new) :
    Alike segment (revalue new segment (found? name fresh segment)) := by
  cases hfound : found? name fresh segment with
  | none => exact ⟨segment, [], [], by simp, by simp, by simp⟩
  | some start =>
    obtain ⟨-, -, value, -, -, rfl, -⟩ := exists_head_of_found? hfound
    exact ⟨start, value, new, rfl, rfl, hnew.brace.1⟩

/-- New values leave segments as they were up to the values. -/
theorem forall₂_alike_recast {name new : List Char} (hnew : IsValue new)
    (segments : List (List Char)) :
    List.Forall₂ Alike segments (recast new segments (marks name fresh segments)) := by
  induction segments generalizing fresh with
  | nil => exact .nil
  | cons segment segments ih =>
    rw [marks, recast_cons]
    exact .cons (alike_revalue hnew) ih

/-- A body stays quiet when a property in it is set. -/
theorem quiet_setProperty {name new body : List Char} (hselector : IsSelector selector)
    (hname : IsName name) (hnew : IsValue new) (hquiet : Quiet selector body) :
    Quiet selector (setProperty name new body) := by
  obtain ⟨segments, last, rfl, hsegments, hlast⟩ := exists_closedText body
  rw [setProperty_closedText hname hsegments hlast]
  exact hquiet.of_alike hselector (forall₂_alike_recast hnew segments)

/-! ## Two blocks -/

/-- The bodies of two blocks in their places, one behind the other. -/
def inPlaces (before between follow body body' : List Char) : List Char :=
  before ++ body ++ '\x7d' :: (between ++ body' ++ '\x7d' :: follow)

section Places

variable {before between follow body body' : List Char}

/-- Bodies without closing braces can be told from what is around them. -/
theorem inPlaces_inj {other other' : List Char} (hbody : '\x7d' ∉ body) (hbody' : '\x7d' ∉ body')
    (hother : '\x7d' ∉ other) (hother' : '\x7d' ∉ other')
    (h : inPlaces before between follow body body' = inPlaces before between follow other other') :
    body = other ∧ body' = other' := by
  simp only [inPlaces, List.append_assoc] at h
  obtain ⟨rfl, hrest⟩ := Text.cut_inj hbody hother (List.append_cancel_left h)
  obtain ⟨rfl, -⟩ := Text.cut_inj hbody' hother' (List.append_cancel_left hrest)
  exact ⟨rfl, rfl⟩

variable {selector selector' : String}

/-- Setting properties in the first block. -/
theorem InRow.setInScope_first (hselector : IsSelector selector.toList)
    (h : InRow selector.toList selector'.toList before between) (hbody : '\x7d' ∉ body)
    (properties : List (String × List Char)) :
    setInScope selector properties (inPlaces before between follow body body') =
      (setAll selector properties body).map fun body => inPlaces before between follow body body' :=
  setInScope_append hselector h.first hbody _ properties

/-- Setting properties in the second block, where the body of the first one opens none. -/
theorem InRow.setInScope_second (hselector : IsSelector selector'.toList)
    (h : InRow selector.toList selector'.toList before between)
    (hquiet : Quiet selector'.toList body) (hbody : '\x7d' ∉ body')
    (properties : List (String × List Char)) :
    setInScope selector' properties (inPlaces before between follow body body') =
      (setAll selector' properties body').map (inPlaces before between follow body) := by
  have hopens := (opens_append_iff hselector h.first body).mpr ⟨h, hquiet⟩
  have hsplit (body' : List Char) : inPlaces before between follow body body' =
      before ++ body ++ '\x7d' :: between ++ body' ++ '\x7d' :: follow := by simp [inPlaces]
  rw [hsplit, setInScope_append hselector hopens hbody]
  exact congrFun (congrArg _ (funext fun body' => (hsplit body').symm)) _

/-- Two blocks that stand in a row are found. -/
theorem InRow.scopes (hselector : IsSelector selector.toList)
    (hselector' : IsSelector selector'.toList)
    (h : InRow selector.toList selector'.toList before between)
    (hquiet : Quiet selector'.toList body) (hbody : '\x7d' ∉ body) (hbody' : '\x7d' ∉ body')
    (follow : List Char) :
    scope selector (inPlaces before between follow body body') =
        .ok ⟨before, body, '\x7d' :: (between ++ body' ++ '\x7d' :: follow)⟩ ∧
      scope selector' (inPlaces before between follow body body') =
        .ok ⟨before ++ body ++ '\x7d' :: between, body', '\x7d' :: follow⟩ :=
  ⟨(scope_eq_ok_iff hselector).mpr ⟨rfl, h.first, hbody, _, rfl⟩,
    (scope_eq_ok_iff hselector').mpr ⟨by simp [inPlaces],
      (opens_append_iff hselector' h.first body).mpr ⟨h, hquiet⟩, hbody', _, rfl⟩⟩

/-- What stands before a body without a closing brace has the closing braces of both. -/
theorem exists_between {start rest : List Char} (hbody : '\x7d' ∉ body)
    (h : before ++ body = start ++ '\x7d' :: rest) :
    ∃ between, before = start ++ '\x7d' :: between ∧ rest = between ++ body := by
  rcases List.append_eq_append_iff.mp h with ⟨_, rfl, rfl⟩ | ⟨_ | ⟨c, between⟩, rfl, hrest⟩
  · simp at hbody
  · obtain rfl : '\x7d' :: rest = body := hrest
    simp at hbody
  · obtain ⟨rfl, rfl⟩ := List.cons.inj hrest
    exact ⟨between, rfl, rfl⟩

/-- Two bodies without closing braces that end at different braces do not overlap. -/
theorem append_eq_append_of_ne {after after' : List Char} (hbody : '\x7d' ∉ body)
    (hbody' : '\x7d' ∉ body') (hne : after ≠ after')
    (h : before ++ body ++ '\x7d' :: after = follow ++ body' ++ '\x7d' :: after') :
    (∃ between, follow = before ++ body ++ '\x7d' :: between ∧
      after = between ++ body' ++ '\x7d' :: after') ∨
      ∃ between, before = follow ++ body' ++ '\x7d' :: between ∧
        after' = between ++ body ++ '\x7d' :: after := by
  rcases List.append_eq_append_iff.mp h with ⟨_ | ⟨c, rest⟩, hbegin, hend⟩ |
    ⟨_ | ⟨c, rest⟩, hbegin, hend⟩
  · exact (hne (List.cons.inj hend).2).elim
  · obtain ⟨rfl, rfl⟩ := List.cons.inj hend
    obtain ⟨between, hfollow, rfl⟩ := exists_between hbody' hbegin
    exact Or.inl ⟨between, hfollow, rfl⟩
  · exact (hne (List.cons.inj hend).2.symm).elim
  · obtain ⟨rfl, rfl⟩ := List.cons.inj hend
    obtain ⟨between, hbefore, rfl⟩ := exists_between hbody hbegin
    exact Or.inr ⟨between, hbefore, rfl⟩

end Places

end Siteworks.Stylesheet
