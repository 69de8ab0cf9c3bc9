import Mathlib
import Siteworks.Proofs.Stylesheet.LastPalette
import Siteworks.Proofs.Stylesheet.Occurrences

/-!
# What a palette keeps of a body

Painting the body of a block goes from semicolon to semicolon. A piece in which no colour is declared
stays as it is, a piece goes on as before at least up to the first brace behind which one is declared,
and no piece comes to open a block. So a block that opens inside the body opens there afterwards as
well, and the pieces of its body are kept too, unless a colour is declared in front of it that no
semicolon closes before the opening: its value goes up to the first semicolon behind the brace.
-/

namespace Siteworks.Stylesheet

open Text (isBlank)

variable {segment segment' rest rest' front inner inner' body body' body'' : List Char}

/-! ## Declarations of colours -/

/-- The properties that a palette sets in a block. -/
def colorNames : List String := ["--primary", "--primary-foreground"]

/-- A colour is declared somewhere in the text. -/
def Colors (text : List Char) : Prop :=
  ∃ name ∈ colorNames, ∃ start rest, DeclaredAt name.toList text start rest

/-- A semicolon closes every declaration of a colour in the text. -/
def ColorsClosed (text : List Char) : Prop :=
  ∀ name ∈ colorNames, ∀ start rest, DeclaredAt name.toList text start rest → ';' ∈ rest

/-- The properties are named. -/
theorem isName_of_mem_colorNames {name : String} (h : name ∈ colorNames) : IsName name.toList := by
  obtain rfl | rfl : name = "--primary" ∨ name = "--primary-foreground" := by
    simpa [colorNames] using h
  · exact different_primary.isName_first
  · exact different_primary.isName_second

/-- An opening brace parts declarations of colours. -/
theorem parts_of_mem_colorNames {name : String} (h : name ∈ colorNames) :
    Parts name.toList '\x7b' := by
  have hbrace : ∀ name ∈ colorNames, '\x7b' ∉ name.toList := by decide
  exact ⟨hbrace name h, by decide, by decide, by decide⟩

/-- Colours are declared in front of a brace or behind it. -/
theorem colors_append_iff :
    Colors (front ++ '\x7b' :: rest) ↔ Colors front ∨ Colors rest := by
  constructor
  · rintro ⟨name, hname, start, behind, hdeclared⟩
    rcases (declaredAt_append_iff (parts_of_mem_colorNames hname)).mp hdeclared with
      ⟨between, -, hdeclared⟩ | ⟨start, -, hdeclared⟩
    · exact Or.inl ⟨name, hname, start, between, hdeclared⟩
    · exact Or.inr ⟨name, hname, start, behind, hdeclared⟩
  · rintro (⟨name, hname, start, between, hdeclared⟩ | ⟨name, hname, start, behind, hdeclared⟩)
    · exact ⟨name, hname, start, _, (declaredAt_append_iff (parts_of_mem_colorNames hname)).mpr
        (Or.inl ⟨between, rfl, hdeclared⟩)⟩
    · exact ⟨name, hname, _, behind, (declaredAt_append_iff (parts_of_mem_colorNames hname)).mpr
        (Or.inr ⟨start, rfl, hdeclared⟩)⟩

/-- Declarations are closed up to the end if those behind a semicolon are. -/
theorem colorsClosed_append_iff : ColorsClosed (segment ++ ';' :: rest) ↔ ColorsClosed rest := by
  constructor
  · intro h name hname start behind hdeclared
    exact h name hname _ behind ((declaredAt_append_iff (isName_of_mem_colorNames hname).parts).mpr
      (Or.inr ⟨start, rfl, hdeclared⟩))
  · intro h name hname start behind hdeclared
    rcases (declaredAt_append_iff (isName_of_mem_colorNames hname).parts).mp hdeclared with
      ⟨between, rfl, -⟩ | ⟨start, -, hdeclared⟩
    · simp
    · exact h name hname start behind hdeclared

/-- A text without a hyphen declares no colour. -/
theorem ColorsClosed.of_hyphen_not_mem (h : '-' ∉ body) : ColorsClosed body := by
  have hhyphen : ∀ name ∈ colorNames, '-' ∈ name.toList := by decide
  rintro name hname start rest ⟨⟨space, rfl, -⟩, -⟩
  exact absurd (by simp [hhyphen name hname]) h

/-- Where declarations are closed up to a brace, none is without a semicolon in front of it. -/
theorem ColorsClosed.not_colors (h : ColorsClosed (front ++ ['\x7b'])) (hfront : ';' ∉ front) :
    ¬ Colors front := by
  rintro ⟨name, hname, start, rest, hdeclared⟩
  have hclosed := h name hname start (rest ++ ['\x7b'])
    ((declaredAt_append_iff (parts_of_mem_colorNames hname)).mpr (Or.inl ⟨rest, rfl, hdeclared⟩))
  obtain ⟨⟨space, rfl, -⟩, -⟩ := hdeclared
  simp only [List.mem_append, List.mem_cons, not_or] at hfront hclosed
  rcases hclosed with hclosed | hclosed
  · exact hfront.2.2 hclosed
  · simp at hclosed

/-! ## Pieces -/

/-- What painting makes of a piece between semicolons. -/
structure Repaints (segment segment' : List Char) : Prop where
  /-- A piece without a declaration stays. -/
  kept : ¬ Colors segment → segment' = segment
  /-- Up to a brace with no declaration before it, the piece goes on as before. -/
  begins : ∀ {front rest}, segment = front ++ '\x7b' :: rest → ¬ Colors front →
    ∃ rest', segment' = front ++ '\x7b' :: rest'
  /-- The piece opens no block if it has opened none. -/
  quiet : ∀ {selector fresh}, IsSelector selector →
    cutAtOpening selector fresh (segment ++ [';']) = none →
      cutAtOpening selector fresh (segment' ++ [';']) = none

/-- A piece may stay. -/
theorem Repaints.refl (segment : List Char) : Repaints segment segment :=
  ⟨fun _ => rfl, fun hcut _ => ⟨_, hcut⟩, fun _ hquiet => hquiet⟩

/-- A piece may be painted twice. -/
theorem Repaints.trans {segment'' : List Char} (h : Repaints segment segment')
    (h' : Repaints segment' segment'') : Repaints segment segment'' where
  kept hplain := by
    have hsame := h.kept hplain
    rw [h'.kept (hsame.symm ▸ hplain), hsame]
  begins hcut hplain := by
    obtain ⟨rest, hrest⟩ := h.begins hcut hplain
    exact h'.begins hrest hplain
  quiet hselector hquiet := h'.quiet hselector (h.quiet hselector hquiet)

/-- A new value for a colour paints a piece. -/
theorem repaints_revalue {name : String} (hname : name ∈ colorNames) {new : List Char}
    (hnew : IsValue new) (fresh : Bool) (segment : List Char) :
    Repaints segment (revalue new segment (found? name.toList fresh segment)) := by
  cases hfound : found? name.toList fresh segment with
  | none => exact .refl segment
  | some start =>
    obtain ⟨place, behind, hinside, hdeclared⟩ := exists_declaredAt_of_found? hfound
    refine ⟨fun hplain => absurd ⟨name, hname, place, behind, hdeclared⟩ hplain, ?_, ?_⟩
    · rintro front rest rfl hplain
      rcases (declaredAt_append_iff (parts_of_mem_colorNames hname)).mp hdeclared with
        ⟨between, -, hdeclared⟩ | ⟨place, rfl, -⟩
      · exact absurd ⟨name, hname, place, between, hdeclared⟩ hplain
      · obtain ⟨follow, rfl⟩ := hinside
        exact ⟨place ++ follow ++ new, by simp⟩
    · intro selector fresh' hselector
      rw [← hfound]
      exact (alike_revalue hnew).cutAtOpening_eq_none hselector

/-- A text is painted piece by piece; what follows the last semicolon stays. -/
inductive Paints : List Char → List Char → Prop
  /-- What follows the last semicolon. -/
  | last {text : List Char} (htext : ';' ∉ text) : Paints text text
  /-- A piece in front of a semicolon. -/
  | cons {segment segment' rest rest' : List Char} (hsegment : ';' ∉ segment)
    (hsegment' : ';' ∉ segment') (hpaints : Repaints segment segment') (hrest : Paints rest rest') :
    Paints (segment ++ ';' :: rest) (segment' ++ ';' :: rest')

/-- The first piece that is painted goes up to the first semicolon. -/
theorem Paints.exists_cons (h : Paints (segment ++ ';' :: rest) body) (hsegment : ';' ∉ segment) :
    ∃ segment' rest', body = segment' ++ ';' :: rest' ∧ ';' ∉ segment' ∧ Repaints segment segment' ∧
      Paints rest rest' := by
  generalize htext : segment ++ ';' :: rest = text at h
  cases h with
  | last hlast => exact absurd (by simp [← htext]) hlast
  | @cons first first' behind behind' hfirst hfirst' hpaints hbehind =>
    obtain ⟨rfl, rfl⟩ := Text.cut_inj hsegment hfirst htext
    exact ⟨first', behind', rfl, hfirst', hpaints, hbehind⟩

/-- A text may be painted twice. -/
theorem Paints.trans (h : Paints body body') (h' : Paints body' body'') : Paints body body'' := by
  induction h generalizing body'' with
  | last => exact h'
  | cons hsegment hsegment' hpaints _ ih =>
    obtain ⟨segment'', rest'', rfl, hsegment'', hpaints', hrest⟩ := h'.exists_cons hsegment'
    exact .cons hsegment hsegment'' (hpaints.trans hpaints') (ih hrest)

/-- Setting a colour paints a text. -/
theorem paints_setProperty {name : String} (hname : name ∈ colorNames) {new : List Char}
    (hnew : IsValue new) (body : List Char) : Paints body (setProperty name.toList new body) := by
  obtain ⟨segments, last, rfl, hsegments, hlast⟩ := exists_closedText body
  rw [setProperty_closedText (isName_of_mem_colorNames hname) hsegments hlast]
  generalize true = fresh
  induction segments generalizing fresh with
  | nil => exact .last hlast
  | cons segment segments ih =>
    have hrecast : ∀ segment' ∈ recast new (segment :: segments)
        (marks name.toList fresh (segment :: segments)), ';' ∉ segment' :=
      semicolon_not_mem_recast hnew.semicolon hsegments
    rw [marks, recast_cons, List.forall_mem_cons] at hrecast
    rw [marks, recast_cons, closedText_cons, closedText_cons]
    obtain ⟨hsegment, hsegments⟩ := List.forall_mem_cons.mp hsegments
    exact .cons hsegment hrecast.1 (repaints_revalue hname hnew fresh segment) (ih hsegments _)

/-- A body with new colours is painted. -/
theorem paints_paint (color foreground : Oklch) (body : List Char) :
    Paints body (paint color foreground body) :=
  (paints_setProperty (by decide) color.isValue_text body).trans
    (paints_setProperty (by decide) foreground.isValue_text _)

/-! ## Bodies -/

/-- A body has as many semicolons as before, and a piece between them in which no colour is declared is
the same in the same place. -/
structure Keeps (body body' : List Char) : Prop where
  /-- There are as many semicolons. -/
  count : body'.count ';' = body.count ';'
  /-- A piece without a declaration stays. -/
  piece : ∀ {k : Nat} {piece : List Char}, (body.splitOn ';')[k]? = some piece → ¬ Colors piece →
    (body'.splitOn ';')[k]? = some piece

/-- A body may stay. -/
theorem Keeps.refl (body : List Char) : Keeps body body := ⟨rfl, fun hpiece _ => hpiece⟩

/-- What is kept twice is kept. -/
theorem Keeps.trans (h : Keeps body body') (h' : Keeps body' body'') : Keeps body body'' :=
  ⟨h'.count.trans h.count, fun hpiece hplain => h'.piece (h.piece hpiece hplain) hplain⟩

/-- A text without semicolons in front belongs to the first piece. -/
theorem splitOn_append (hfront : ';' ∉ front) (rest : List Char) :
    (front ++ rest).splitOn ';' = (rest.splitOn ';').modifyHead (front ++ ·) := by
  induction front with
  | nil =>
    obtain ⟨piece, pieces, hpieces⟩ := List.exists_cons_of_ne_nil (List.splitOn_ne_nil ';' rest)
    rw [List.nil_append, hpieces]
    rfl
  | cons c front ih =>
    rw [List.mem_cons, not_or] at hfront
    rw [List.splitOn, List.cons_append, List.splitOnP_cons_eq_if_modifyHead,
      if_neg (by simpa using Ne.symm hfront.1), ← List.splitOn, ih hfront.2, List.modifyHead_modifyHead]
    rfl

/-- A piece is kept in front of what is kept. -/
theorem Keeps.cons (hsegment : ';' ∉ segment) (hsegment' : ';' ∉ segment')
    (hkept : ¬ Colors segment → segment' = segment) (h : Keeps rest rest') :
    Keeps (segment ++ ';' :: rest) (segment' ++ ';' :: rest') := by
  refine ⟨by simp [List.count_eq_zero.mpr hsegment, List.count_eq_zero.mpr hsegment', h.count], ?_⟩
  rw [Text.splitOn_append_cons hsegment, Text.splitOn_append_cons hsegment']
  rintro (_ | k) piece hpiece hplain
  · obtain rfl : segment = piece := by simpa using hpiece
    simp [hkept hplain]
  · exact h.piece hpiece hplain

/-- What is kept of a body is kept of one around it, behind a brace. -/
theorem Keeps.append (h : Keeps inner inner') (front : List Char) :
    Keeps (front ++ '\x7b' :: inner) (front ++ '\x7b' :: inner') := by
  obtain ⟨segments, last, rfl, hsegments, hlast⟩ := exists_closedText front
  induction segments with
  | nil =>
    refine ⟨by simp [closedText, h.count], ?_⟩
    have hbrace : ';' ∉ last ++ ['\x7b'] := by simpa using hlast
    have hsplit (text : List Char) : (closedText [] last ++ '\x7b' :: text).splitOn ';' =
        (text.splitOn ';').modifyHead (last ++ '\x7b' :: ·) := by
      simpa [closedText] using splitOn_append hbrace text
    rw [hsplit, hsplit]
    -- only the first piece of the inner body has become another one
    rintro (_ | k) piece hpiece hplain
    · rw [List.getElem?_modifyHead_zero, Option.map_eq_some_iff] at hpiece ⊢
      obtain ⟨first, hfirst, rfl⟩ := hpiece
      exact ⟨first, h.piece hfirst fun hcolors => hplain (colors_append_iff.mpr (Or.inr hcolors)), rfl⟩
    · rw [List.getElem?_modifyHead_succ] at hpiece ⊢
      exact h.piece hpiece hplain
  | cons segment segments ih =>
    obtain ⟨hsegment, hsegments⟩ := List.forall_mem_cons.mp hsegments
    rw [closedText_cons, List.append_assoc, List.append_assoc]
    exact (ih hsegments).cons hsegment hsegment fun _ => rfl

/-- A painted text keeps its pieces. -/
theorem Paints.keeps (h : Paints body body') : Keeps body body' := by
  induction h with
  | last => exact .refl _
  | cons hsegment hsegment' hpaints _ ih => exact ih.cons hsegment hsegment' hpaints.kept

/-! ## Blocks inside a body -/

/-- The text of a body goes up to the opening brace of the first block of a selector in it. -/
def OpensIn (selector front : List Char) : Prop :=
  cutAtOpening selector false front = some (front, [])

variable {selector : List Char}

/-- It ends with the brace. -/
theorem OpensIn.exists_brace (h : OpensIn selector front) : ∃ begin, front = begin ++ ['\x7b'] :=
  (exists_of_cutAtOpening h).2.1

/-- A block opens behind a character that no opening has inside it, if none opens up to there. -/
theorem cutAtOpening_append_cons_iff {d : Char} (hd : d ∉ selector) (hblank : isBlank d = false)
    {begin : List Char} {fresh : Bool} (hfront : front ≠ []) :
    cutAtOpening selector fresh (begin ++ d :: front) = some (begin ++ d :: front, []) ↔
      cutAtOpening selector fresh (begin ++ [d]) = none ∧ OpensIn selector front := by
  rw [cutAtOpening_append hd hblank, Option.or_eq_some_iff]
  constructor
  · rintro (h | ⟨hnone, h⟩)
    · obtain ⟨⟨before, follow⟩, -, hcut⟩ := Option.map_eq_some_iff.mp h
      exact absurd (List.append_eq_nil_iff.mp (Prod.mk.inj hcut).2).2 hfront
    · obtain ⟨⟨before, follow⟩, hbefore, hcut⟩ := Option.map_eq_some_iff.mp h
      rw [Prod.mk.injEq] at hcut
      obtain ⟨hcut, rfl⟩ := hcut
      obtain rfl := (List.cons.inj (List.append_cancel_left hcut)).2
      exact ⟨Option.map_eq_none_iff.mp hnone, hbefore⟩
  · rintro ⟨hnone, hopens⟩
    rw [hnone, hopens]
    exact Or.inr ⟨rfl, rfl⟩

/-- A character in a text stands behind a beginning of the text or in it. -/
theorem append_cons_cases {d : Char} (h : front ++ inner = segment ++ d :: rest) :
    (∃ between, segment = front ++ between ∧ inner = between ++ d :: rest) ∨
      ∃ behind, front = segment ++ d :: behind ∧ rest = behind ++ inner := by
  rcases List.append_eq_append_iff.mp h with ⟨between, hsegment, hinner⟩ |
    ⟨_ | ⟨c, behind⟩, hfront, hrest⟩
  · exact Or.inl ⟨between, hsegment, hinner⟩
  · exact Or.inl ⟨[], by simpa using hfront.symm, hrest.symm⟩
  · obtain ⟨rfl, rfl⟩ := List.cons.inj hrest
    exact Or.inr ⟨behind, hfront, rfl⟩

/-- A block that opens in a body opens in it when that is painted, if no declaration of a colour in
front of the opening is open there, and what the block has in the body is kept. -/
theorem Paints.exists_inner (h : Paints (front ++ inner) body) (hselector : IsSelector selector)
    (hopens : OpensIn selector front) (hclosed : ColorsClosed front) :
    ∃ front' inner', body = front' ++ inner' ∧ OpensIn selector front' ∧ Keeps inner inner' := by
  generalize htext : front ++ inner = text at h
  induction h generalizing front with
  | last => exact ⟨front, inner, htext.symm, hopens, .refl inner⟩
  | @cons segment segment' rest rest' hsegment hsegment' hpaints hrest ih =>
    obtain ⟨begin, hbegin⟩ := hopens.exists_brace
    rcases append_cons_cases htext with ⟨between, rfl, rfl⟩ | ⟨behind, rfl, rfl⟩
    · -- the block opens in the first piece, and no colour is declared in front of it there
      subst hbegin
      simp only [List.append_assoc, List.singleton_append, List.mem_append, List.mem_cons,
        not_or] at hsegment hpaints
      have hplain := hclosed.not_colors hsegment.1
      obtain ⟨between', rfl⟩ := hpaints.begins rfl hplain
      simp only [List.mem_append, List.mem_cons, not_or] at hsegment'
      refine ⟨_, between' ++ ';' :: rest', by simp, hopens,
        hrest.keeps.cons hsegment.2.2 hsegment'.2.2 fun hbetween => ?_⟩
      have hsame := hpaints.kept (by simp [colors_append_iff, hplain, hbetween])
      exact (List.cons.inj (List.append_cancel_left hsame)).2
    · have hne : behind ≠ [] := by
        rintro rfl
        cases (List.append_inj' hbegin rfl).2
      obtain ⟨hquiet, hbehind⟩ := (cutAtOpening_append_cons_iff hselector.semicolon (by decide)
        hne).mp hopens
      obtain ⟨front', inner', rfl, hopens', hkeeps⟩ := ih hbehind (colorsClosed_append_iff.mp hclosed) rfl
      obtain ⟨begin', hbegin'⟩ := hopens'.exists_brace
      refine ⟨segment' ++ ';' :: front', inner', by simp, ?_, hkeeps⟩
      exact (cutAtOpening_append_cons_iff hselector.semicolon (by decide) (by simp [hbegin'])).mpr
        ⟨hpaints.quiet hselector hquiet, hopens'⟩

/-- A body opens a block exactly if it is not quiet. -/
theorem not_quiet_iff (hselector : IsSelector selector) : ¬ Quiet selector body ↔
    ∃ front inner, body = front ++ inner ∧ OpensIn selector front := by
  constructor
  · intro hsome
    obtain ⟨⟨front, follow⟩, hcut⟩ := Option.ne_none_iff_exists'.mp hsome
    obtain ⟨htext, ⟨begin, rfl⟩, hopens⟩ := exists_of_cutAtOpening hcut
    rcases append_cons_cases htext.symm with ⟨between, rfl, -⟩ | ⟨behind, hfront, hnil⟩
    · exact ⟨_, between, rfl, hopens⟩
    · obtain ⟨rfl, -⟩ := List.append_eq_nil_iff.mp hnil.symm
      cases (List.append_inj' hfront rfl).2
  · rintro ⟨front, inner, rfl, hopens⟩ hquiet
    rw [Quiet, List.append_assoc, cutAtOpening_before hselector hopens] at hquiet
    cases hquiet

/-- A body opens a block in one place. -/
theorem OpensIn.inj (hselector : IsSelector selector) {front' : List Char}
    (hfront : OpensIn selector front) (hfront' : OpensIn selector front')
    (h : front ++ inner = front' ++ inner') : front = front' ∧ inner = inner' := by
  have hcut := cutAtOpening_before hselector hfront inner
  rw [h, cutAtOpening_before hselector hfront'] at hcut
  obtain ⟨rfl, rfl⟩ := Prod.mk.inj (Option.some.inj hcut)
  exact ⟨rfl, rfl⟩

end Siteworks.Stylesheet
