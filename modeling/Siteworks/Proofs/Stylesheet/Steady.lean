import Mathlib
import Siteworks.Proofs.Stylesheet.Blocks
import Siteworks.Proofs.Stylesheet.Overlaps

/-!
# Blocks that can be set again

Two properties are set one after the other in the body of a block. A declaration of the second one
may run over one of the first one, up to their common semicolon; then its new value takes the place
of both. So a body is set again as it was set before exactly if a declaration of the first property
is left, and if no declaration that goes had kept another one, right behind its semicolon, from
being seen.
-/

namespace Siteworks.Stylesheet

/-- In the body of a block, the second property leaves enough of the first one alone. -/
structure Steady (first second body : List Char) : Prop where
  /-- A semicolon closes a declaration of the first property only. -/
  kept : ∃ start, Closes first body start ∧ ¬ Closes second body start
  /-- A semicolon that closes declarations of both is not followed by a declaration of the first
  property. -/
  apart : ∀ start rest, body = start ++ ';' :: rest → Closes first body start →
    Closes second body start → ¬ Declares first rest

section Segments

variable {first second last : List Char} {segments : List (List Char)}

/-- A text goes on behind a segment with a semicolon and the segments that follow. -/
theorem closedText_eq_upTo_append {k : Nat} (hk : k < segments.length) :
    closedText segments last =
      upTo segments k ++ ';' :: closedText (segments.drop (k + 1)) last := by
  induction segments generalizing k with
  | nil => simp at hk
  | cons segment segments ih =>
    cases k with
    | zero => simp [upTo, closedText]
    | succ k =>
      have hrest := ih (k := k) (by simpa using hk)
      rw [closedText_cons, upTo_cons, hrest]
      simp

/-- Up to a segment there are as many semicolons as segments before it. -/
theorem count_upTo (hsegments : ∀ segment ∈ segments, ';' ∉ segment) {k : Nat}
    (hk : k < segments.length) : (upTo segments k).count ';' = k := by
  induction segments generalizing k with
  | nil => simp at hk
  | cons segment segments ih =>
    obtain ⟨hsegment, hsegments⟩ := List.forall_mem_cons.mp hsegments
    cases k with
    | zero => simp [upTo, closedText, List.count_eq_zero.mpr hsegment]
    | succ k =>
      rw [upTo_cons, List.count_append, List.count_cons_self, List.count_eq_zero.mpr hsegment,
        ih hsegments (by simpa using hk)]
      omega

/-- The semicolons of segments are told apart by what comes before them. -/
theorem closes_upTo_iff {name : List Char} (hname : IsName name)
    (hsegments : ∀ segment ∈ segments, ';' ∉ segment) (hlast : ';' ∉ last) {k : Nat}
    (hk : k < segments.length) : Closes name (closedText segments last) (upTo segments k) ↔
      ∃ found, (marks name true segments)[k]? = some (some found) := by
  rw [closes_closedText_iff hname hsegments hlast]
  constructor
  · rintro ⟨j, found, hfound, hstart⟩
    have hcount := congrArg (List.count ';') hstart
    rw [count_upTo hsegments hk, count_upTo hsegments (lt_length_of_marks hfound)] at hcount
    exact ⟨found, hcount ▸ hfound⟩
  · rintro ⟨found, hfound⟩
    exact ⟨k, found, hfound, rfl⟩

/-- Something is left uncovered at some place. -/
theorem any_uncovered_iff {found others : List (Option (List Char))} :
    (found.zipWith uncovered others).any Option.isSome = true ↔
      ∃ (k : Nat) (p : List Char), found[k]? = some (some p) ∧ others[k]? = some none := by
  rw [List.any_eq_true]
  constructor
  · rintro ⟨_, hmem, hsome⟩
    obtain ⟨k, hk⟩ := List.mem_iff_getElem?.mp hmem
    rw [List.getElem?_zipWith] at hk
    split at hk
    next p q hp hq =>
      cases hk
      cases q with
      | some q => cases hsome
      | none =>
        obtain ⟨p, rfl⟩ := Option.isSome_iff_exists.mp hsome
        exact ⟨k, p, hp, hq⟩
    next => cases hk
  · rintro ⟨k, p, hp, hq⟩
    refine ⟨some p, List.mem_iff_getElem?.mpr ⟨k, ?_⟩, rfl⟩
    rw [List.getElem?_zipWith, hp, hq]
    rfl

/-- A body is steady exactly if no covered declaration hides another one in its segments, and not
all declarations are covered. -/
theorem steady_closedText_iff (h : Different first second)
    (hsegments : ∀ segment ∈ segments, ';' ∉ segment) (hlast : ';' ∉ last) :
    Steady first second (closedText segments last) ↔
      Loose first second true true segments ∧
        ((marks first true segments).zipWith uncovered (marks second true segments)).any
          Option.isSome = true := by
  have hfirst (k : Nat) (hk : k < segments.length) :=
    closes_upTo_iff h.isName_first hsegments hlast hk
  have hsecond (k : Nat) (hk : k < segments.length) :=
    closes_upTo_iff h.isName_second hsegments hlast hk
  rw [any_uncovered_iff]
  constructor
  · rintro ⟨⟨start, hcloses, hnot⟩, hapart⟩
    constructor
    · intro k p q t hp hq ht
      have hk := lt_length_of_marks hp
      by_contra hsome
      obtain ⟨head, hhead⟩ := Option.ne_none_iff_exists'.mp hsome
      refine hapart _ _ (closedText_eq_upTo_append hk) ((hfirst k hk).mpr ⟨p, hp⟩)
        ((hsecond k hk).mpr ⟨q, hq⟩) ?_
      rw [declares_closedText_iff h.isName_first
        (fun segment hmem => hsegments segment (List.mem_of_mem_drop hmem)) hlast]
      exact ⟨t, by simpa [List.head?_drop] using ht, head, hhead⟩
    · obtain ⟨k, p, hp, rfl⟩ := (closes_closedText_iff h.isName_first hsegments hlast).mp hcloses
      have hk := lt_length_of_marks hp
      obtain ⟨found, hfound⟩ := exists_marks hk second true
      cases found with
      | none => exact ⟨k, p, hp, hfound⟩
      | some q => exact (hnot ((hsecond k hk).mpr ⟨q, hfound⟩)).elim
  · rintro ⟨hloose, k, p, hp, hq⟩
    have hk := lt_length_of_marks hp
    refine ⟨⟨upTo segments k, (hfirst k hk).mpr ⟨p, hp⟩, fun hcloses => ?_⟩, ?_⟩
    · obtain ⟨q, hq'⟩ := (hsecond k hk).mp hcloses
      cases hq.symm.trans hq'
    · intro start rest hcut hcloses hcloses' hdeclares
      obtain ⟨k, p, hp, rfl⟩ := (closes_closedText_iff h.isName_first hsegments hlast).mp hcloses
      have hk := lt_length_of_marks hp
      obtain ⟨q, hq⟩ := (hsecond k hk).mp hcloses'
      rw [closedText_eq_upTo_append hk] at hcut
      obtain rfl := (List.cons.inj (List.append_cancel_left hcut)).2
      obtain ⟨t, ht, head, hhead⟩ := (declares_closedText_iff h.isName_first
        (fun segment hmem => hsegments segment (List.mem_of_mem_drop hmem)) hlast).mp hdeclares
      cases (hloose k p q t hp hq (by simpa [List.head?_drop] using ht)).symm.trans hhead

/-- Setting both properties one after the other gives new values to the segments. -/
theorem setProperty_setProperty_closedText (h : Different first second) {new : List Char}
    (hnew : ';' ∉ new) (hsegments : ∀ segment ∈ segments, ';' ∉ segment) (hlast : ';' ∉ last)
    (cover : List Char) :
    setProperty second cover (setProperty first new (closedText segments last)) =
      closedText (setBoth first second true true new cover segments) last := by
  rw [setProperty_closedText h.isName_first hsegments hlast,
    setProperty_closedText h.isName_second (semicolon_not_mem_recast hnew hsegments) hlast]
  rfl

end Segments

variable {first second body old cover : List Char}

/-- A body in which the first property has a value, in segments. -/
theorem exists_segments (h : Different first second) (hold : IsValue old)
    (hbody : setProperty first old body = body) : ∃ segments last,
      body = closedText segments last ∧ (∀ segment ∈ segments, ';' ∉ segment) ∧ ';' ∉ last ∧
        recast old segments (marks first true segments) = segments := by
  obtain ⟨segments, last, rfl, hsegments, hlast⟩ := exists_closedText body
  rw [setProperty_closedText h.isName_first hsegments hlast] at hbody
  obtain ⟨htidy, -⟩ := closedText_inj (semicolon_not_mem_recast hold.semicolon hsegments) hsegments
    hlast hlast hbody
  exact ⟨segments, last, rfl, hsegments, hlast, htidy⟩

/-- A body is steady where no value of the second property has a colon. -/
theorem Steady.of_colon_not_mem (h : Different first second) (hold : IsValue old)
    (hbody : setProperty first old body = body) (hdeclares : declares first body = true)
    (hcolon : ∀ piece ∈ pieces second body, ':' ∉ piece.value) :
    Steady first second body := by
  obtain ⟨segments, rest, rfl, hsegments, hrest, htidy⟩ := exists_segments h hold hbody
  have hnot (k : Nat) (p q : List Char) (hp : (marks first true segments)[k]? = some (some p))
      (hq : (marks second true segments)[k]? = some (some q)) : False := by
    obtain ⟨head, value, hmem, hsegment⟩ :=
      (Cut.pieces second _).exists_declaration h.isName_second hsegments hq
    obtain ⟨fresh, segment, hat, hfirst⟩ := exists_found?_of_marks hp
    obtain ⟨fresh', segment', -, hsecond⟩ := exists_found?_of_marks hq
    have hvalue : p ++ old = q ++ value := by
      have hset := congrArg (·[k]?) htidy
      simp only [recast, List.getElem?_zipWith, hp, hsegment, revalue_some] at hset
      exact Option.some.inj hset
    exact h.found_append_ne hfirst hsecond hold.colon (hcolon _ hmem) hvalue
  refine (steady_closedText_iff h hsegments hrest).mpr ⟨?_, any_uncovered_iff.mpr ?_⟩
  · exact fun k p q t hp hq _ => (hnot k p q hp hq).elim
  · rw [declares_closedText h.isName_first hsegments hrest, List.any_eq_true] at hdeclares
    obtain ⟨_, hmem, hsome⟩ := hdeclares
    obtain ⟨p, rfl⟩ := Option.isSome_iff_exists.mp hsome
    obtain ⟨k, hk⟩ := List.mem_iff_getElem?.mp hmem
    obtain ⟨found, hfound⟩ := exists_marks (lt_length_of_marks hk) second true
    cases found with
    | none => exact ⟨k, p, hk, hfound⟩
    | some q => exact (hnot k p q hk hfound).elim

/-- In a steady body both properties can be set again, and it makes no difference that the second
one was set before. -/
theorem Steady.set_again (h : Different first second) (hold : IsValue old) (hcover : IsValue cover)
    (hbody : setProperty first old body = body) (hsteady : Steady first second body)
    {new : List Char} (hnew : IsValue new) (last : List Char) :
    declares first (setProperty second cover body) = true ∧
      declares second (setProperty first new (setProperty second cover body)) =
        declares second (setProperty first new body) ∧
      setProperty second last (setProperty first new (setProperty second cover body)) =
        setProperty second last (setProperty first new body) := by
  obtain ⟨segments, rest, rfl, hsegments, hrest, htidy⟩ := exists_segments h hold hbody
  obtain ⟨hloose, hkept⟩ := (steady_closedText_iff h hsegments hrest).mp hsteady
  have hmarks := h.marks_first_recast hold hcover htidy hloose (Or.inl rfl)
  have hcovered : ∀ segment ∈ recast cover segments (marks second true segments), ';' ∉ segment :=
    semicolon_not_mem_recast hcover.semicolon hsegments
  rw [setProperty_closedText h.isName_second hsegments hrest]
  refine ⟨?_, ?_, ?_⟩
  · rw [declares_closedText h.isName_first hcovered hrest, hmarks, hkept]
  · rw [setProperty_closedText h.isName_first hcovered hrest,
      setProperty_closedText h.isName_first hsegments hrest,
      declares_closedText h.isName_second (semicolon_not_mem_recast hnew.semicolon hcovered) hrest,
      declares_closedText h.isName_second (semicolon_not_mem_recast hnew.semicolon hsegments) hrest,
      hmarks, h.marks_second_recast_uncovered hold hnew hcover htidy,
      h.marks_second_recast hold hnew htidy]
  · rw [setProperty_setProperty_closedText h hnew.semicolon hcovered hrest,
      setProperty_setProperty_closedText h hnew.semicolon hsegments hrest, setBoth, setBoth, hmarks,
      h.marks_second_recast_uncovered hold hnew hcover htidy,
      h.marks_second_recast hold hnew htidy, recast_recast_uncovered]

/-- If the first property can be set again, and it makes no difference for two values of it that the
second one was set before, the body is steady. -/
theorem Steady.of_set_again (h : Different first second) (hold : IsValue old)
    (hcover : IsValue cover) (hbody : setProperty first old body = body)
    {new new' last last' : List Char} (hnew : IsValue new) (hnew' : IsValue new') (hne : new ≠ new')
    (hlast : IsValue last) (hlast' : IsValue last')
    (hdeclares : declares first (setProperty second cover body) = true)
    (hsame : setProperty second last (setProperty first new (setProperty second cover body)) =
      setProperty second last (setProperty first new body))
    (hsame' : setProperty second last' (setProperty first new' (setProperty second cover body)) =
      setProperty second last' (setProperty first new' body)) : Steady first second body := by
  obtain ⟨segments, rest, rfl, hsegments, hrest, htidy⟩ := exists_segments h hold hbody
  have hcovered : ∀ segment ∈ recast cover segments (marks second true segments), ';' ∉ segment :=
    semicolon_not_mem_recast hcover.semicolon hsegments
  have hsegment {new last : List Char} (hnew : IsValue new) (hlast : IsValue last)
      (hsame : setProperty second last (setProperty first new
          (setProperty second cover (closedText segments rest))) =
        setProperty second last (setProperty first new (closedText segments rest))) :
      setBoth first second true true new last (recast cover segments (marks second true segments)) =
        setBoth first second true true new last segments := by
    rw [setProperty_closedText h.isName_second hsegments hrest,
      setProperty_setProperty_closedText h hnew.semicolon hcovered hrest,
      setProperty_setProperty_closedText h hnew.semicolon hsegments hrest] at hsame
    have hclosed {segments : List (List Char)} (hsegments : ∀ segment ∈ segments, ';' ∉ segment) :
        ∀ segment ∈ setBoth first second true true new last segments, ';' ∉ segment :=
      semicolon_not_mem_recast hlast.semicolon (semicolon_not_mem_recast hnew.semicolon hsegments)
    exact (closedText_inj (hclosed hcovered) (hclosed hsegments) hrest hrest hsame).1
  have hloose := h.loose_of_setBoth_eq hold hcover hnew hnew' hlast hne htidy (Or.inl rfl)
    (hsegment hnew hlast hsame) (hsegment hnew' hlast' hsame')
  refine (steady_closedText_iff h hsegments hrest).mpr ⟨hloose, ?_⟩
  rw [setProperty_closedText h.isName_second hsegments hrest,
    declares_closedText h.isName_first hcovered hrest,
    h.marks_first_recast hold hcover htidy hloose (Or.inl rfl)] at hdeclares
  exact hdeclares

/-- Whether the second property is declared does not depend on the value of the first one. -/
theorem declares_second_setProperty (h : Different first second) {new : List Char}
    (hold : IsValue old) (hnew : IsValue new) (hbody : setProperty first old body = body) :
    declares second (setProperty first new body) = declares second body := by
  obtain ⟨segments, rest, rfl, hsegments, hrest, htidy⟩ := exists_segments h hold hbody
  rw [setProperty_closedText h.isName_first hsegments hrest,
    declares_closedText h.isName_second (semicolon_not_mem_recast hnew.semicolon hsegments) hrest,
    declares_closedText h.isName_second hsegments hrest, h.marks_second_recast hold hnew htidy]

/-- Segments in which both properties are set agree up to values with those in which the second one
is. -/
theorem forall₂_alike_setBoth (h : Different first second) {new last : List Char} {a b : Bool}
    (hold : IsValue old) (hnew : IsValue new) (hlast : IsValue last) {segments : List (List Char)}
    (htidy : recast old segments (marks first a segments) = segments) :
    List.Forall₂ Alike (recast cover segments (marks second b segments))
      (setBoth first second a b new last segments) := by
  induction segments generalizing a b with
  | nil => exact .nil
  | cons segment segments ih =>
    rw [marks, recast_cons] at htidy
    obtain ⟨htidy, htidies⟩ := List.cons.inj htidy
    simp only [setBoth, marks, recast_cons, h.found?_second_revalue hold hnew htidy]
    refine .cons ?_ (ih htidies)
    cases found? second b segment with
    | none => exact alike_revalue hnew
    | some start => exact ⟨start, cover, last, rfl, rfl, hlast.brace.1⟩

/-- A body in which both properties are set is quiet, whatever their values. -/
theorem quiet_setProperty_setProperty (h : Different first second) {selector new last : List Char}
    (hselector : IsSelector selector) (hold : IsValue old) (hnew : IsValue new)
    (hlast : IsValue last) (hbody : setProperty first old body = body)
    (hquiet : Quiet selector (setProperty second cover body)) :
    Quiet selector (setProperty second last (setProperty first new body)) := by
  obtain ⟨segments, rest, rfl, hsegments, hrest, htidy⟩ := exists_segments h hold hbody
  rw [setProperty_closedText h.isName_second hsegments hrest] at hquiet
  rw [setProperty_setProperty_closedText h hnew.semicolon hsegments hrest]
  exact hquiet.of_alike hselector (forall₂_alike_setBoth h hold hnew hlast htidy)

end Siteworks.Stylesheet
