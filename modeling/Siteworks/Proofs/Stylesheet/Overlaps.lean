import Mathlib
import Siteworks.Proofs.Stylesheet.Segments

/-!
# Two properties set one after the other

A value may have a declaration of another property in it, say in a comment, up to the semicolon that
ends both. If the other property is set first, its declaration is gone when this one is set. What is
found of the other property afterwards is what was found before, but for those declarations, as long
as none of them is followed by one more at once: that one was not seen before, because a declaration
keeps the place behind its semicolon from being fresh.
-/

namespace Siteworks.Stylesheet

open Text (isBlank StartsFull)

/-- What stands before a colon and blanks in front of it, if it does not end with a blank. -/
theorem stem_inj {stem stem' space space' rest rest' : List Char}
    (hspace : ∀ c ∈ space, isBlank c = true) (hspace' : ∀ c ∈ space', isBlank c = true)
    (hstem : ∃ c ∈ stem.getLast?, isBlank c = false)
    (hstem' : ∃ c ∈ stem'.getLast?, isBlank c = false) (hrest : ':' ∉ rest) (hrest' : ':' ∉ rest')
    (h : stem ++ space ++ ':' :: rest = stem' ++ space' ++ ':' :: rest') : stem = stem' := by
  obtain ⟨hbegin, -⟩ := Text.cut_inj_end hrest hrest' h
  have hreverse : space.reverse ++ stem.reverse = space'.reverse ++ stem'.reverse := by
    simpa using congrArg List.reverse hbegin
  have hfull {stem : List Char} (hstem : ∃ c ∈ stem.getLast?, isBlank c = false) :
      ∀ c ∈ stem.reverse.head?, ¬ isBlank c = true := by
    obtain ⟨d, hd, hblank⟩ := hstem
    intro c hc
    rw [List.head?_reverse, hd, Option.mem_some_iff] at hc
    simp [← hc, hblank]
  obtain ⟨-, hstems⟩ := Text.append_inj_of_forall (p := fun c => isBlank c = true)
    (by simpa using hspace) (by simpa using hspace') (hfull hstem) (hfull hstem') hreverse
  exact List.reverse_injective hstems

/-- Two properties, neither of which is declared where the other one is. -/
structure Different (first second : List Char) : Prop where
  /-- The first one is a name. -/
  isName_first : IsName first
  /-- The second one is a name. -/
  isName_second : IsName second
  /-- They end differently. -/
  last : first.getLast? ≠ second.getLast?

/-- A name keeps its end behind other text. -/
theorem IsName.getLast?_append {name : List Char} (h : IsName name) (front : List Char) :
    (front ++ name).getLast? = name.getLast? := by
  obtain ⟨c, hc, -⟩ := h.last
  rw [List.getLast?_append, hc]
  rfl

/-- What is found, read from its end: the name, behind other text, a colon in blanks. -/
theorem exists_stem_of_found? {name segment start : List Char} {fresh : Bool} (hname : IsName name)
    (h : found? name fresh segment = some start) : ∃ front space rest,
      start = front ++ name ++ space ++ ':' :: rest ∧ (∀ c ∈ space, isBlank c = true) ∧
        ':' ∉ rest ∧ (∃ c ∈ (front ++ name).getLast?, isBlank c = false) ∧
          (fresh = false → front ≠ []) := by
  obtain ⟨front, head, value, rfl, ⟨space, rest, rfl, hspace, hrest⟩, -, -, hfront⟩ :=
    exists_head_of_found? h
  refine ⟨front, space, rest, by simp, hspace, Text.not_mem_of_forall_isBlank hrest (by decide), ?_,
    hfront⟩
  rw [hname.getLast?_append]
  exact hname.last

namespace Different

variable {first second segment start : List Char} {fresh fresh' : Bool}

/-- Declarations of different properties are not found at one place, not even up to text without a
colon. -/
theorem found_append_ne (h : Different first second) {start' segment' follow follow' : List Char}
    (hfirst : found? first fresh segment = some start)
    (hsecond : found? second fresh' segment' = some start') (hfollow : ':' ∉ follow)
    (hfollow' : ':' ∉ follow') : start ++ follow ≠ start' ++ follow' := by
  intro hcut
  obtain ⟨front, space, rest, rfl, hspace, hrest, hlast, -⟩ :=
    exists_stem_of_found? h.isName_first hfirst
  obtain ⟨front', space', rest', rfl, hspace', hrest', hlast', -⟩ :=
    exists_stem_of_found? h.isName_second hsecond
  have hnot : ':' ∉ rest ++ follow := by simp [hrest, hfollow]
  have hnot' : ':' ∉ rest' ++ follow' := by simp [hrest', hfollow']
  have hstems := congrArg List.getLast? (stem_inj hspace hspace' hlast hlast' hnot hnot'
    (by simpa using hcut))
  rw [h.isName_first.getLast?_append, h.isName_second.getLast?_append] at hstems
  exact h.last hstems

/-- No head of the one property is what is found of the other one, not even up to text without a
colon. -/
theorem head_append_ne_found (h : Different first second) {head follow follow' : List Char}
    (hhead : IsHead first head) (hsecond : found? second fresh segment = some start)
    (hfollow : ':' ∉ follow) (hfollow' : ':' ∉ follow') : head ++ follow ≠ start ++ follow' := by
  intro hcut
  obtain ⟨space, space', rfl, hspace, hspace'⟩ := hhead
  obtain ⟨front, space₂, rest, rfl, hspace₂, hrest, hlast, -⟩ :=
    exists_stem_of_found? h.isName_second hsecond
  have hnot : ':' ∉ space' ++ follow := by
    rw [List.mem_append, not_or]
    exact ⟨Text.not_mem_of_forall_isBlank hspace' (by decide), hfollow⟩
  have hnot' : ':' ∉ rest ++ follow' := by simp [hrest, hfollow']
  have hstems := congrArg List.getLast? (stem_inj hspace hspace₂ h.isName_first.last hlast hnot
    hnot' (by simpa using hcut))
  rw [h.isName_second.getLast?_append] at hstems
  exact h.last hstems

/-- The first property is not found in front of a value of the second one, wherever its own
declaration in the segment has a value without a colon. -/
theorem found?_first_eq_none (h : Different first second) {old new : List Char}
    (hold : IsValue old) (hnew : IsValue new)
    (htidy : revalue old segment (found? first fresh segment) = segment)
    (hsecond : found? second fresh' segment = some start) :
    found? first fresh (start ++ new) = none := by
  rw [Option.eq_none_iff_forall_ne_some]
  intro found hfound
  have hinside := found?_isPrefix start hfound hnew.full hnew.colon
  obtain ⟨-, -, value, -, -, rfl, hvalue, -⟩ := exists_head_of_found? hsecond
  have hfound := found?_append h.isName_first.colon hfound hinside hvalue
  rw [hfound, revalue] at htidy
  rw [← htidy] at hsecond
  have hinside' := found?_isPrefix found hsecond hold.full hold.colon
  obtain rfl : found = start :=
    hinside.eq_of_length (le_antisymm hinside.length_le hinside'.length_le)
  exact h.found_append_ne hfound hsecond List.not_mem_nil List.not_mem_nil rfl

/-- What is found of the second property does not depend on the value of the first one. -/
theorem found?_second_revalue (h : Different first second) {old new : List Char}
    (hold : IsValue old) (hnew : IsValue new)
    (htidy : revalue old segment (found? first fresh segment) = segment) :
    found? second fresh' (revalue new segment (found? first fresh segment)) =
      found? second fresh' segment := by
  cases hfound : found? first fresh segment with
  | none => rfl
  | some start =>
    rw [hfound, revalue] at htidy
    rw [revalue, ← htidy]
    exact found?_value h.isName_second.colon fresh' start hnew hold

end Different

/-- Where no head is found at the start of a segment, it makes no difference whether it is fresh. -/
theorem found?_of_head?_eq_none {name segment : List Char} (h : head? name segment = none)
    (fresh fresh' : Bool) : found? name fresh segment = found? name fresh' segment := by
  cases segment with
  | nil => rfl
  | cons c segment => simp only [found?_cons, h, ite_self]

/-- What is found of a property in a segment is there no longer if the other one is found there. -/
def uncovered (found other : Option (List Char)) : Option (List Char) :=
  if other.isSome then none else found

/-- A walk through segments is in step with another one: the places where they are make no
difference. -/
def InStep (name : List Char) (fresh fresh' : Bool) (segments : List (List Char)) : Prop :=
  fresh = fresh' ∨ fresh = true ∧ ∀ segment ∈ segments.head?, head? name segment = none

/-- The same is found in the next segment of walks that are in step. -/
theorem InStep.found?_eq {name segment : List Char} {segments : List (List Char)}
    {fresh fresh' : Bool} (h : InStep name fresh fresh' (segment :: segments)) :
    found? name fresh segment = found? name fresh' segment := by
  rcases h with rfl | ⟨-, hnone⟩
  · rfl
  · exact found?_of_head?_eq_none (hnone segment rfl) fresh fresh'

/-- Taking out the covered declarations makes no difference to a text in which the covering ones get
a new value. -/
theorem recast_recast_uncovered (cover cover' new : List Char) (segments : List (List Char))
    (found others : List (Option (List Char))) :
    recast cover' (recast new (recast cover segments others) (found.zipWith uncovered others))
        others =
      recast cover' (recast new segments found) others := by
  induction segments generalizing found others with
  | nil => rfl
  | cons segment segments ih =>
    cases found with
    | nil => cases others <;> rfl
    | cons p found =>
      cases others with
      | nil => rfl
      | cons q others =>
        simp only [recast_cons, List.zipWith_cons_cons, ih]
        cases q <;> rfl

section Rows

variable {first second : List Char} {segments : List (List Char)} {a b : Bool}

/-- The walks stay in step, unless a covered declaration is followed by another one at once. -/
theorem InStep.next {first : List Char} {found other : Option (List Char)}
    (hloose : found.isSome → other.isSome → ∀ t ∈ segments.head?, head? first t = none) :
    InStep first (uncovered found other).isNone found.isNone segments := by
  cases other with
  | none => exact Or.inl rfl
  | some start =>
    cases found with
    | none => exact Or.inl rfl
    | some found => exact Or.inr ⟨rfl, hloose rfl rfl⟩

/-- No segment with a covered declaration is followed by one that starts with a declaration. -/
def Loose (first second : List Char) (a b : Bool) (segments : List (List Char)) : Prop :=
  ∀ k p q t, (marks first a segments)[k]? = some (some p) →
    (marks second b segments)[k]? = some (some q) → segments[k + 1]? = some t → head? first t = none

/-- It is enough to look at the first segment and at the others. -/
theorem loose_cons {segment : List Char} : Loose first second a b (segment :: segments) ↔
    ((found? first a segment).isSome → (found? second b segment).isSome →
      ∀ t ∈ segments.head?, head? first t = none) ∧
        Loose first second (found? first a segment).isNone (found? second b segment).isNone
          segments := by
  constructor
  · intro h
    refine ⟨fun hfirst hsecond t ht => ?_, fun k => h (k + 1)⟩
    obtain ⟨p, hp⟩ := Option.isSome_iff_exists.mp hfirst
    obtain ⟨q, hq⟩ := Option.isSome_iff_exists.mp hsecond
    refine h 0 p q t (by simp [marks, hp]) (by simp [marks, hq]) ?_
    rw [List.getElem?_cons_succ, ← List.head?_eq_getElem?, ht]
  · rintro ⟨hfirst, hrest⟩ (_ | k) p q t hp hq ht
    · obtain hp : found? first a segment = some p := by simpa [marks] using hp
      obtain hq : found? second b segment = some q := by simpa [marks] using hq
      refine hfirst (by simp [hp]) (by simp [hq]) t ?_
      rwa [List.head?_eq_getElem?, Option.mem_def, ← List.getElem?_cons_succ]
    · exact hrest k p q t hp hq ht

/-- Segments with new values of both properties, set one after the other. -/
def setBoth (first second : List Char) (a b : Bool) (new cover : List Char)
    (segments : List (List Char)) : List (List Char) :=
  recast cover (recast new segments (marks first a segments))
    (marks second b (recast new segments (marks first a segments)))

end Rows

namespace Different

variable {first second : List Char} {segments : List (List Char)} {a a' b : Bool}
  {old new cover : List Char}

/-- In a segment where the second property got a new value, the first one is found if it was and the
second one was not. -/
theorem found?_first_covered (h : Different first second) {segment : List Char}
    (hold : IsValue old) (hcover : IsValue cover)
    (htidy : revalue old segment (found? first a segment) = segment)
    (hstep : InStep first a' a (segment :: segments)) :
    found? first a' (revalue cover segment (found? second b segment)) =
      uncovered (found? first a segment) (found? second b segment) := by
  rw [← hstep.found?_eq] at htidy ⊢
  cases hsecond : found? second b segment with
  | none => rfl
  | some start => exact h.found?_first_eq_none hold hcover htidy hsecond

/-- The second property is found there as it was, whatever the new value of the first one. -/
theorem found?_second_uncovered (h : Different first second) {segment : List Char}
    (hold : IsValue old) (hnew : IsValue new) (hcover : IsValue cover)
    (htidy : revalue old segment (found? first a segment) = segment) :
    found? second b (revalue new (revalue cover segment (found? second b segment))
        (uncovered (found? first a segment) (found? second b segment))) =
      found? second b segment := by
  cases hsecond : found? second b segment with
  | none => exact (h.found?_second_revalue hold hnew htidy).trans hsecond
  | some start => exact found?_setValue h.isName_second.colon hsecond hcover.full

/-- What is found of the first property after the second one got a new value: what was found, but
for the declarations that the second one covers. -/
theorem marks_first_recast (h : Different first second) (hold : IsValue old)
    (hcover : IsValue cover) (htidy : recast old segments (marks first a segments) = segments)
    (hloose : Loose first second a b segments) (hstep : InStep first a' a segments) :
    marks first a' (recast cover segments (marks second b segments)) =
      (marks first a segments).zipWith uncovered (marks second b segments) := by
  induction segments generalizing a a' b with
  | nil => rfl
  | cons segment segments ih =>
    rw [marks, recast_cons] at htidy
    obtain ⟨htidy, htidies⟩ := List.cons.inj htidy
    obtain ⟨hfirst, hrest⟩ := loose_cons.mp hloose
    simp only [marks, recast_cons, List.zipWith_cons_cons,
      h.found?_first_covered hold hcover htidy hstep]
    rw [ih htidies hrest (InStep.next hfirst)]

/-- What is found of the second property does not depend on the value of the first one. -/
theorem marks_second_recast (h : Different first second) (hold : IsValue old) (hnew : IsValue new)
    (htidy : recast old segments (marks first a segments) = segments) :
    marks second b (recast new segments (marks first a segments)) = marks second b segments := by
  induction segments generalizing a b with
  | nil => rfl
  | cons segment segments ih =>
    rw [marks, recast_cons] at htidy
    obtain ⟨htidy, htidies⟩ := List.cons.inj htidy
    simp only [marks, recast_cons, h.found?_second_revalue hold hnew htidy, ih htidies]

/-- Nor does it depend on that value where the covered declarations are gone. -/
theorem marks_second_recast_uncovered (h : Different first second) (hold : IsValue old)
    (hnew : IsValue new) (hcover : IsValue cover)
    (htidy : recast old segments (marks first a segments) = segments) :
    marks second b (recast new (recast cover segments (marks second b segments))
        ((marks first a segments).zipWith uncovered (marks second b segments))) =
      marks second b segments := by
  induction segments generalizing a b with
  | nil => rfl
  | cons segment segments ih =>
    rw [marks, recast_cons] at htidy
    obtain ⟨htidy, htidies⟩ := List.cons.inj htidy
    simp only [marks, recast_cons, List.zipWith_cons_cons,
      h.found?_second_uncovered hold hnew hcover htidy, ih htidies]

/-- The second property is not found in front of a value of a declaration of the first one that
starts the segment. -/
theorem found?_second_head (h : Different first second) {head : List Char} (hnew : IsValue new)
    (hhead : IsHead first head) : found? second b (head ++ new) = none := by
  rw [Option.eq_none_iff_forall_ne_some]
  intro start hsecond
  obtain ⟨follow, rfl⟩ := found?_isPrefix head hsecond hnew.full hnew.colon
  have hcount : (start ++ follow).count ':' = 1 := by
    obtain ⟨space, space', hcut, hspace, hspace'⟩ := hhead
    have hblank {space : List Char} (hspace : ∀ c ∈ space, isBlank c = true) :
        space.count ':' = 0 :=
      List.count_eq_zero.mpr (Text.not_mem_of_forall_isBlank hspace (by decide))
    rw [hcut]
    simp [List.count_eq_zero.mpr h.isName_first.colon, hblank hspace, hblank hspace']
  have hstart := List.count_pos_iff.mpr (colon_mem_of_found? hsecond)
  have hfollow : ':' ∉ follow := by
    rw [← List.count_eq_zero]
    rw [List.count_append] at hcount
    omega
  exact h.head_append_ne_found hhead hsecond List.not_mem_nil hfollow (List.append_nil _)

/-- The first property is found at the start of a segment that starts with it, whatever the value of
the second one. -/
theorem found?_first_head (h : Different first second) {segment head : List Char}
    (hhead : head? first segment = some head) (hcover : IsValue cover) :
    found? first true (revalue cover segment (found? second b segment)) = some head := by
  have hfound {segment : List Char} (hhead : head? first segment = some head) :
      found? first true segment = some head := by
    cases segment with
    | nil => simp [head?_nil] at hhead
    | cons c segment => simp [found?_cons, hhead]
  cases hsecond : found? second b segment with
  | none => exact hfound hhead
  | some start =>
    obtain ⟨-, -, value, -, -, rfl, hvalue, -⟩ := exists_head_of_found? hsecond
    obtain ⟨head', hhead'⟩ := exists_head?_of_append h.isName_first.colon start
      (colon_mem_of_found? hsecond) ⟨head, hhead⟩ cover
    have hinside := head?_isPrefix start hhead' hcover.full hcover.colon
    obtain rfl : head' = head := by
      simpa using (head?_append start hhead' hinside hvalue).symm.trans hhead
    exact hfound hhead'

/-- Where a segment starts with a declaration of the first property, but that is found further on or
not at all, no two values show at the start. -/
theorem eq_of_revalue_head (h : Different first second) {segment head new' : List Char}
    {cover' : List Char} (hnew : IsValue new) (hcover : IsValue cover)
    (hhead : head? first segment = some head)
    (hsame : revalue cover (revalue new segment (found? first false segment))
      (found? second b segment) = head ++ new)
    (hsame' : revalue cover' (revalue new' segment (found? first false segment))
      (found? second b segment) = head ++ new') : new = new' := by
  obtain ⟨hhead, -⟩ := head?_eq_some_iff.mp hhead
  cases hsecond : found? second b segment with
  | some start =>
    rw [hsecond, revalue] at hsame
    rcases List.append_eq_append_iff.mp hsame with ⟨between, rfl, rfl⟩ | ⟨between, rfl, rfl⟩
    · have hnot : ':' ∉ between := fun hmem => hcover.colon (List.mem_append_left _ hmem)
      exact (h.head_append_ne_found hhead hsecond List.not_mem_nil hnot (List.append_nil _)).elim
    · have hnot : ':' ∉ between := fun hmem => hnew.colon (List.mem_append_left _ hmem)
      exact (h.head_append_ne_found hhead hsecond hnot List.not_mem_nil (by simp)).elim
  | none =>
    rw [hsecond] at hsame hsame'
    cases hfirst : found? first false segment with
    | none =>
      rw [hfirst] at hsame hsame'
      exact List.append_cancel_left (hsame.symm.trans hsame')
    | some start =>
      rw [hfirst] at hsame
      obtain rfl := List.append_cancel_right hsame
      obtain ⟨front, space, rest, hcut, hspace, hrest, hlast, hfront⟩ :=
        exists_stem_of_found? h.isName_first hfirst
      obtain ⟨space', rest', rfl, hspace', hrest'⟩ := hhead
      have hnot : ':' ∉ rest' := Text.not_mem_of_forall_isBlank hrest' (by decide)
      have hstem := stem_inj hspace' hspace h.isName_first.last hlast hnot hrest hcut
      exact (hfront rfl (by simpa using hstem)).elim

/-- If setting both properties makes the same of the segments whether or not the second one had been
set before, for two values of the first one, no covered declaration hides another one. -/
theorem loose_of_setBoth_eq (h : Different first second) {new' cover' coverLast : List Char}
    (hold : IsValue old) (hcover : IsValue cover) (hnew : IsValue new) (hnew' : IsValue new')
    (hlast : IsValue coverLast) (hne : new ≠ new')
    (htidy : recast old segments (marks first a segments) = segments)
    (hstep : InStep first a' a segments)
    (hsame : setBoth first second a' b new coverLast
        (recast cover segments (marks second b segments)) =
      setBoth first second a b new coverLast segments)
    (hsame' : setBoth first second a' b new' cover'
        (recast cover segments (marks second b segments)) =
      setBoth first second a b new' cover' segments) : Loose first second a b segments := by
  induction segments generalizing a a' b with
  | nil => exact fun k p q t hp => by simp [marks] at hp
  | cons segment segments ih =>
    rw [marks, recast_cons] at htidy
    obtain ⟨htidy, htidies⟩ := List.cons.inj htidy
    simp only [setBoth, marks, recast_cons, h.found?_first_covered hold hcover htidy hstep,
      h.found?_second_uncovered hold hnew hcover htidy,
      h.found?_second_uncovered hold hnew' hcover htidy,
      h.found?_second_revalue hold hnew htidy, h.found?_second_revalue hold hnew' htidy,
      List.cons.injEq] at hsame hsame'
    have hfirst : (found? first a segment).isSome → (found? second b segment).isSome →
        ∀ t ∈ segments.head?, head? first t = none := by
      intro hp hq t ht
      -- The next declaration is found in one of the texts only, but has to end up with the same
      -- value in both, and that for two values.
      by_contra hsome
      obtain ⟨head, hhead⟩ := Option.ne_none_iff_exists'.mp hsome
      obtain ⟨p, hp⟩ := Option.isSome_iff_exists.mp hp
      obtain ⟨q, hq⟩ := Option.isSome_iff_exists.mp hq
      cases segments with
      | nil => cases ht
      | cons t' segments =>
        obtain rfl : t' = t := by simpa using ht
        have hsame := hsame.2
        have hsame' := hsame'.2
        rw [hp, Option.isNone_some, marks, recast_cons] at htidies
        have htidy := (List.cons.inj htidies).1
        obtain ⟨hstart, -⟩ := head?_eq_some_iff.mp hhead
        simp only [hp, hq, uncovered, Option.isNone_some, Option.isSome_some, if_true,
          Option.isNone_none, marks, recast_cons, List.cons.injEq, h.found?_first_head hhead hcover,
          revalue_some, revalue_none, h.found?_second_head hnew hstart,
          h.found?_second_head hnew' hstart, h.found?_second_revalue hold hnew htidy,
          h.found?_second_revalue hold hnew' htidy] at hsame hsame'
        exact hne (h.eq_of_revalue_head hnew hlast hhead hsame.1.symm hsame'.1.symm)
    exact loose_cons.mpr ⟨hfirst, ih htidies (InStep.next hfirst) hsame.2 hsame'.2⟩

end Different

end Siteworks.Stylesheet
