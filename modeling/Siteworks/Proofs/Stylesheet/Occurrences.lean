import Mathlib
import Siteworks.Proofs.Stylesheet.Steady
import Siteworks.Proofs.Words

/-!
# Where a property is declared

A property is declared wherever its name stands in a fresh place of a text with a colon behind it.
Setting the property goes through these places from left to right. It passes over a declaration that
no semicolon closes, and over one right behind the semicolon of a declaration that is set, because
that semicolon belongs to the one before. So all declarations show the new value exactly if those that
are missed in these two ways do already.
-/

namespace Siteworks

namespace Text

/-- A text without white space at its ends is not trimmed. -/
theorem trim_eq_self {text : List Char} (hstart : StartsFull text)
    (hend : StartsFull text.reverse) : trim text = text := by
  have hdrop : ∀ text : List Char, StartsFull text → text.dropWhile isBlank = text := by
    intro text htext
    cases text with
    | nil => rfl
    | cons c text => rw [List.dropWhile_cons, htext c rfl, if_neg Bool.false_ne_true]
  rw [trim, trimStart, hdrop _ hstart, trimEnd, hdrop _ hend, List.reverse_reverse]

/-- White space in front of a text is trimmed off. -/
theorem trim_append {space : List Char} (hspace : ∀ c ∈ space, isBlank c = true) (text : List Char) :
    trim (space ++ text) = trim text := by
  rw [trim, trim, trimStart, trimStart, List.dropWhile_append_of_pos hspace]

end Text

namespace Stylesheet

open Text (isBlank StartsFull)

variable {name value new text segment start rest more : List Char} {fresh : Bool}
  {segments : List (List Char)} {last : List Char}

/-! ## Declarations and their values -/

/-- The value that a text starts with: up to a semicolon or a closing brace, and without white space
around it. -/
def valueBehind (rest : List Char) : List Char :=
  Text.trim (rest.takeWhile fun c => c ≠ ';' && c ≠ '\x7d')

/-- The text declares the property behind a beginning: this ends in a fresh place, the name comes next
and a colon in front of the rest. -/
def DeclaredAt (name text start rest : List Char) : Prop :=
  (∃ space, text = start ++ (name ++ space) ++ ':' :: rest ∧ ∀ c ∈ space, isBlank c = true) ∧
    ∀ c ∈ start.getLast?, separates c = true

/-- The property is declared somewhere in the text, and a semicolon closes the declaration. -/
def IsDeclared (name text : List Char) : Prop :=
  ∃ start rest, DeclaredAt name text start rest ∧ ';' ∈ rest

/-- Every declaration of the property shows the value. -/
def Shows (name value text : List Char) : Prop :=
  ∀ start rest, DeclaredAt name text start rest → valueBehind rest = value

/-- A declaration that the text starts with shows the value. -/
def StartShows (name value text : List Char) : Prop :=
  ∀ rest, DeclaredAt name text [] rest → valueBehind rest = value

/-- A declaration is missed when the property is set: no semicolon closes it, or it stands right behind
the semicolon of one that is set. -/
def MissedAt (name text start rest : List Char) : Prop :=
  DeclaredAt name text start rest ∧
    (';' ∉ rest ∨ ∃ before, start = before ++ [';'] ∧ Closes name text before)

/-- What is missed shows the value already. -/
def MissedShow (name value text : List Char) : Prop :=
  ∀ start rest, MissedAt name text start rest → valueBehind rest = value

/-- A value ends at a semicolon. -/
theorem valueBehind_append (rest more : List Char) :
    valueBehind (rest ++ ';' :: more) = valueBehind rest := by
  rw [valueBehind, valueBehind]
  congr 1
  induction rest with
  | nil => rfl
  | cons c rest ih => rw [List.cons_append, List.takeWhile_cons, List.takeWhile_cons, ih]

/-- A value that can be given to a property is read back. -/
theorem valueBehind_value {space : List Char} (hspace : ∀ c ∈ space, isBlank c = true)
    (hnew : IsValue new) (htrim : Text.trim new = new) : valueBehind (space ++ new) = new := by
  have hall : ∀ c ∈ space ++ new, (decide (c ≠ ';') && decide (c ≠ '\x7d')) = true := by
    intro c hc
    have hne : ∀ d, isBlank d = false → d ∉ new → c ≠ d := by
      rintro d hblank hd rfl
      rcases List.mem_append.mp hc with hc | hc
      · rw [hspace _ hc] at hblank
        cases hblank
      · exact hd hc
    simp [hne ';' (by decide) hnew.semicolon, hne '\x7d' (by decide) hnew.brace.2]
  rw [valueBehind, List.takeWhile_eq_self_iff.mpr hall, Text.trim_append hspace, htrim]

/-- A value without a colon does not depend on what stands behind a colon. -/
theorem valueBehind_colon (hcolon : ':' ∉ value) (between more : List Char)
    (h : valueBehind (between ++ ':' :: rest) = value) :
    valueBehind (between ++ ':' :: more) = value := by
  by_cases hall : ∀ c ∈ between, (decide (c ≠ ';') && decide (c ≠ '\x7d')) = true
  · refine absurd ?_ hcolon
    rw [← h, valueBehind, List.takeWhile_append_of_pos hall]
    exact Text.mem_trim (by simp) (by decide)
  · have hstop : ∀ rest : List Char, (between ++ ':' :: rest).takeWhile
        (fun c => c ≠ ';' && c ≠ '\x7d') = between.takeWhile fun c => c ≠ ';' && c ≠ '\x7d' := by
      intro rest
      rw [List.takeWhile_append, if_neg]
      intro hlength
      exact hall (List.takeWhile_eq_self_iff.mp ((List.takeWhile_prefix _).eq_of_length hlength))
    rw [← h, valueBehind, valueBehind, hstop, hstop]

/-! ## Declarations in segments -/

/-- A character that parts the declarations of a property: none has it in front of its value, and the
place behind it is fresh. -/
structure Parts (name : List Char) (d : Char) : Prop where
  /-- It is not in the name. -/
  name : d ∉ name
  /-- It is no colon. -/
  colon : d ≠ ':'
  /-- It is no white space. -/
  blank : isBlank d = false
  /-- A declaration may follow it. -/
  separates : separates d = true

/-- A semicolon parts the declarations of every property. -/
theorem IsName.parts (h : IsName name) : Parts name ';' :=
  ⟨h.semicolon, by decide, by decide, by decide⟩

/-- A colon in a text with another character in it stands in front of that or behind. -/
theorem colon_cases {d : Char} (hd : d ≠ ':') (h : start ++ ':' :: rest = segment ++ d :: more) :
    (∃ between, segment = start ++ ':' :: between ∧ rest = between ++ d :: more) ∨
      ∃ between, start = segment ++ d :: between ∧ more = between ++ ':' :: rest := by
  rcases List.append_eq_append_iff.mp h with ⟨_ | ⟨c, between⟩, hstart, hrest⟩ |
    ⟨_ | ⟨c, between⟩, hstart, hrest⟩
  · exact absurd (List.cons.inj hrest).1.symm hd
  · obtain ⟨rfl, rfl⟩ := List.cons.inj hrest
    exact Or.inl ⟨between, hstart, rfl⟩
  · exact absurd (List.cons.inj hrest).1 hd
  · obtain ⟨rfl, rfl⟩ := List.cons.inj hrest
    exact Or.inr ⟨between, hstart, rfl⟩

/-- A place behind a separating character is as fresh as it is without what stands before. -/
theorem fresh_append_iff {d : Char} (hd : separates d = true) (segment start : List Char) :
    (∀ c ∈ (segment ++ d :: start).getLast?, separates c = true) ↔
      ∀ c ∈ start.getLast?, separates c = true := by
  rw [List.getLast?_append_cons]
  cases start with
  | nil => simp [hd]
  | cons c start => rw [List.getLast?_cons_cons]

/-- The declarations in a text are those before a character that parts them and those behind. -/
theorem declaredAt_append_iff {d : Char} (hd : Parts name d) :
    DeclaredAt name (segment ++ d :: more) start rest ↔
      (∃ between, rest = between ++ d :: more ∧ DeclaredAt name segment start between) ∨
        ∃ behind, start = segment ++ d :: behind ∧ DeclaredAt name more behind rest := by
  constructor
  · rintro ⟨⟨space, hcut, hspace⟩, hstart⟩
    rcases colon_cases hd.colon hcut.symm with ⟨between, rfl, rfl⟩ | ⟨between, hbegin, rfl⟩
    · exact Or.inl ⟨between, rfl, ⟨space, rfl, hspace⟩, hstart⟩
    · have hfree : d ∉ name ++ space := by
        rw [List.mem_append, not_or]
        exact ⟨hd.name, Text.not_mem_of_forall_isBlank hspace hd.blank⟩
      obtain ⟨behind, rfl⟩ := Text.exists_of_append_cons_eq hbegin.symm hfree
      obtain rfl : behind ++ (name ++ space) = between := by simpa using hbegin
      exact Or.inr ⟨behind, rfl, ⟨space, rfl, hspace⟩,
        (fresh_append_iff hd.separates segment behind).mp hstart⟩
  · rintro (⟨between, rfl, ⟨space, rfl, hspace⟩, hstart⟩ |
      ⟨behind, rfl, ⟨space, rfl, hspace⟩, hstart⟩)
    · exact ⟨⟨space, by simp, hspace⟩, hstart⟩
    · exact ⟨⟨space, by simp, hspace⟩, (fresh_append_iff hd.separates segment behind).mpr hstart⟩

/-- Declarations show a value if those of the first segment and those behind its semicolon do. -/
theorem shows_append_iff (hname : IsName name) :
    Shows name value (segment ++ ';' :: more) ↔ Shows name value segment ∧ Shows name value more := by
  constructor
  · refine fun h => ⟨fun start rest hdeclared => ?_, fun start rest hdeclared => ?_⟩
    · rw [← valueBehind_append rest more]
      exact h start _ ((declaredAt_append_iff hname.parts).mpr (Or.inl ⟨rest, rfl, hdeclared⟩))
    · exact h _ rest ((declaredAt_append_iff hname.parts).mpr (Or.inr ⟨start, rfl, hdeclared⟩))
  · rintro ⟨hsegment, hmore⟩ start rest hdeclared
    rcases (declaredAt_append_iff hname.parts).mp hdeclared with
      ⟨between, rfl, hbefore⟩ | ⟨behind, rfl, hbehind⟩
    · rw [valueBehind_append]
      exact hsegment start between hbefore
    · exact hmore behind rest hbehind

/-- A place behind segments is as fresh as it is without them. -/
theorem fresh_closedText_iff (segments : List (List Char)) (start : List Char) :
    (∀ c ∈ (closedText segments start).getLast?, separates c = true) ↔
      ∀ c ∈ start.getLast?, separates c = true := by
  induction segments with
  | nil => rfl
  | cons segment segments ih => rw [closedText_cons, fresh_append_iff (by decide), ih]

/-- Declarations are those of the segments and those of what follows the last one. -/
theorem shows_closedText_iff (hname : IsName name) : Shows name value (closedText segments last) ↔
    (∀ segment ∈ segments, Shows name value segment) ∧ Shows name value last := by
  induction segments with
  | nil => simp [closedText]
  | cons segment segments ih =>
    rw [closedText_cons, shows_append_iff hname, ih, List.forall_mem_cons, and_assoc]

/-- In a head there is one colon. -/
theorem IsHead.count_colon {head : List Char} (hname : IsName name) (h : IsHead name head) :
    head.count ':' = 1 := by
  obtain ⟨space, space', rfl, hspace, hspace'⟩ := h
  have hblank {space : List Char} (hspace : ∀ c ∈ space, isBlank c = true) :
      space.count ':' = 0 :=
    List.count_eq_zero.mpr (Text.not_mem_of_forall_isBlank hspace (by decide))
  simp [List.count_eq_zero.mpr hname.colon, hblank hspace, hblank hspace']

/-- Where a segment has a declaration in a fresh place, one is found, there or further ahead. -/
theorem exists_found?_of_fresh (hname : IsName name) {space : List Char}
    (hspace : ∀ c ∈ space, isBlank c = true) (hstart : ∀ c ∈ start.getLast?, separates c = true)
    (hplace : fresh = true ∨ start ≠ []) (rest : List Char) :
    ∃ found, found? name fresh (start ++ (name ++ space) ++ ':' :: rest) = some found ∧
      found.count ':' ≤ (start ++ (name ++ space) ++ [':']).count ':' := by
  have hcount : ∀ start : List Char, 1 ≤ (start ++ (name ++ space) ++ [':']).count ':' := by
    intro start
    rw [List.count_append]
    simp
  induction start generalizing fresh with
  | nil =>
    obtain rfl : fresh = true := hplace.resolve_right fun h => h rfl
    obtain ⟨head, hfound⟩ := exists_head?_iff.mpr ⟨space, rest, rfl, hspace⟩
    refine ⟨head, ?_, (head?_eq_some_iff.mp hfound).1.count_colon hname ▸ hcount []⟩
    obtain ⟨c, tail, hcons⟩ := List.exists_cons_of_ne_nil
      (show name ++ space ++ ':' :: rest ≠ [] by simp)
    rw [List.nil_append, hcons, found?_cons, if_pos rfl, ← hcons, hfound]
    rfl
  | cons c start ih =>
    have hbehind : (∀ d ∈ start.getLast?, separates d = true) ∧
        (separates c = true ∨ start ≠ []) := by
      cases start with
      | nil => exact ⟨by simp, Or.inl (hstart c rfl)⟩
      | cons d start =>
        rw [List.getLast?_cons_cons] at hstart
        exact ⟨hstart, Or.inr (by simp)⟩
    obtain ⟨found, hfound, hcolons⟩ := ih hbehind.1 hbehind.2
    rw [List.cons_append, List.cons_append, found?_cons, hfound]
    cases hfirst : if fresh then head? name (c :: (start ++ (name ++ space) ++ ':' :: rest)) else none
    with
    | none =>
      refine ⟨c :: found, rfl, ?_⟩
      rw [List.cons_append, List.count_cons, List.count_cons]
      exact Nat.add_le_add_right hcolons _
    | some head =>
      obtain ⟨-, hhead⟩ := Option.ite_none_right_eq_some.mp hfirst
      exact ⟨head, rfl, (head?_eq_some_iff.mp hhead).1.count_colon hname ▸ hcount (c :: start)⟩

/-- What is found starts in front of a declaration in a fresh place. -/
theorem exists_declaredAt_of_found? (h : found? name fresh text = some start) :
    ∃ front rest, front <+: start ∧ DeclaredAt name text front rest := by
  suffices hplace : ∃ front rest, front <+: start ∧ DeclaredAt name text front rest ∧
      (fresh = false → front ≠ []) by
    obtain ⟨front, rest, hinside, hdeclared, -⟩ := hplace
    exact ⟨front, rest, hinside, hdeclared⟩
  induction text generalizing fresh start with
  | nil => cases h
  | cons c text ih =>
    rw [found?_cons, Option.or_eq_some_iff] at h
    rcases h with h | ⟨-, h⟩
    · obtain ⟨hfresh, h⟩ := Option.ite_none_right_eq_some.mp h
      obtain ⟨space, rest, htext, hspace⟩ := exists_head?_iff.mp ⟨_, h⟩
      exact ⟨[], rest, List.nil_prefix, ⟨⟨space, htext, hspace⟩, by simp⟩, by simp [hfresh]⟩
    · obtain ⟨start, hstart, rfl⟩ := Option.map_eq_some_iff.mp h
      obtain ⟨front, rest, hinside, ⟨⟨space, rfl, hspace⟩, hfront⟩, hplace⟩ := ih hstart
      refine ⟨c :: front, rest, List.cons_prefix_cons.mpr ⟨rfl, hinside⟩,
        ⟨⟨space, rfl, hspace⟩, ?_⟩, by simp⟩
      cases front with
      | nil => simpa using hplace
      | cons d front => rwa [List.getLast?_cons_cons]

/-- In a fresh place a declaration is found exactly if there is one. -/
theorem found?_true_ne_none_iff (hname : IsName name) :
    found? name true text ≠ none ↔ ∃ start rest, DeclaredAt name text start rest := by
  constructor
  · intro hsome
    obtain ⟨start, hstart⟩ := Option.ne_none_iff_exists'.mp hsome
    obtain ⟨front, rest, -, hdeclared⟩ := exists_declaredAt_of_found? hstart
    exact ⟨front, rest, hdeclared⟩
  · rintro ⟨start, rest, ⟨space, rfl, hspace⟩, hstart⟩
    obtain ⟨found, hfound, -⟩ := exists_found?_of_fresh hname hspace hstart (Or.inl rfl) rest
    exact Option.ne_none_iff_exists'.mpr ⟨found, hfound⟩

/-- Something is found in segments in a row if one of them has a declaration. -/
theorem any_marks_iff (hname : IsName name) (segments : List (List Char)) :
    (marks name true segments).any Option.isSome = true ↔
      ∃ segment ∈ segments, ∃ start rest, DeclaredAt name segment start rest := by
  simp only [← found?_true_ne_none_iff hname]
  constructor
  · intro hany
    obtain ⟨found, hmem, hsome⟩ := List.any_eq_true.mp hany
    obtain ⟨start, rfl⟩ := Option.isSome_iff_exists.mp hsome
    obtain ⟨k, hk⟩ := List.mem_iff_getElem?.mp hmem
    obtain ⟨fresh, segment, hsegment, hfound⟩ := exists_found?_of_marks hk
    exact ⟨segment, List.mem_of_getElem? hsegment, found?_true_ne_none hfound⟩
  · rintro ⟨segment, hmem, hsome⟩
    induction segments with
    | nil => cases hmem
    | cons first segments ih =>
      rw [marks, List.any_cons, Bool.or_eq_true]
      -- the place behind the first segment is fresh unless something is found in it
      cases hfirst : found? name true first with
      | some start => exact Or.inl rfl
      | none =>
        rcases List.mem_cons.mp hmem with rfl | hmem
        · exact absurd hfirst hsome
        · exact Or.inr (ih hmem)

/-- The declarations that a semicolon closes are those of the segments. -/
theorem isDeclared_closedText_iff (hname : IsName name) (segments : List (List Char))
    (hlast : ';' ∉ last) :
    IsDeclared name (closedText segments last) ↔
      ∃ segment ∈ segments, ∃ start rest, DeclaredAt name segment start rest := by
  unfold IsDeclared
  induction segments with
  | nil =>
    refine ⟨?_, by simp⟩
    rintro ⟨start, rest, ⟨⟨space, rfl, -⟩, -⟩, hclosed⟩
    exact absurd (by simp [hclosed]) hlast
  | cons segment segments ih =>
    rw [List.exists_mem_cons_iff, ← ih, closedText_cons]
    simp only [declaredAt_append_iff hname.parts]
    constructor
    · rintro ⟨start, rest, ⟨between, rfl, hdeclared⟩ | ⟨behind, rfl, hdeclared⟩, hclosed⟩
      · exact Or.inl ⟨start, between, hdeclared⟩
      · exact Or.inr ⟨behind, rest, hdeclared, hclosed⟩
    · rintro (⟨start, between, hdeclared⟩ | ⟨behind, rest, hdeclared, hclosed⟩)
      · exact ⟨start, _, Or.inl ⟨between, rfl, hdeclared⟩, by simp⟩
      · exact ⟨_, rest, Or.inr ⟨behind, rfl, hdeclared⟩, hclosed⟩

/-- A stylesheet declares a property exactly if a semicolon closes a declaration in a fresh place. -/
theorem declares_iff (hname : IsName name) (text : List Char) :
    declares name text = true ↔ IsDeclared name text := by
  obtain ⟨segments, last, rfl, hsegments, hlast⟩ := exists_closedText text
  rw [declares_closedText hname hsegments hlast, any_marks_iff hname,
    isDeclared_closedText_iff hname segments hlast]

/-- In a segment with a new value, a declaration that is not at the start shows the value; a segment
without one of its own has no declaration but at the start. -/
theorem valueBehind_of_found (hname : IsName name) (hnew : IsValue new)
    (htrim : Text.trim new = new) (hplace : fresh = true ∨ start ≠ [])
    (h : DeclaredAt name (revalue new segment (found? name fresh segment)) start rest) :
    valueBehind rest = new := by
  obtain ⟨⟨space, hcut, hspace⟩, hstart⟩ := h
  obtain ⟨found, hfound, hcount⟩ := exists_found?_of_fresh hname hspace hstart hplace rest
  rw [← hcut] at hfound
  cases hold : found? name fresh segment with
  | none =>
    rw [hold, revalue_none, hold] at hfound
    cases hfound
  | some found' =>
    rw [hold, revalue_some] at hfound hcut
    obtain rfl : found' = found := by
      rw [found?_setValue hname.colon hold hnew.full] at hfound
      exact Option.some.inj hfound
    -- its colon is the last one, as that of what is found
    have hlast : ':' ∉ rest := by
      have hcolons := congrArg (List.count ':') hcut
      rw [List.count_append, List.count_eq_zero.mpr hnew.colon, List.append_cons,
        List.count_append] at hcolons
      exact List.count_eq_zero.mp (by omega)
    obtain ⟨front, head, value, rfl, ⟨before, behind, rfl, hbefore, hbehind⟩, -⟩ :=
      exists_head_of_found? hold
    have hsame : (front ++ (name ++ before)) ++ ':' :: (behind ++ new) =
        (start ++ (name ++ space)) ++ ':' :: rest := by simpa using hcut
    obtain ⟨-, rfl⟩ := Text.cut_inj_end (c := ':') (by
      rw [List.mem_append, not_or]
      exact ⟨Text.not_mem_of_forall_isBlank hbehind (by decide), hnew.colon⟩) hlast hsame
    exact valueBehind_value hbehind hnew htrim

/-- A declaration at the start of a text stands before what is found, and so shows a value that does
not depend on what follows, if another name or a text ahead is found there. -/
theorem startShows_append {stem space : List Char} (hname : IsName name) (hvalue : ':' ∉ value)
    (hspace : ∀ c ∈ space, isBlank c = true) (hstem : ∃ c ∈ stem.getLast?, isBlank c = false)
    (hne : stem ≠ name) (behind more : List Char)
    (h : StartShows name value (stem ++ space ++ ':' :: behind)) :
    StartShows name value (stem ++ space ++ ':' :: more) := by
  rintro rest ⟨⟨space', hcut, hspace'⟩, hstart⟩
  have hfree : ':' ∉ name ++ space' := by
    rw [List.mem_append, not_or]
    exact ⟨hname.colon, Text.not_mem_of_forall_isBlank hspace' (by decide)⟩
  have hsame : stem ++ space ≠ name ++ space' := fun heq =>
    hne (stem_inj hspace hspace' hstem hname.last List.not_mem_nil List.not_mem_nil
      (congrArg (· ++ [':']) heq))
  rw [List.nil_append] at hcut
  rcases List.append_eq_append_iff.mp hcut with ⟨_ | ⟨c, between⟩, hbegin, hrest⟩ |
    ⟨_ | ⟨c, between⟩, hbegin, hrest⟩
  · exact absurd (by rw [hbegin, List.append_nil]) hsame
  · obtain ⟨rfl, -⟩ := List.cons.inj hrest
    exact absurd (by rw [hbegin]; simp) hfree
  · exact absurd (by rw [hbegin, List.append_nil]) hsame
  · obtain ⟨rfl, rfl⟩ := List.cons.inj hrest
    have hold : DeclaredAt name (stem ++ space ++ ':' :: behind) [] (between ++ ':' :: behind) :=
      ⟨⟨space', by rw [hbegin]; simp, hspace'⟩, hstart⟩
    exact valueBehind_colon hvalue between more (h _ hold)

/-- A segment with a new value shows it in all declarations if one at the start does, unless the place
there is fresh. -/
theorem shows_revalue_iff (hname : IsName name) (hnew : IsValue new) (htrim : Text.trim new = new) :
    Shows name new (revalue new segment (found? name fresh segment)) ↔
      (fresh = false → StartShows name new segment) := by
  -- the start of the segment is the same before and after
  have hstarts : fresh = false → (StartShows name new (revalue new segment (found? name fresh segment)) ↔
      StartShows name new segment) := by
    intro hfresh
    cases hfound : found? name fresh segment with
    | none => rfl
    | some found =>
      obtain ⟨front, head, value, rfl, ⟨space, space', rfl, hspace, -⟩, rfl, -, hfront⟩ :=
        exists_head_of_found? hfound
      have hstem : ∃ c ∈ (front ++ name).getLast?, isBlank c = false := by
        rw [hname.getLast?_append]
        exact hname.last
      have hne : front ++ name ≠ name := fun heq => hfront hfresh (List.append_left_eq_self.mp heq)
      have hto := startShows_append hname hnew.colon hspace hstem hne
      have hcut : ∀ value : List Char, front ++ (name ++ space ++ ':' :: space') ++ value =
          front ++ name ++ space ++ ':' :: (space' ++ value) := by simp
      rw [revalue_some, hcut, hcut]
      exact ⟨hto _ _, hto _ _⟩
  constructor
  · exact fun h hfresh => (hstarts hfresh).mp fun rest => h [] rest
  · intro h start rest hdeclared
    by_cases hplace : fresh = true ∨ start ≠ []
    · exact valueBehind_of_found hname hnew htrim hplace hdeclared
    · rw [not_or, Bool.not_eq_true, not_not] at hplace
      obtain ⟨hfresh, rfl⟩ := hplace
      exact (hstarts hfresh).mpr (h hfresh) rest hdeclared

/-- Segments in a row with new values show them in all declarations if those at the start of a segment
do, behind one in which a declaration is found. -/
theorem shows_recast_iff (hname : IsName name) (hnew : IsValue new) (htrim : Text.trim new = new) :
    (∀ segment ∈ recast new segments (marks name fresh segments), Shows name new segment) ↔
      (fresh = false → ∀ segment ∈ segments.head?, StartShows name new segment) ∧
        ∀ k found segment, (marks name fresh segments)[k]? = some (some found) →
          segments[k + 1]? = some segment → StartShows name new segment := by
  induction segments generalizing fresh with
  | nil => simp [recast, marks]
  | cons segment segments ih =>
    rw [marks, recast_cons, List.forall_mem_cons, shows_revalue_iff hname hnew htrim, ih]
    refine and_congr (by simp) ?_
    constructor
    · rintro ⟨hnext, hrest⟩ (_ | k) found other hfound hother
      · obtain hfound : found? name fresh segment = some found := by simpa using hfound
        refine hnext (by rw [hfound]; rfl) other ?_
        rwa [List.head?_eq_getElem?, Option.mem_def, ← List.getElem?_cons_succ]
      · exact hrest k found other hfound hother
    · refine fun h => ⟨fun hfound other hother => ?_, fun k => h (k + 1)⟩
      obtain ⟨found, hfound⟩ := Option.ne_none_iff_exists'.mp (Option.isNone_eq_false_iff.mp hfound |>
        Option.isSome_iff_ne_none.mp)
      refine h 0 found other (by simp [hfound]) ?_
      rw [List.getElem?_cons_succ, ← List.head?_eq_getElem?, hother]

/-! ## Declarations that are missed -/

/-- Without a semicolon in it, the end of a text stands behind all segments. -/
theorem exists_of_closedText_eq {tail : List Char} (htail : ';' ∉ tail)
    (h : closedText segments last = start ++ tail) :
    ∃ start', last = start' ++ tail ∧ start = closedText segments start' := by
  induction segments generalizing start with
  | nil => exact ⟨start, h, rfl⟩
  | cons segment segments ih =>
    rw [closedText_cons] at h
    obtain ⟨between, rfl⟩ := Text.exists_of_append_cons_eq h htail
    have hrest : closedText segments last = between ++ tail := by simpa using h
    obtain ⟨start', rfl, rfl⟩ := ih hrest
    exact ⟨start', rfl, (closedText_cons ..).symm⟩

/-- The start of a row of segments is the start of the first one. -/
theorem startShows_append_semicolon (hname : IsName name) (more : List Char) :
    StartShows name value (segment ++ ';' :: more) ↔ StartShows name value segment := by
  constructor
  · intro h rest hdeclared
    rw [← valueBehind_append rest more]
    exact h _ ((declaredAt_append_iff hname.parts).mpr (Or.inl ⟨rest, rfl, hdeclared⟩))
  · intro h rest hdeclared
    rcases (declaredAt_append_iff hname.parts).mp hdeclared with
      ⟨between, rfl, hbefore⟩ | ⟨behind, hbegin, -⟩
    · rw [valueBehind_append]
      exact h between hbefore
    · simp at hbegin

/-- The place behind a semicolon is fresh, so a declaration there is one of the whole text. -/
theorem declaredAt_semicolon_iff (before : List Char) :
    DeclaredAt name (before ++ ';' :: text) (before ++ [';']) rest ↔ DeclaredAt name text [] rest := by
  simp [DeclaredAt, separates]

/-- What is missed shows the value exactly if the segments behind those with a declaration start with
it, and the declarations behind the last semicolon show it. -/
theorem missedShow_closedText_iff (hname : IsName name)
    (hsegments : ∀ segment ∈ segments, ';' ∉ segment) (hlast : ';' ∉ last) :
    MissedShow name value (closedText segments last) ↔
      (∀ k found segment, (marks name true segments)[k]? = some (some found) →
        segments[k + 1]? = some segment → StartShows name value segment) ∧
          Shows name value last := by
  have hbehind : ∀ k found, (marks name true segments)[k]? = some (some found) →
      closedText segments last = upTo segments k ++ ';' :: closedText (segments.drop (k + 1)) last :=
    fun k found hfound => closedText_eq_upTo_append (lt_length_of_marks hfound)
  constructor
  · intro h
    refine ⟨fun k found segment hfound hsegment => ?_, ?_⟩
    · have hdrop : segments.drop (k + 1) = segment :: segments.drop (k + 2) := by
        obtain ⟨hk, rfl⟩ := List.getElem?_eq_some_iff.mp hsegment
        rw [List.drop_eq_getElem_cons hk]
      rw [← startShows_append_semicolon hname (closedText (segments.drop (k + 2)) last),
        ← closedText_cons, ← hdrop]
      intro rest hdeclared
      refine h (upTo segments k ++ [';']) rest ⟨?_, Or.inr ⟨upTo segments k, rfl, ?_⟩⟩
      · rw [hbehind k found hfound]
        exact (declaredAt_semicolon_iff _).mpr hdeclared
      · exact (closes_closedText_iff hname hsegments hlast).mpr ⟨k, found, hfound, rfl⟩
    · rintro start rest ⟨⟨space, rfl, hspace⟩, hstart⟩
      exact h (closedText segments start) rest ⟨⟨⟨space, by simp [closedText], hspace⟩,
        (fresh_closedText_iff segments start).mpr hstart⟩, Or.inl fun hmem => hlast (by simp [hmem])⟩
  · rintro ⟨hrow, hshows⟩ start rest ⟨hdeclared, hopen | ⟨before, rfl, hcloses⟩⟩
    · obtain ⟨⟨space, hcut, hspace⟩, hstart⟩ := hdeclared
      have hblank : ';' ∉ space := Text.not_mem_of_forall_isBlank hspace (by decide)
      have htail : ';' ∉ name ++ space ++ ':' :: rest := by simp [hname.semicolon, hblank, hopen]
      rw [List.append_assoc] at hcut
      obtain ⟨start', rfl, rfl⟩ := exists_of_closedText_eq htail hcut
      exact hshows start' rest
        ⟨⟨space, by simp, hspace⟩, (fresh_closedText_iff segments start').mp hstart⟩
    · obtain ⟨k, found, hfound, rfl⟩ := (closes_closedText_iff hname hsegments hlast).mp hcloses
      rw [hbehind k found hfound, declaredAt_semicolon_iff] at hdeclared
      cases hdrop : segments.drop (k + 1) with
      | nil =>
        rw [hdrop] at hdeclared
        exact hshows [] rest hdeclared
      | cons segment others =>
        rw [hdrop, closedText_cons] at hdeclared
        refine (startShows_append_semicolon hname _).mpr (hrow k found segment hfound ?_) rest hdeclared
        rw [← List.head?_drop, hdrop]
        rfl

/-- All declarations show a value that was given to a property exactly if those that are missed show
it already. -/
theorem shows_setProperty_iff (hname : IsName name) (hnew : IsValue new)
    (htrim : Text.trim new = new) (text : List Char) :
    Shows name new (setProperty name new text) ↔ MissedShow name new text := by
  obtain ⟨segments, last, rfl, hsegments, hlast⟩ := exists_closedText text
  rw [setProperty_closedText hname hsegments hlast, shows_closedText_iff hname,
    shows_recast_iff hname hnew htrim, missedShow_closedText_iff hname hsegments hlast]
  simp

/-! ## Two properties -/

namespace Different

variable {first second body cover : List Char} {a b : Bool}

/-- In a segment with a value of the second property, the first one shows its own value as before. -/
theorem shows_first_revalue_iff (h : Different first second) (hnew : IsValue new)
    (htrim : Text.trim new = new) (hcover : IsValue cover)
    (htidy : revalue new segment (found? first a segment) = segment) :
    Shows first new (revalue cover segment (found? second b segment)) ↔ Shows first new segment := by
  cases hsecond : found? second b segment with
  | none => rfl
  | some start =>
    have hrevalue (segment : List Char) :
        Shows first new (revalue new segment (found? first a segment)) ↔
          (a = false → StartShows first new segment) :=
      shows_revalue_iff h.isName_first hnew htrim
    have hbefore := hrevalue segment
    have hafter := hrevalue (start ++ cover)
    rw [htidy] at hbefore
    rw [h.found?_first_eq_none hnew hcover htidy hsecond, revalue_none] at hafter
    rw [revalue_some, hafter, hbefore]
    refine imp_congr_right fun _ => ?_
    obtain ⟨-, -, value, -, -, rfl, -⟩ := exists_head_of_found? hsecond
    obtain ⟨front, space, rest, rfl, hspace, -, hlast, -⟩ := exists_stem_of_found? h.isName_second hsecond
    have hne : front ++ second ≠ first := by
      intro heq
      exact h.last (by rw [← heq, h.isName_second.getLast?_append])
    have hto := startShows_append h.isName_first hnew.colon hspace hlast hne
    have hcut : ∀ value : List Char, front ++ second ++ space ++ ':' :: rest ++ value =
        front ++ second ++ space ++ ':' :: (rest ++ value) := by simp
    rw [hcut, hcut]
    exact ⟨hto _ _, hto _ _⟩

/-- In segments with values of the second property, the first one shows its own value as before. -/
theorem shows_first_recast_iff (h : Different first second) (hnew : IsValue new)
    (htrim : Text.trim new = new) (hcover : IsValue cover)
    (htidy : recast new segments (marks first a segments) = segments) :
    (∀ segment ∈ recast cover segments (marks second b segments), Shows first new segment) ↔
      ∀ segment ∈ segments, Shows first new segment := by
  induction segments generalizing a b with
  | nil => rfl
  | cons segment segments ih =>
    rw [marks, recast_cons] at htidy
    obtain ⟨htidy, htidies⟩ := List.cons.inj htidy
    rw [marks, recast_cons, List.forall_mem_cons, List.forall_mem_cons,
      h.shows_first_revalue_iff hnew htrim hcover htidy, ih htidies]

/-- Two properties that are set one after the other show their values exactly if what is missed of
either shows its value already, the one when it is set and the other one after that. -/
theorem shows_setProperty_setProperty_iff (h : Different first second) (hnew : IsValue new)
    (htrim : Text.trim new = new) (hcover : IsValue cover) (htrim' : Text.trim cover = cover)
    (body : List Char) :
    (Shows first new (setProperty second cover (setProperty first new body)) ∧
        Shows second cover (setProperty second cover (setProperty first new body))) ↔
      MissedShow first new body ∧ MissedShow second cover (setProperty first new body) := by
  rw [shows_setProperty_iff h.isName_second hcover htrim']
  refine and_congr_left' ?_
  have hset := setProperty_setProperty h.isName_first.colon hnew.semicolon hnew.full new body
  rw [← shows_setProperty_iff h.isName_first hnew htrim]
  obtain ⟨segments, last, hbody, hsegments, hlast, htidy⟩ := exists_segments h hnew hset
  rw [hbody, setProperty_closedText h.isName_second hsegments hlast, shows_closedText_iff h.isName_first,
    shows_closedText_iff h.isName_first, h.shows_first_recast_iff hnew htrim hcover htidy]

end Different

end Stylesheet

end Siteworks
