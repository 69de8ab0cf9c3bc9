import Mathlib
import Siteworks.Proofs.Stylesheet.Declarations

/-!
# What is read before a value

A declaration of a property starts with its head: the name and a colon in blanks. The first head in
a fresh place of a text without semicolons is found by a walk along it, and with it all of the text
up to the value. What is found does not depend on the value.
-/

namespace Siteworks.Stylesheet

open Text (isBlank StartsFull)

/-- A text that can name a property: it has neither a colon nor a semicolon, and ends with no
blank. -/
structure IsName (name : List Char) : Prop where
  /-- There is no colon. -/
  colon : ':' ∉ name
  /-- There is no semicolon. -/
  semicolon : ';' ∉ name
  /-- There is a last character, and it is no blank. -/
  last : ∃ c ∈ name.getLast?, isBlank c = false

/-! ## The head of a declaration -/

/-- The text is what a declaration has before its value. -/
def IsHead (name head : List Char) : Prop :=
  ∃ space space', head = name ++ space ++ ':' :: space' ∧ (∀ c ∈ space, isBlank c = true) ∧
    ∀ c ∈ space', isBlank c = true

/-- The head of the declaration that starts the text. -/
def head? (name text : List Char) : Option (List Char) :=
  (declaration? name (text ++ [';'])).map Prod.fst

variable {name head value text rest start new new' : List Char} {fresh : Bool}

/-- A head is found where the text goes on with a value behind one. -/
theorem head?_eq_some_iff : head? name text = some head ↔
    IsHead name head ∧ ∃ value, text = head ++ value ∧ StartsFull value := by
  rw [head?, Option.map_eq_some_iff]
  constructor
  · rintro ⟨⟨head, value⟩, found, rfl⟩
    obtain ⟨space, space', rest, htext, hhead, hspace, hspace', hvalue, -⟩ :=
      declaration?_eq_some_iff.mp found
    refine ⟨⟨space, space', hhead, hspace, hspace'⟩, ?_⟩
    have hfull : StartsFull (value ++ ';' :: rest) := hvalue.append (.cons (by decide) rest)
    have hcut : text ++ [';'] = head ++ (value ++ ';' :: rest) := by simp [htext, hhead]
    rcases List.append_eq_append_iff.mp hcut with ⟨follow, rfl, hfollow⟩ | ⟨follow, rfl, hfollow⟩
    · have hnil : follow = [] := by
        have := congrArg List.length hfollow
        simp only [List.length_append, List.length_cons, List.length_nil] at this
        exact List.eq_nil_of_length_eq_zero (by omega)
      exact ⟨[], by simp [hnil], nofun⟩
    · exact ⟨follow, rfl, (hfollow ▸ hfull).of_append⟩
  · rintro ⟨⟨space, space', rfl, hspace, hspace'⟩, value, rfl, hvalue⟩
    obtain ⟨rest, hrest⟩ := Text.exists_eq_takeWhile_append
      (show ';' ∈ value ++ [';'] from List.mem_append_right _ List.mem_cons_self)
    have hfull : StartsFull (value ++ [';']) := hvalue.append (.cons (by decide) [])
    refine ⟨(_, (value ++ [';']).takeWhile (· ≠ ';')), declaration?_eq_some_iff.mpr
      ⟨space, space', rest, ?_, rfl, hspace, hspace', hfull.takeWhile _, ?_⟩, rfl⟩
    · rw [List.append_assoc space', ← hrest]
      simp
    · exact fun hmem => by simpa using List.mem_takeWhile_imp hmem

/-- Where a text starts with a head, a head is found. -/
theorem exists_head?_iff : (∃ head, head? name text = some head) ↔
    ∃ space rest, text = name ++ space ++ ':' :: rest ∧ ∀ c ∈ space, isBlank c = true := by
  constructor
  · rintro ⟨head, h⟩
    obtain ⟨⟨space, space', rfl, hspace, -⟩, value, rfl, -⟩ := head?_eq_some_iff.mp h
    exact ⟨space, space' ++ value, by simp, hspace⟩
  · rintro ⟨space, rest, rfl, hspace⟩
    obtain ⟨hrest, hspace', hvalue⟩ := takeBlank_spec rest
    refine ⟨_, head?_eq_some_iff.mpr ⟨⟨space, (takeBlank rest).1, rfl, hspace, hspace'⟩,
      (takeBlank rest).2, ?_, hvalue⟩⟩
    rw [List.append_assoc (name ++ space), List.cons_append, ← hrest]

/-- Nothing starts with a head. -/
theorem head?_nil (name : List Char) : head? name [] = none := by
  rw [Option.eq_none_iff_forall_ne_some]
  intro head h
  obtain ⟨⟨space, space', rfl, -⟩, value, hvalue, -⟩ := head?_eq_some_iff.mp h
  simp at hvalue

/-- A head that ends before the value does not depend on the value. -/
theorem head?_append (start : List Char) (h : head? name (start ++ new) = some head)
    (hinside : head <+: start) (hnew : StartsFull new') :
    head? name (start ++ new') = some head := by
  obtain ⟨hhead, value, hvalue, hfull⟩ := head?_eq_some_iff.mp h
  obtain ⟨between, rfl⟩ := hinside
  rw [List.append_assoc, List.append_cancel_left_eq] at hvalue
  rw [← hvalue] at hfull
  exact head?_eq_some_iff.mpr ⟨hhead, between ++ new', by simp, hfull.of_append.append hnew⟩

/-- A head ends before a value without a colon. -/
theorem head?_isPrefix (start : List Char) (h : head? name (start ++ new) = some head)
    (hnew : StartsFull new) (hcolon : ':' ∉ new) : head <+: start := by
  obtain ⟨⟨space, space', rfl, -, hspace'⟩, value, hvalue, -⟩ := head?_eq_some_iff.mp h
  rcases List.append_eq_append_iff.mp hvalue with ⟨between, hhead, rfl⟩ | ⟨between, rfl, -⟩
  · have hnot : ':' ∉ between := fun hmem => hcolon (List.mem_append_left _ hmem)
    rcases List.append_eq_append_iff.mp hhead with ⟨_ | ⟨c, inner⟩, rfl, hspace⟩ | ⟨inner, -, rfl⟩
    · obtain rfl : ':' :: space' = between := hspace
      exact (hnot List.mem_cons_self).elim
    · obtain ⟨rfl, rfl⟩ := List.cons.inj hspace
      cases between with
      | nil => simp
      | cons c between =>
        have hblank := hspace' c (by simp)
        rw [hnew c rfl] at hblank
        cases hblank
    · simp at hnot
  · exact List.prefix_append _ _

/-- Up to the value of the first declaration of a property in a segment. -/
def found? (name : List Char) : Bool → List Char → Option (List Char)
  | _, [] => none
  | fresh, c :: rest =>
    match if fresh then head? name (c :: rest) else none with
    | some head => some head
    | none => (found? name (separates c) rest).map (c :: ·)

/-- Where a segment is not fresh, its declaration is found further on. -/
theorem found?_cons (c : Char) (rest : List Char) (fresh : Bool) :
    found? name fresh (c :: rest) =
      ((if fresh then head? name (c :: rest) else none).or
        ((found? name (separates c) rest).map (c :: ·))) := by
  rw [found?]
  cases (if fresh then head? name (c :: rest) else none) <;> rfl

/-- A declaration is also found from a fresh place. -/
theorem found?_true_ne_none (h : found? name fresh text = some start) :
    found? name true text ≠ none := by
  cases text with
  | nil => cases h
  | cons c rest =>
    rw [found?_cons] at h ⊢
    intro hnone
    obtain ⟨hhead, hrest⟩ := Option.or_eq_none_iff.mp hnone
    rw [if_pos rfl] at hhead
    rw [hhead, hrest, ite_self] at h
    cases h

/-- What is found ends behind a colon and blanks. -/
theorem exists_head_of_found? (h : found? name fresh text = some start) :
    ∃ front head value, start = front ++ head ∧ IsHead name head ∧ text = start ++ value ∧
      StartsFull value ∧ (fresh = false → front ≠ []) := by
  induction text generalizing fresh start with
  | nil => cases h
  | cons c rest ih =>
    rw [found?_cons, Option.or_eq_some_iff] at h
    rcases h with h | ⟨-, h⟩
    · obtain ⟨hfresh, h⟩ := Option.ite_none_right_eq_some.mp h
      obtain ⟨hhead, value, htext, hvalue⟩ := head?_eq_some_iff.mp h
      exact ⟨[], start, value, rfl, hhead, htext, hvalue, by simp [hfresh]⟩
    · obtain ⟨start, hstart, rfl⟩ := Option.map_eq_some_iff.mp h
      obtain ⟨front, head, value, rfl, hhead, rfl, hvalue, -⟩ := ih hstart
      exact ⟨c :: front, head, value, rfl, hhead, rfl, hvalue, fun _ => by simp⟩

/-- A head has a colon. -/
theorem IsHead.colon_mem (h : IsHead name head) : ':' ∈ head := by
  obtain ⟨space, space', rfl, -⟩ := h
  simp

/-- What is found has a colon. -/
theorem colon_mem_of_found? (h : found? name fresh text = some start) : ':' ∈ start := by
  obtain ⟨front, head, value, rfl, hhead, -⟩ := exists_head_of_found? h
  exact List.mem_append_right _ hhead.colon_mem

/-- Behind a colon a text cannot be changed so that a head appears at its start. -/
theorem exists_head?_of_append (hname : ':' ∉ name) (start : List Char) (hstart : ':' ∈ start)
    (h : ∃ head, head? name (start ++ new) = some head) (new' : List Char) :
    ∃ head, head? name (start ++ new') = some head := by
  obtain ⟨space, rest, htext, hspace⟩ := exists_head?_iff.mp h
  have hcolon : ':' ∉ name ++ space := by
    rw [List.mem_append, not_or]
    exact ⟨hname, Text.not_mem_of_forall_isBlank hspace (by decide)⟩
  obtain ⟨follow, hfollow⟩ := Text.exists_eq_takeWhile_append hstart
  have hnot : ':' ∉ start.takeWhile (· ≠ ':') := fun hmem => by
    simpa using List.mem_takeWhile_imp hmem
  have hcut : start.takeWhile (· ≠ ':') ++ ':' :: (follow ++ new) =
      name ++ space ++ ':' :: rest := by
    rw [← htext, ← List.cons_append, ← List.append_assoc, ← hfollow]
  obtain ⟨hbegin, -⟩ := Text.cut_inj hnot hcolon hcut
  refine exists_head?_iff.mpr ⟨space, follow ++ new', ?_, hspace⟩
  rw [← hbegin, ← List.cons_append, ← List.append_assoc, ← hfollow]

/-- What is found does not depend on the value behind it. -/
theorem found?_append (hname : ':' ∉ name) (h : found? name fresh (start ++ new) = some text)
    (hinside : text <+: start) (hnew : StartsFull new') :
    found? name fresh (start ++ new') = some text := by
  induction start generalizing fresh text with
  | nil =>
    rw [List.prefix_nil.mp hinside] at h
    cases colon_mem_of_found? h
  | cons c start ih =>
    rw [List.cons_append, found?_cons, Option.or_eq_some_iff] at h ⊢
    rcases h with h | ⟨hnone, h⟩
    · obtain ⟨hfresh, h⟩ := Option.ite_none_right_eq_some.mp h
      exact Or.inl (Option.ite_none_right_eq_some.mpr
        ⟨hfresh, head?_append (c :: start) h hinside hnew⟩)
    · have hfound : found? name fresh (c :: (start ++ new)) = some text := by
        rw [found?_cons, hnone]
        exact h
      have hcolon := hinside.subset (colon_mem_of_found? hfound)
      obtain ⟨text, htext, rfl⟩ := Option.map_eq_some_iff.mp h
      have hinside := (List.cons_prefix_cons.mp hinside).2
      refine Or.inr ⟨?_, by rw [ih htext hinside]; rfl⟩
      rw [ite_eq_right_iff] at hnone ⊢
      intro hfresh
      by_contra hsome
      obtain ⟨head, hhead⟩ := exists_head?_of_append hname (c :: start) hcolon
        (Option.ne_none_iff_exists'.mp hsome) new
      cases (hnone hfresh).symm.trans hhead

/-- What is found ends before a value without a colon. -/
theorem found?_isPrefix (start : List Char) (h : found? name fresh (start ++ new) = some text)
    (hnew : StartsFull new) (hcolon : ':' ∉ new) : text <+: start := by
  induction start generalizing fresh text with
  | nil =>
    obtain ⟨front, head, value, rfl, hhead, rfl, -⟩ := exists_head_of_found? h
    exact (hcolon (by simp [hhead.colon_mem])).elim
  | cons c start ih =>
    rw [List.cons_append, found?_cons, Option.or_eq_some_iff] at h
    rcases h with h | ⟨-, h⟩
    · exact head?_isPrefix (c :: start) (Option.ite_none_right_eq_some.mp h).2 hnew hcolon
    · obtain ⟨text, htext, rfl⟩ := Option.map_eq_some_iff.mp h
      exact List.cons_prefix_cons.mpr ⟨rfl, ih htext⟩

/-- A value that can be given to a property: it has neither a colon nor a semicolon nor a brace, and
does not start with a blank. -/
structure IsValue (value : List Char) : Prop where
  /-- There is no blank at the start. -/
  full : StartsFull value
  /-- There is no colon. -/
  colon : ':' ∉ value
  /-- There is no semicolon. -/
  semicolon : ';' ∉ value
  /-- There is no brace. -/
  brace : '\x7b' ∉ value ∧ '\x7d' ∉ value

/-- Values that can be given to a property make no difference to what is found. -/
theorem found?_value (hname : ':' ∉ name) (fresh : Bool) (start : List Char)
    (hnew : IsValue new) (hnew' : IsValue new') :
    found? name fresh (start ++ new) = found? name fresh (start ++ new') := by
  have hto {new new' : List Char} (hnew : IsValue new) (hnew' : IsValue new') (text : List Char)
      (h : found? name fresh (start ++ new) = some text) :
      found? name fresh (start ++ new') = some text :=
    found?_append hname h (found?_isPrefix start h hnew.full hnew.colon) hnew'.full
  exact Option.ext fun text => ⟨hto hnew hnew' text, hto hnew' hnew text⟩

/-- The declaration that is found is found with a new value as well. -/
theorem found?_setValue (hname : ':' ∉ name) (h : found? name fresh text = some start)
    (hnew : StartsFull new) : found? name fresh (start ++ new) = some start := by
  obtain ⟨front, head, value, rfl, -, rfl, -⟩ := exists_head_of_found? h
  exact found?_append hname h (List.prefix_refl _) hnew

end Siteworks.Stylesheet
