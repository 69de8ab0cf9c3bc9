import Mathlib
import Siteworks.Spec.Repair

/-!
# Identifiers in a repaired document

Repair walks a list of items with the identifiers that are taken: those that the items carry, and
those that it has given. An identifier that it gives has the first number that is free, so it is not
blank and differs from everything taken. So the identifiers of a repaired list are distinct.
-/

namespace Siteworks

open Text (allBlank)

/-- A text is read from a member that holds it, unless it is blank. -/
theorem Json.filledText?_eq_some_iff {key text : String} {members : List (String × Json)} :
    filledText? key members = some text ↔
      lookup key members = some (.string text) ∧ allBlank text.toList = false := by
  unfold filledText?
  split
  · next found he =>
    rw [he]
    by_cases hb : allBlank found.toList = true
    · simp only [hb, ite_true, Option.some.injEq, Json.string.injEq]
      exact ⟨nofun, fun ⟨ht, hn⟩ => by simp [← ht, hb] at hn⟩
    · simp only [hb, Bool.false_eq_true, ite_false, Option.some.injEq, Json.string.injEq]
      exact ⟨fun ht => ⟨ht, by simpa [← ht] using hb⟩, fun ht => ht.1⟩
  · next hne =>
    exact ⟨nofun, fun ⟨ht, _⟩ => absurd ht (hne text)⟩

/-- What is read from a member is not blank. -/
theorem Json.allBlank_of_filledText? {key text : String} {members : List (String × Json)}
    (h : filledText? key members = some text) : allBlank text.toList = false :=
  (filledText?_eq_some_iff.mp h).2

namespace Repair

open Violation (itemId?)

/-- Different numbers behind one stem make different identifiers. -/
theorem numberedId_injective (stem : String) : Function.Injective (numberedId stem) :=
  Function.LeftInverse.injective (numberBehind_numberedId stem)

/-- An identifier with a number behind its stem has an underscore in it. -/
theorem underscore_mem_numberedId (stem : String) (number : Nat) :
    '_' ∈ (numberedId stem number).toList := by
  simp [numberedId]

/-- The search passes over numbers whose identifiers are taken, up to one whose identifier is free, and
adds that one. -/
theorem nextFreeId_spec (stem : String) (number : Nat) (taken : List String) :
    ∃ n, nextFreeId stem number taken = (numberedId stem n, numberedId stem n :: taken) ∧
      number ≤ n ∧ numberedId stem n ∉ taken ∧
      ∀ m, number ≤ m → m < n → numberedId stem m ∈ taken := by
  fun_induction nextFreeId stem number taken with
  | case1 number htaken ih =>
    obtain ⟨n, hfound, hn, hfree, hpassed⟩ := ih
    refine ⟨n, hfound, by omega, hfree, fun m hm hlt => ?_⟩
    rcases hm.eq_or_lt with rfl | hm
    · exact htaken
    · exact hpassed m hm hlt
  | case2 number hfree => exact ⟨number, rfl, le_rfl, hfree, fun m _ _ => by omega⟩

/-- The identifier that the search from a number on finds. -/
def freeId (stem : String) (number : Nat) (taken : List String) : String :=
  (nextFreeId stem number taken).1

/-- The search takes the identifier that it finds, and leaves the others as they were. -/
theorem nextFreeId_eq (stem : String) (number : Nat) (taken : List String) :
    nextFreeId stem number taken =
      (freeId stem number taken, freeId stem number taken :: taken) := by
  obtain ⟨n, hfound, -⟩ := nextFreeId_spec stem number taken
  rw [freeId, hfound]

/-- The identifier that is given has the least number that is free. -/
theorem freeId_isLeast (stem : String) (number : Nat) (taken : List String) :
    ∃ n, freeId stem number taken = numberedId stem n ∧
      IsLeast {n | number ≤ n ∧ numberedId stem n ∉ taken} n := by
  obtain ⟨n, hfound, hn, hfree, hpassed⟩ := nextFreeId_spec stem number taken
  refine ⟨n, by rw [freeId, hfound], ⟨hn, hfree⟩, fun m hm => ?_⟩
  by_contra hlt
  exact hm.2 (hpassed m hm.1 (by omega))

/-- The search finds an identifier that is free. -/
theorem freeId_not_mem (stem : String) (number : Nat) (taken : List String) :
    freeId stem number taken ∉ taken := by
  obtain ⟨n, hid, hleast⟩ := freeId_isLeast stem number taken
  rw [hid]
  exact hleast.1.2

/-- An identifier that repair gives has an underscore in it. -/
theorem underscore_mem_freeId (stem : String) (number : Nat) (taken : List String) :
    '_' ∈ (freeId stem number taken).toList := by
  obtain ⟨n, hid, -⟩ := freeId_isLeast stem number taken
  rw [hid]
  exact underscore_mem_numberedId stem n

/-- The identifier of an item, provided or given, and the identifiers taken after it. -/
def identify (stem : String) (number : Nat) (taken : List String)
    (members : List (String × Json)) : String × List String :=
  match Json.filledText? "id" members with
  | some id => (id, taken)
  | none => (freeId stem number taken, freeId stem number taken :: taken)

section Identify

variable {members : List (String × Json)} (stem : String) (number : Nat) (taken : List String)

/-- An item keeps the identifier that it provides. -/
theorem identify_of_some {id : String} (h : Json.filledText? "id" members = some id) :
    identify stem number taken members = (id, taken) := by
  rw [identify, h]

/-- An item that provides no identifier is given one. -/
theorem identify_of_none (h : Json.filledText? "id" members = none) :
    identify stem number taken members =
      (freeId stem number taken, freeId stem number taken :: taken) := by
  rw [identify, h]

end Identify

/-- No item of a list without a repeated identifier carries one that was seen before it. -/
theorem providedIds_of_repeatedId?_eq_none {seen : List String} {items : List Json}
    (h : repeatedId? seen items = none) :
    (providedIds items).Nodup ∧ ∀ id ∈ providedIds items, id ∉ seen := by
  induction items generalizing seen with
  | nil => simp [providedIds]
  | cons item rest ih =>
    unfold repeatedId? at h
    cases hid : itemId? item with
    | none =>
      rw [hid] at h
      simpa [providedIds, hid] using ih h
    | some id =>
      rw [hid] at h
      by_cases hseen : id ∈ seen
      · simp [hseen] at h
      · simp only [hseen, ite_false] at h
        obtain ⟨hnodup, hfresh⟩ := ih h
        simp only [providedIds, List.filterMap_cons, hid, List.nodup_cons,
          List.forall_mem_cons] at *
        refine ⟨⟨fun hm => hfresh id hm (by simp), hnodup⟩, hseen, fun other hm hs => ?_⟩
        exact hfresh other hm (List.mem_append_left _ hs)

/-- No identifier is repeated exactly if the items carry different ones, none of them seen. -/
theorem repeatedId?_eq_none_iff {seen : List String} {items : List Json} :
    repeatedId? seen items = none ↔
      (providedIds items).Nodup ∧ ∀ id ∈ providedIds items, id ∉ seen := by
  refine ⟨providedIds_of_repeatedId?_eq_none, ?_⟩
  rintro ⟨hnodup, hfresh⟩
  induction items generalizing seen with
  | nil => rfl
  | cons item rest ih =>
    unfold repeatedId?
    cases hid : itemId? item with
    | none =>
      simp only [providedIds, List.filterMap_cons, hid] at hnodup hfresh
      exact ih hnodup hfresh
    | some id =>
      simp only [providedIds, List.filterMap_cons, hid, List.nodup_cons,
        List.forall_mem_cons] at hnodup hfresh
      simp only [hfresh.1, ite_false]
      refine ih hnodup.2 fun other hother hs => ?_
      rcases List.mem_append.mp hs with hs | hs
      · exact hfresh.2 other hother hs
      · exact hnodup.1 (List.mem_singleton.mp hs ▸ hother)

/-- What a walk keeps: seen identifiers and those still to come are taken, and none of the latter
has been seen or comes twice. -/
structure Reserved (seen taken : List String) (items : List Json) : Prop where
  /-- Every identifier seen is taken. -/
  seen_taken : ∀ id ∈ seen, id ∈ taken
  /-- Every identifier that an item carries is taken. -/
  provided_taken : ∀ id ∈ providedIds items, id ∈ taken
  /-- No item carries an identifier that has been seen. -/
  provided_fresh : ∀ id ∈ providedIds items, id ∉ seen
  /-- No two items carry one identifier. -/
  provided_nodup : (providedIds items).Nodup

/-- A walk over a list without a repeated identifier starts with all that it carries taken. -/
theorem Reserved.initial {items : List Json} (h : repeatedId? [] items = none) :
    Reserved [] (providedIds items) items :=
  ⟨by simp, fun _ hid => hid, by simp, (providedIds_of_repeatedId?_eq_none h).1⟩

/-- The next item gets an identifier that has not been seen, and the walk goes on. -/
theorem Reserved.identify {seen taken taken' : List String} {members : List (String × Json)}
    {rest : List Json} {stem id : String} {number : Nat}
    (h : Reserved seen taken (.object members :: rest))
    (hid : identify stem number taken members = (id, taken')) :
    id ∉ seen ∧ Reserved (seen ++ [id]) taken' rest := by
  have hitem : itemId? (.object members) = Json.filledText? "id" members := rfl
  obtain ⟨hseen, htaken, hfresh, hnodup⟩ := h
  simp only [providedIds, List.filterMap_cons, hitem] at htaken hfresh hnodup
  unfold Repair.identify at hid
  cases hp : Json.filledText? "id" members with
  | some provided =>
    simp only [hp, List.forall_mem_cons, List.nodup_cons, Prod.mk.injEq] at hid htaken hfresh hnodup
    obtain ⟨rfl, rfl⟩ := hid
    refine ⟨hfresh.1, ?_, htaken.2, ?_, hnodup.2⟩
    · simpa [or_imp, forall_and] using ⟨hseen, htaken.1⟩
    · intro other hm hs
      rcases List.mem_append.mp hs with hs | hs
      · exact hfresh.2 other hm hs
      · exact hnodup.1 (List.mem_singleton.mp hs ▸ hm)
  | none =>
    simp only [hp, Prod.mk.injEq] at hid htaken hfresh hnodup
    obtain ⟨rfl, rfl⟩ := hid
    have hfree := freeId_not_mem stem number taken
    refine ⟨fun hm => hfree (hseen _ hm), ?_, ?_, ?_, hnodup⟩
    · intro other hs
      rcases List.mem_append.mp hs with hs | hs
      · exact List.mem_cons_of_mem _ (hseen other hs)
      · exact List.mem_singleton.mp hs ▸ List.mem_cons_self
    · exact fun other hm => List.mem_cons_of_mem _ (htaken other hm)
    · intro other hm hs
      rcases List.mem_append.mp hs with hs | hs
      · exact hfresh other hm hs
      · exact hfree (List.mem_singleton.mp hs ▸ htaken other hm)

end Repair

end Siteworks
