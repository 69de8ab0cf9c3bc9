import Mathlib
import Siteworks.Proofs.Repair.Identifiers

/-!
# The identifiers of the items of a list

Which identifiers the items of a list end up with follows from the list alone. An item keeps the one
that it carries. One that carries none is given the stem with the first number that makes an
identifier not yet in use, and the walk through the list finds that number.
-/

namespace Siteworks

open Violation (itemId?)

namespace Repair

/-- The identifiers of the items of a list: what an item carries, or else the stem with the least
number not below its position, counted from one, that no item carries and no earlier item has been
given. -/
structure Identified (stem : String) (items : List Json) (ids : List String) : Prop where
  /-- Every item has an identifier. -/
  length_eq : ids.length = items.length
  /-- What an item carries is its identifier. -/
  carried : ∀ (index : Nat) (id : String), items[index]?.bind itemId? = some id →
    ids[index]? = some id
  /-- An item that carries none is given the first free one. -/
  given : ∀ (index : Nat) (item : Json), items[index]? = some item → itemId? item = none →
    ∃ n, ids[index]? = some (numberedId stem n) ∧
      IsLeast {n | index + 1 ≤ n ∧ numberedId stem n ∉ providedIds items ∧
        numberedId stem n ∉ ids.take index} n

/-- The identifiers that the items of a list have or get, from a number on. -/
def idsFrom (stem : String) (number : Nat) (taken : List String) : List Json → List String
  | [] => []
  | item :: rest =>
    (identify stem number taken (item.members?.getD [])).1 ::
      idsFrom stem (number + 1) (identify stem number taken (item.members?.getD [])).2 rest

/-- An item without members carries no identifier. -/
theorem filledText?_getD_members? (item : Json) :
    Json.filledText? "id" (item.members?.getD []) = itemId? item := by
  cases item <;> rfl

/-- Every item has or gets an identifier. -/
theorem length_idsFrom (stem : String) (number : Nat) (taken : List String) (items : List Json) :
    (idsFrom stem number taken items).length = items.length := by
  induction items generalizing number taken with
  | nil => rfl
  | cons item rest ih => simp [idsFrom, ih]

/-- Among identifiers of which all that the items carry are taken, an item keeps its own, and one
without gets the first that is neither taken nor given before. -/
theorem idsFrom_spec (stem : String) {number : Nat} {taken : List String} {items : List Json}
    (htaken : ∀ id ∈ providedIds items, id ∈ taken) (index : Nat) :
    (∀ id, items[index]?.bind itemId? = some id →
      (idsFrom stem number taken items)[index]? = some id) ∧
    ∀ item, items[index]? = some item → itemId? item = none →
      ∃ n, (idsFrom stem number taken items)[index]? = some (numberedId stem n) ∧
        IsLeast {n | number + index ≤ n ∧ numberedId stem n ∉ taken ∧
          numberedId stem n ∉ (idsFrom stem number taken items).take index} n := by
  induction items generalizing number taken index with
  | nil => simp
  | cons first rest ih =>
    rw [idsFrom, identify, filledText?_getD_members?]
    cases hid : itemId? first with
    | some own =>
      simp only [providedIds, List.filterMap_cons, hid, List.forall_mem_cons] at htaken
      cases index with
      | zero => simp [hid]
      | succ index =>
        obtain ⟨hcarried, hgiven⟩ := @ih (number + 1) taken htaken.2 index
        refine ⟨hcarried, fun item hitem hnone => ?_⟩
        obtain ⟨n, hn, hleast⟩ := hgiven item hitem hnone
        refine ⟨n, hn, ?_⟩
        convert hleast using 3 with m
        -- An identifier that an item carries is taken from the start, so giving it changes nothing.
        have hown : numberedId stem m ∉ taken → numberedId stem m ≠ own :=
          fun hfree he => hfree (he ▸ htaken.1)
        simp only [List.take_succ_cons, List.mem_cons, not_or]
        constructor
        · rintro ⟨hm, hfree, -, hearlier⟩
          exact ⟨by omega, hfree, hearlier⟩
        · rintro ⟨hm, hfree, hearlier⟩
          exact ⟨by omega, hfree, hown hfree, hearlier⟩
    | none =>
      simp only [providedIds, List.filterMap_cons, hid] at htaken
      cases index with
      | zero =>
        refine ⟨by simp [hid], fun item _ _ => ?_⟩
        obtain ⟨n, hn, hleast⟩ := freeId_isLeast stem number taken
        exact ⟨n, by simp [hn], by simpa using hleast⟩
      | succ index =>
        obtain ⟨hcarried, hgiven⟩ :=
          @ih (number + 1) _ (fun id hmem => List.mem_cons_of_mem _ (htaken id hmem)) index
        refine ⟨hcarried, fun item hitem hnone => ?_⟩
        obtain ⟨n, hn, hleast⟩ := hgiven item hitem hnone
        refine ⟨n, hn, ?_⟩
        convert hleast using 3 with m
        simp only [List.take_succ_cons, List.mem_cons, not_or]
        constructor
        · rintro ⟨hm, hfree, hgivenFirst, hearlier⟩
          exact ⟨by omega, ⟨hgivenFirst, hfree⟩, hearlier⟩
        · rintro ⟨hm, ⟨hgivenFirst, hfree⟩, hearlier⟩
          exact ⟨by omega, hfree, hgivenFirst, hearlier⟩

/-- The identifiers of a walk are those that the items have or get. -/
theorem identified_idsFrom (stem : String) (items : List Json) :
    Identified stem items (idsFrom stem 1 (providedIds items) items) where
  length_eq := length_idsFrom stem 1 (providedIds items) items
  carried := fun index => (idsFrom_spec stem (fun _ hid => hid) index).1
  given := fun index item hitem hnone => by
    obtain ⟨n, hn, hleast⟩ := (idsFrom_spec stem (fun _ hid => hid) index).2 item hitem hnone
    exact ⟨n, hn, by simpa only [Nat.add_comm index] using hleast⟩

/-- The identifiers of the items are settled by the items. -/
theorem Identified.unique {stem : String} {items : List Json} {ids others : List String}
    (h : Identified stem items ids) (h' : Identified stem items others) : ids = others := by
  have hlength : ids.length = others.length := h.length_eq.trans h'.length_eq.symm
  have hat (index : Nat) (htake : ids.take index = others.take index) :
      ids[index]? = others[index]? := by
    cases hitem : items[index]? with
    | none =>
      have hlast := List.getElem?_eq_none_iff.mp hitem
      rw [List.getElem?_eq_none (by rw [h.length_eq]; exact hlast),
        List.getElem?_eq_none (by rw [h'.length_eq]; exact hlast)]
    | some item =>
      cases hid : itemId? item with
      | some id =>
        have hcarries : items[index]?.bind itemId? = some id := by simp [hitem, hid]
        rw [h.carried index id hcarries, h'.carried index id hcarries]
      | none =>
        obtain ⟨n, hn, hleast⟩ := h.given index item hitem hid
        obtain ⟨m, hm, hleast'⟩ := h'.given index item hitem hid
        rw [htake] at hleast
        rw [hn, hm, hleast.unique hleast']
  have htake (index : Nat) : ids.take index = others.take index := by
    induction index with
    | zero => rfl
    | succ index ih => rw [List.take_add_one, List.take_add_one, ih, hat index ih]
  exact List.ext_getElem? fun index => hat index (htake index)

end Repair

end Siteworks
