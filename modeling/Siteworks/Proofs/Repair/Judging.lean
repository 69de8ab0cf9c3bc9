import Mathlib
import Siteworks.Proofs.Repair.Identifiers

/-!
# Checks and their order

Repair is made of stages, and every stage makes checks, each at a place in the order of all checks.
A stage judges by its checks if it ends with the fault of the first one that fails, and answers if
none does. Stages one after the other do so, and so does a walk through a list.
-/

namespace Siteworks

open Violation (itemId?)

namespace Repair

/-! ## Stages and their checks -/

/-- A stage of the repair makes some checks: it answers if none of them fails, and otherwise ends
with the fault of the first one that does. -/
def Judges {α : Type} (result : Outcome α) (failing : List Nat → SpecFault → Prop) : Prop :=
  match result with
  | .ok _ => ∀ place fault, ¬ failing place fault
  | .error e => ∃ place fault, e = .unrecoverableSpec fault ∧ failing place fault ∧
    ∀ other fault', failing other fault' → place ≤ other

namespace Judges

variable {α β : Type} {result : Outcome α} {failing late : List Nat → SpecFault → Prop}

/-- A stage that answers has no check to fail. -/
theorem ok {value : α} (h : ∀ place fault, ¬ failing place fault) :
    Judges (.ok value) failing := h

/-- A stage that ends with a fault names the first one. -/
theorem fail {place : List Nat} {fault : SpecFault} (h : failing place fault)
    (hfirst : ∀ other fault', failing other fault' → place ≤ other) :
    Judges (fail fault : Outcome α) failing := ⟨place, fault, rfl, h, hfirst⟩

/-- The checks of a stage may be put in other words. -/
theorem congr (h : Judges result failing)
    (hiff : ∀ place fault, failing place fault ↔ late place fault) : Judges result late := by
  have : failing = late := by
    funext place fault
    exact propext (hiff place fault)
  exact this ▸ h

/-- Two stages one after the other, the checks of the second all later than those of the first. -/
theorem bind {next : α → Outcome β} (h : Judges result failing)
    (hnext : ∀ value, result = .ok value → Judges (next value) late)
    (horder : ∀ place fault other fault', failing place fault → late other fault' →
      place ≤ other) :
    Judges (result.bind next) fun place fault => failing place fault ∨ late place fault := by
  cases result with
  | error e =>
    obtain ⟨place, fault, rfl, hplace, hfirst⟩ := h
    refine ⟨place, fault, rfl, Or.inl hplace, ?_⟩
    rintro other fault' (hother | hother)
    · exact hfirst other fault' hother
    · exact horder place fault other fault' hplace hother
  | ok value =>
    refine (hnext value rfl).congr fun place fault => ?_
    exact (or_iff_right (h place fault)).symm

/-- What is done with an answer makes no check. -/
theorem map (h : Judges result failing) (f : α → β) : Judges (result.map f) failing := by
  cases result with
  | error e => exact h
  | ok value => exact h

/-- Behind a common beginning places keep their order. -/
theorem append_le (start : List Nat) {place other : List Nat} (h : place ≤ other) :
    start ++ place ≤ start ++ other := by
  induction start with
  | nil => exact h
  | cons n start ih => exact List.cons_le_cons n ih

/-- The checks of a stage may be part of a larger stage. -/
theorem within (h : Judges result failing) (start : List Nat) :
    Judges result fun place fault => ∃ rest, place = start ++ rest ∧ failing rest fault := by
  cases result with
  | error e =>
    obtain ⟨place, fault, rfl, hplace, hfirst⟩ := h
    refine ⟨start ++ place, fault, rfl, ⟨place, rfl, hplace⟩, ?_⟩
    rintro _ fault' ⟨other, rfl, hother⟩
    exact append_le start (hfirst other fault' hother)
  | ok value =>
    rintro _ fault ⟨rest, rfl, hrest⟩
    exact h rest fault hrest

end Judges

/-- A smaller number at the beginning makes an earlier place. -/
theorem le_of_head_lt {i j : Nat} (h : i < j) (place other : List Nat) :
    i :: place ≤ j :: other :=
  le_of_lt (List.cons_lt_cons_iff.mpr (Or.inl h))

/-- A place at the beginning of a part comes no later than the places in it and behind it. -/
theorem le_of_head_le {i j : Nat} (h : i ≤ j) (other : List Nat) : [i] ≤ j :: other := by
  rcases h.lt_or_eq with hlt | rfl
  · exact le_of_head_lt hlt [] other
  · exact List.cons_le_cons i (not_lt.mp (List.not_lt_nil other))

/-! ## Repeated identifiers -/

/-- An item of a list carries an identifier that an earlier item carries too. -/
def Repeats (items : List Json) (index : Nat) (id : String) : Prop :=
  items[index]?.bind itemId? = some id ∧ ∃ earlier < index, items[earlier]?.bind itemId? = some id

/-- Refuse an identifier that comes twice. -/
def refuse (fault : String → SpecFault) : Option String → Outcome Unit
  | some id => fail (fault id)
  | none => .ok ()

/-- An item behind the first one carries an identifier that has been seen or comes before it. -/
theorem seen_or_earlier_cons {seen : List String} {item : Json} {rest : List Json} {k : Nat}
    {id : String} :
    (id ∈ seen ++ (itemId? item).toList ∨ ∃ earlier < k, rest[earlier]?.bind itemId? = some id) ↔
      id ∈ seen ∨ ∃ earlier < k + 1, (item :: rest)[earlier]?.bind itemId? = some id := by
  rw [List.mem_append, or_assoc]
  refine or_congr_right ⟨?_, ?_⟩
  · rintro (hfirst | ⟨earlier, hlt, hid⟩)
    · exact ⟨0, by omega, by simpa using hfirst⟩
    · exact ⟨earlier + 1, by omega, hid⟩
  · rintro ⟨_ | earlier, hlt, hid⟩
    · exact Or.inl (by simpa using hid)
    · exact Or.inr ⟨earlier, by omega, hid⟩

/-- The check for repeated identifiers names the first item whose identifier has been seen. -/
theorem judges_repeatedId (fault : String → SpecFault) (base : Nat) (seen : List String)
    (items : List Json) :
    Judges (refuse fault (repeatedId? seen items)) fun place f => ∃ (index : Nat) (id : String),
      place = [base + index] ∧ f = fault id ∧ items[index]?.bind itemId? = some id ∧
        (id ∈ seen ∨ ∃ earlier < index, items[earlier]?.bind itemId? = some id) := by
  induction items generalizing base seen with
  | nil => exact Judges.ok (by simp)
  | cons item rest ih =>
    by_cases hseen : ∃ id ∈ seen, itemId? item = some id
    · obtain ⟨id, hmem, hid⟩ := hseen
      simp only [repeatedId?, hid, hmem, if_true, refuse]
      refine Judges.fail ⟨0, id, rfl, rfl, hid, Or.inl hmem⟩ ?_
      rintro _ _ ⟨index, _, rfl, -⟩
      exact le_of_head_le (by omega) []
    · have hwalk : repeatedId? seen (item :: rest) =
          repeatedId? (seen ++ (itemId? item).toList) rest := by
        cases hid : itemId? item with
        | none => simp [repeatedId?, hid]
        | some id =>
          have hfresh : id ∉ seen := fun hmem => hseen ⟨id, hmem, hid⟩
          simp [repeatedId?, hid, hfresh]
      rw [hwalk]
      refine (ih (base + 1) _).congr fun place f => ?_
      simp only [seen_or_earlier_cons]
      constructor
      · rintro ⟨index, id, rfl, rfl, hid, hearlier⟩
        exact ⟨index + 1, id, by rw [Nat.add_assoc, Nat.add_comm 1], rfl, hid, hearlier⟩
      · rintro ⟨_ | index, id, rfl, rfl, hid, hearlier⟩
        · rcases hearlier with hmem | ⟨earlier, hlt, -⟩
          · exact (hseen ⟨id, hmem, by simpa using hid⟩).elim
          · omega
        · exact ⟨index, id, by rw [Nat.add_assoc, Nat.add_comm 1], rfl, hid, hearlier⟩

/-! ## Walks through a list -/

/-- A check of an item of a list fails, the items at positions from a number on. -/
def Listed {α : Type} (base : Nat) (items : List α) (checks : Nat → α → List Nat → SpecFault → Prop)
    (place : List Nat) (fault : SpecFault) : Prop :=
  ∃ k item rest, items[k]? = some item ∧ checks (base + k) item rest fault ∧
    place = (base + k) :: rest

/-- The first item of a list is checked before the others. -/
theorem Judges.cons {α β γ : Type} {first : Outcome α} {next : α → Outcome β} {base : Nat}
    {item : γ} {items : List γ} {checks : Nat → γ → List Nat → SpecFault → Prop}
    (hfirst : Judges first (checks base item))
    (hnext : ∀ value, first = .ok value → Judges (next value) (Listed (base + 1) items checks)) :
    Judges (first.bind next) (Listed base (item :: items) checks) := by
  refine ((hfirst.within [base]).bind hnext ?_).congr fun place fault => ?_
  · rintro _ _ _ _ ⟨rest, rfl, -⟩ ⟨k, _, rest', -, -, rfl⟩
    exact le_of_head_lt (by omega) rest rest'
  · have hshift (k : Nat) : base + 1 + k = base + (k + 1) := by omega
    constructor
    · rintro (⟨rest, rfl, hfails⟩ | ⟨k, other, rest, hother, hfails, rfl⟩)
      · exact ⟨0, item, rest, rfl, hfails, rfl⟩
      · exact ⟨k + 1, other, rest, hother, hshift k ▸ hfails, by rw [hshift]⟩
    · rintro ⟨_ | k, other, rest, hother, hfails, rfl⟩
      · obtain rfl : item = other := by simpa using hother
        exact Or.inl ⟨rest, rfl, hfails⟩
      · exact Or.inr ⟨k, other, rest, hother, hshift k ▸ hfails, by rw [hshift]⟩

end Repair

end Siteworks
