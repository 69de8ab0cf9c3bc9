import Mathlib
import Siteworks.Proofs.Repair.Identifiers

/-!
# The search for a free identifier

The search tries one number after the other and has no bound of its own. It ends because different
numbers make different identifiers, and a finite set of them is taken: one attempt more than there are
identifiers taken is enough. What it finds is the first free identifier, which alone is taken in
addition.

The machine counts with a word, so it gets no further than the greatest number that the word holds:
behind it the program stops with a fault or begins anew at zero, as it was built. The natural number
of the search stands for the word as long as the first free number is not above that limit, and it is
not if there is room for the start and one more for each identifier taken.
-/

namespace Siteworks.Repair

/-- The search from a number on, counted up to a limit, ends after a number of attempts, with an
identifier and with what is taken then. A count that would run over comes to no end. -/
inductive Ends (limit : Nat) (stem : String) (taken : List String) :
    Nat → Nat → String × List String → Prop where
  /-- The identifier for the number is free, and is taken now. -/
  | found {number : Nat} (holds : number ≤ limit) (free : numberedId stem number ∉ taken) :
    Ends limit stem taken number 1 (numberedId stem number, numberedId stem number :: taken)
  /-- The identifier for the number is taken, and the next number is tried. -/
  | passed {number attempts : Nat} {result : String × List String} (holds : number + 1 ≤ limit)
      (given : numberedId stem number ∈ taken)
      (rest : Ends limit stem taken (number + 1) attempts result) :
    Ends limit stem taken number (attempts + 1) result

variable {limit : Nat} {stem : String} {taken : List String}

/-- A search ends at the first number whose identifier is free, having passed over those before. -/
theorem Ends.exists_found {number attempts : Nat} {result : String × List String}
    (h : Ends limit stem taken number attempts result) :
    ∃ n ≤ limit, n + 1 = number + attempts ∧
      result = (numberedId stem n, numberedId stem n :: taken) ∧
        IsLeast {n | number ≤ n ∧ numberedId stem n ∉ taken} n := by
  induction h with
  | @found number holds free => exact ⟨number, holds, rfl, rfl, ⟨le_rfl, free⟩, fun m hm => hm.1⟩
  | @passed number attempts result holds given rest ih =>
    obtain ⟨n, hn, hcount, hresult, ⟨hle, hfree⟩, hleast⟩ := ih
    refine ⟨n, hn, by omega, hresult, ⟨by omega, hfree⟩, fun m hm => hleast ⟨?_, hm.2⟩⟩
    exact lt_of_le_of_ne hm.1 fun heq => hm.2 (heq ▸ given)

/-- A search that passes over some numbers to a free one makes an attempt for each of them. -/
theorem ends_of_passed {number count : Nat} (hroom : number + count ≤ limit)
    (hfree : numberedId stem (number + count) ∉ taken)
    (hpassed : ∀ m, number ≤ m → m < number + count → numberedId stem m ∈ taken) :
    Ends limit stem taken number (count + 1)
      (numberedId stem (number + count), numberedId stem (number + count) :: taken) := by
  induction count generalizing number with
  | zero => exact .found hroom hfree
  | succ count ih =>
    have hnext : number + (count + 1) = number + 1 + count := by omega
    rw [hnext] at hroom hfree ⊢
    exact .passed (by omega) (hpassed number le_rfl (by omega))
      (ih hroom hfree fun m hm hlt => hpassed m (by omega) (by omega))

/-- No more numbers in a row are passed over than there are identifiers taken. -/
theorem count_passed_le {number count : Nat}
    (hpassed : ∀ m, number ≤ m → m < number + count → numberedId stem m ∈ taken) :
    count ≤ taken.toFinset.card := by
  have hsubset : (Finset.Ico number (number + count)).image (numberedId stem) ⊆ taken.toFinset := by
    intro id hid
    obtain ⟨m, hm, rfl⟩ := Finset.mem_image.mp hid
    rw [Finset.mem_Ico] at hm
    exact List.mem_toFinset.mpr (hpassed m hm.1 hm.2)
  calc count = (Finset.Ico number (number + count)).card := by simp
    _ = ((Finset.Ico number (number + count)).image (numberedId stem)).card :=
      (Finset.card_image_of_injective _ (numberedId_injective stem)).symm
    _ ≤ taken.toFinset.card := Finset.card_le_card hsubset

/-- The search from a number on has one end, after at most one attempt more than there are identifiers
taken, each of them at the next number. It finds the identifier with the least number from there on
that is free, and takes this one in addition to the others. A counter with a limit comes to this end
exactly if the number found is not above the limit, so always where the limit leaves room for the
start and one more for each identifier taken; otherwise the counter runs over. -/
theorem nextFreeId_ends (stem : String) (start limit : Nat) (taken : List String) :
    ∃ n attempts,
      (∀ count result, Ends limit stem taken start count result ↔
        n ≤ limit ∧ count = attempts ∧ result = nextFreeId stem start taken) ∧
      (start + taken.toFinset.card ≤ limit → n ≤ limit) ∧
      attempts ≤ taken.toFinset.card + 1 ∧ n + 1 = start + attempts ∧
      (nextFreeId stem start taken).1 = stem ++ "_" ++ toString n ∧
      IsLeast {n | start ≤ n ∧ stem ++ "_" ++ toString n ∉ taken} n ∧
      (nextFreeId stem start taken).2.toFinset =
        insert (stem ++ "_" ++ toString n) taken.toFinset := by
  obtain ⟨n, hfound, hn, hfree, hpassed⟩ := nextFreeId_spec stem start taken
  obtain ⟨count, rfl⟩ := Nat.exists_eq_add_of_le hn
  have hleast : IsLeast {n | start ≤ n ∧ numberedId stem n ∉ taken} (start + count) := by
    refine ⟨⟨hn, hfree⟩, fun m hm => ?_⟩
    by_contra hlt
    exact hm.2 (hpassed m hm.1 (by omega))
  have hcount := count_passed_le hpassed
  refine ⟨start + count, count + 1, fun others result => ⟨fun h => ?_, ?_⟩, fun hroom => by omega,
    Nat.succ_le_succ hcount, Nat.add_assoc start count 1, by rw [hfound]; rfl, hleast, ?_⟩
  · obtain ⟨m, hm, hothers, rfl, hleast'⟩ := h.exists_found
    obtain rfl := hleast'.unique hleast
    exact ⟨hm, by omega, hfound.symm⟩
  · rintro ⟨hlimit, rfl, rfl⟩
    rw [hfound]
    exact ends_of_passed hlimit hfree hpassed
  · rw [hfound]
    exact List.toFinset_cons

/-- Of the two greatest numbers of a word with 64 bits, a search from the first one comes to the second
if the first is taken; if the second is taken, a search from there comes to no end. -/
theorem nextFreeId_ends_word :
    (∃ count, Ends (2 ^ 64 - 1) "page" ["page_18446744073709551614"] 18446744073709551614 count
      ("page_18446744073709551615", ["page_18446744073709551615", "page_18446744073709551614"])) ∧
    ¬ ∃ count result,
      Ends (2 ^ 64 - 1) "page" ["page_18446744073709551615"] 18446744073709551615 count result := by
  constructor
  · obtain ⟨n, attempts, hends, hroom, -⟩ := nextFreeId_ends "page" 18446744073709551614 (2 ^ 64 - 1)
      ["page_18446744073709551614"]
    exact ⟨attempts, (hends _ _).mpr ⟨hroom (by decide +kernel), rfl, by decide +kernel⟩⟩
  · obtain ⟨n, attempts, hends, -, -, -, -, hleast, -⟩ := nextFreeId_ends "page" 18446744073709551615
      (2 ^ 64 - 1) ["page_18446744073709551615"]
    rintro ⟨count, result, h⟩
    obtain ⟨hlimit, -⟩ := (hends count result).mp h
    obtain rfl : n = 18446744073709551615 := le_antisymm hlimit hleast.1.1
    exact hleast.1.2 (by decide +kernel)

/-- What is taken need not be in a row, and what lies before the start does not count. -/
example : nextFreeId "page" 2 ["page_3", "page_1", "page_2", "home"] =
    ("page_4", ["page_4", "page_3", "page_1", "page_2", "home"]) := by decide +kernel

end Siteworks.Repair
