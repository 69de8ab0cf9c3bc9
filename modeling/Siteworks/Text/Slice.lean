/-!
# Parts of a text by byte positions

Positions in a text count the bytes of its UTF-8 form. What stands between two positions is a part of
the text, unless the positions are out of order, behind the end, or inside of a character
(`slice?_eq_some_iff`).
-/

namespace Siteworks.Text

/-- The number of bytes of a text. -/
def byteLength : List Char → Nat
  | [] => 0
  | c :: rest => c.utf8Size + byteLength rest

/-- The characters that make up the first bytes of a text, and those behind them. -/
def splitBytes? : Nat → List Char → Option (List Char × List Char)
  | 0, text => some ([], text)
  | _ + 1, [] => none
  | count + 1, c :: rest =>
    if c.utf8Size ≤ count + 1 then
      (splitBytes? (count + 1 - c.utf8Size) rest).map fun (front, back) => (c :: front, back)
    else none

/-- The part of a text between two byte positions. -/
def slice? (start stop : Nat) (text : List Char) : Option (List Char) :=
  (splitBytes? stop text).bind fun (front, _) => (splitBytes? start front).map Prod.snd

/-- Only an empty text has no bytes. -/
theorem byteLength_eq_zero_iff {text : List Char} : byteLength text = 0 ↔ text = [] := by
  cases text with
  | nil => simp [byteLength]
  | cons c rest =>
    have := c.utf8Size_pos
    simp only [byteLength, reduceCtorEq, iff_false]
    omega

/-- A text is split at a position between two of its characters, and at no other. -/
theorem splitBytes?_eq_some_iff {count : Nat} {text front back : List Char} :
    splitBytes? count text = some (front, back) ↔
      text = front ++ back ∧ byteLength front = count := by
  fun_induction splitBytes? count text generalizing front back with
  | case1 text =>
    rw [byteLength_eq_zero_iff]
    constructor
    · rintro h
      cases h
      exact ⟨rfl, rfl⟩
    · rintro ⟨rfl, rfl⟩
      rfl
  | case2 count =>
    refine ⟨nofun, fun ⟨h, hcount⟩ => ?_⟩
    obtain ⟨rfl, -⟩ := List.append_eq_nil_iff.mp h.symm
    cases hcount
  | case3 count c rest hfits ih =>
    cases front with
    | nil => simp [byteLength]
    | cons d front =>
      simp only [Option.map_eq_some_iff, Prod.exists, ih, Prod.mk.injEq, List.cons.injEq,
        List.cons_append, byteLength]
      constructor
      · rintro ⟨_, _, ⟨rfl, hcount⟩, ⟨rfl, rfl⟩, rfl⟩
        exact ⟨⟨rfl, rfl⟩, by omega⟩
      · rintro ⟨⟨rfl, rfl⟩, hcount⟩
        exact ⟨front, back, ⟨rfl, by omega⟩, ⟨rfl, rfl⟩, rfl⟩
  | case4 count c rest hlong =>
    refine ⟨nofun, fun ⟨h, hcount⟩ => ?_⟩
    cases front with
    | nil => cases hcount
    | cons d front =>
      obtain ⟨rfl, -⟩ := List.cons.inj h
      simp only [byteLength] at hcount
      omega

/-- A part of a text stands between two positions if these are where it starts and ends. -/
theorem slice?_eq_some_iff {start stop : Nat} {text part : List Char} :
    slice? start stop text = some part ↔ ∃ front back, text = front ++ part ++ back ∧
      byteLength front = start ∧ byteLength (front ++ part) = stop := by
  simp only [slice?, Option.bind_eq_some_iff, Option.map_eq_some_iff, Prod.exists,
    splitBytes?_eq_some_iff]
  constructor
  · rintro ⟨_, back, ⟨rfl, hstop⟩, front, _, ⟨rfl, hstart⟩, rfl⟩
    exact ⟨front, back, rfl, hstart, hstop⟩
  · rintro ⟨front, back, rfl, hstart, hstop⟩
    exact ⟨front ++ part, back, ⟨rfl, hstop⟩, front, part, ⟨rfl, hstart⟩, rfl⟩

end Siteworks.Text
