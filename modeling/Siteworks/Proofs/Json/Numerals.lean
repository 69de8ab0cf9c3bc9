import Mathlib
import Siteworks.Json.Printer
import Siteworks.Proofs.Json.Shortest
import Siteworks.Proofs.Texts

/-!
# Number texts

The text of a number is a numeral: a sign, digits, digits behind a point and an exponent, of which
a text shows each. An integer's numeral has neither a point nor an exponent; a double's has one of
them, and stands for a decimal that rounds to the double. So no two numbers have one text.
-/

namespace Siteworks

open Text (append_inj_of_forall)

/-- A number as it is written. -/
structure Numeral where
  /-- There is a minus sign. -/
  negative : Bool
  /-- The digits before the point. -/
  whole : List Char
  /-- The digits behind the point; without digits there is no point. -/
  fraction : List Char
  /-- The exponent, if there is one. -/
  exponent : Option Int
  /-- There is a digit before the point. -/
  whole_ne_nil : whole ≠ []
  /-- Digits stand before the point. -/
  whole_digits : ∀ c ∈ whole, c.isDigit = true
  /-- Digits stand behind the point. -/
  fraction_digits : ∀ c ∈ fraction, c.isDigit = true

namespace Numeral

/-- The text of an exponent. -/
def mark : Option Int → List Char
  | none => []
  | some e => 'e' :: (if e < 0 then '-' else '+') :: Nat.toDigits 10 e.natAbs

/-- The text behind the whole digits. -/
def tail (n : Numeral) : List Char :=
  (if n.fraction.isEmpty then [] else '.' :: n.fraction) ++ mark n.exponent

/-- The text of a numeral. -/
def text (n : Numeral) : List Char := (if n.negative then ['-'] else []) ++ (n.whole ++ n.tail)

/-- The decimal that a numeral stands for, apart from its sign. -/
def value (n : Numeral) : ℚ :=
  Nat.ofDigitChars 10 (n.whole ++ n.fraction) 0 * 10 ^ (n.exponent.getD 0 - n.fraction.length)

/-- Digits tell their number. -/
theorem toDigits_injective {a b : Nat} (h : Nat.toDigits 10 a = Nat.toDigits 10 b) : a = b := by
  rw [← Nat.ofDigitChars_ten_toDigits (n := a), h, Nat.ofDigitChars_ten_toDigits]

/-- An exponent is read off its text. -/
theorem mark_injective : Function.Injective mark := by
  intro e f h
  cases e with
  | none =>
    cases f with
    | none => rfl
    | some f => cases h
  | some e =>
    cases f with
    | none => cases h
    | some f =>
      obtain ⟨hsign, hdigits⟩ := List.cons.inj (List.cons.inj h).2
      have habs := toDigits_injective hdigits
      have hside : e < 0 ↔ f < 0 := by
        split at hsign <;> split at hsign
        · omega
        · exact absurd hsign (by decide)
        · exact absurd hsign (by decide)
        · omega
      exact congrArg some (by omega)

/-- An exponent's text begins with its letter. -/
theorem eq_of_mem_head?_mark {e : Option Int} : ∀ c ∈ (mark e).head?, c = 'e' := by
  intro c hc
  cases e with
  | none => cases hc
  | some e => exact (Option.some_inj.mp hc).symm

/-- Behind the whole digits there is no digit. -/
theorem not_isDigit_of_mem_head?_tail {n : Numeral} :
    ∀ c ∈ n.tail.head?, ¬ c.isDigit = true := by
  intro c hc
  unfold tail at hc
  split at hc
  · rw [eq_of_mem_head?_mark c hc]
    decide
  · obtain rfl : '.' = c := Option.some_inj.mp hc
    decide

/-- What stands behind the whole digits tells the fraction and the exponent. -/
theorem tail_inj {n m : Numeral} (h : n.tail = m.tail) :
    n.fraction = m.fraction ∧ n.exponent = m.exponent := by
  have hpoint : ∀ (e : Option Int) (rest : List Char), mark e ≠ '.' :: rest := by
    intro e rest he
    exact absurd (eq_of_mem_head?_mark '.' (by rw [he]; rfl)) (by decide)
  have hmark : ∀ e : Option Int, ∀ c ∈ (mark e).head?, ¬ c.isDigit = true := by
    intro e c hc
    rw [eq_of_mem_head?_mark c hc]
    decide
  unfold tail at h
  split at h <;> split at h
  next hn hm =>
    rw [List.isEmpty_iff] at hn hm
    exact ⟨hn.trans hm.symm, mark_injective h⟩
  · exact absurd h (hpoint _ _)
  · exact absurd h.symm (hpoint _ _)
  next =>
    obtain ⟨hfraction, hmarks⟩ := append_inj_of_forall n.fraction_digits m.fraction_digits
      (hmark n.exponent) (hmark m.exponent) (List.cons.inj h).2
    exact ⟨hfraction, mark_injective hmarks⟩

/-- A numeral begins with a digit behind its sign. -/
theorem exists_whole_eq_cons (n : Numeral) : ∃ c rest, n.whole = c :: rest ∧ c.isDigit = true := by
  obtain ⟨c, rest, hwhole⟩ := List.exists_cons_of_ne_nil n.whole_ne_nil
  exact ⟨c, rest, hwhole, n.whole_digits c (by simp [hwhole])⟩

/-- A numeral is read off its text. -/
theorem text_inj {n m : Numeral} (h : n.text = m.text) : n.negative = m.negative ∧
    n.whole = m.whole ∧ n.fraction = m.fraction ∧ n.exponent = m.exponent := by
  obtain ⟨c, cs, hn, hc⟩ := n.exists_whole_eq_cons
  obtain ⟨d, ds, hm, hd⟩ := m.exists_whole_eq_cons
  have hminus : ∀ a : Char, a.isDigit = true → a ≠ '-' := by
    rintro a ha rfl
    exact absurd ha (by decide)
  obtain ⟨hnegative, hrest⟩ : n.negative = m.negative ∧ n.whole ++ n.tail = m.whole ++ m.tail := by
    unfold text at h
    split at h <;> split at h
    next hneg hneg' => exact ⟨hneg.trans hneg'.symm, List.append_cancel_left h⟩
    · rw [hm] at h
      exact absurd (List.cons.inj h).1.symm (hminus d hd)
    · rw [hn] at h
      exact absurd (List.cons.inj h).1 (hminus c hc)
    next hneg hneg' =>
      rw [Bool.not_eq_true] at hneg hneg'
      exact ⟨hneg.trans hneg'.symm, List.append_cancel_left h⟩
  obtain ⟨hwhole, htail⟩ := append_inj_of_forall n.whole_digits m.whole_digits
    not_isDigit_of_mem_head?_tail not_isDigit_of_mem_head?_tail hrest
  exact ⟨hnegative, hwhole, tail_inj htail⟩

/-- The characters of numerals. -/
def isMark (c : Char) : Bool := c.isDigit || c = '-' || c = '+' || c = '.' || c = 'e'

/-- A digit is one of them. -/
theorem isMark_of_isDigit {c : Char} (h : c.isDigit = true) : isMark c = true := by
  simp [isMark, h]

/-- A numeral has only its characters. -/
theorem isMark_of_mem_text {n : Numeral} : ∀ c ∈ n.text, isMark c = true := by
  have hmark : ∀ c ∈ mark n.exponent, isMark c = true := by
    cases n.exponent with
    | none => simp [mark]
    | some e =>
      refine List.forall_mem_cons.mpr ⟨by decide, List.forall_mem_cons.mpr ⟨?_, fun c hc => ?_⟩⟩
      · split <;> decide
      · exact isMark_of_isDigit (Nat.isDigit_of_mem_toDigits (by decide) (by decide) hc)
  have htail : ∀ c ∈ n.tail, isMark c = true := by
    intro c hc
    rcases List.mem_append.mp hc with hc | hc
    · split at hc
      · cases hc
      · rcases List.mem_cons.mp hc with rfl | hc
        · decide
        · exact isMark_of_isDigit (n.fraction_digits c hc)
    · exact hmark c hc
  intro c hc
  rcases List.mem_append.mp hc with hc | hc
  · split at hc
    · rw [List.mem_singleton.mp hc]
      decide
    · cases hc
  · rcases List.mem_append.mp hc with hc | hc
    · exact isMark_of_isDigit (n.whole_digits c hc)
    · exact htail c hc

/-- A numeral begins with a digit or a minus sign. -/
theorem exists_text_eq_cons (n : Numeral) :
    ∃ c rest, n.text = c :: rest ∧ (c.isDigit = true ∨ c = '-') := by
  obtain ⟨c, rest, hwhole, hc⟩ := n.exists_whole_eq_cons
  unfold text
  split
  · exact ⟨'-', _, rfl, Or.inr rfl⟩
  · exact ⟨c, _, by rw [hwhole]; rfl, Or.inl hc⟩

end Numeral

namespace Binary64

variable {x : Binary64}

/-- Powers of ten, the exponents taken together. -/
theorem mul_pow_ten {d : Nat} {k : Nat} {e f : Int} (h : k + e = f) :
    ((10 ^ k * d : ℕ) : ℚ) * 10 ^ e = d * 10 ^ f := by
  rw [← h, zpow_add₀ (by norm_num), zpow_natCast]
  push_cast
  ring

/-- The text of a positive magnitude is a numeral for its shortest digits. -/
theorem exists_numeral_of_shortest (h : x.mantissa ≠ 0) {d : Nat} {place : Int}
    (hshortest : x.shortest = (Nat.toDigits 10 d, place)) :
    ∃ n : Numeral, x.text = n.text ∧ n.negative = x.negative ∧
      (n.fraction ≠ [] ∨ n.exponent ≠ none) ∧
        n.value = d * 10 ^ (place - (Nat.toDigits 10 d).length) := by
  have hdigits : ∀ c ∈ Nat.toDigits 10 d, c.isDigit = true := fun c hc =>
    Nat.isDigit_of_mem_toDigits (by decide) (by decide) hc
  have hzeros : ∀ k, ∀ c ∈ List.replicate k '0', c.isDigit = true := by
    intro k c hc
    rw [List.eq_of_mem_replicate hc]
    decide
  have hpos : 0 < (Nat.toDigits 10 d).length := List.length_pos_of_ne_nil Nat.toDigits_ne_nil
  have hvalue : Nat.ofDigitChars 10 (Nat.toDigits 10 d) 0 = d := Nat.ofDigitChars_ten_toDigits
  unfold text
  simp only [if_neg h, hshortest]
  generalize Nat.toDigits 10 d = digits at hdigits hpos hvalue ⊢
  split
  next =>
    refine ⟨⟨x.negative, digits.take 1, digits.drop 1, some (place - 1), ?_,
      fun c hc => hdigits c (List.mem_of_mem_take hc),
      fun c hc => hdigits c (List.mem_of_mem_drop hc)⟩, ?_, rfl, Or.inr (by simp), ?_⟩
    · intro hnil
      simp [List.take_eq_nil_iff, List.length_pos_iff.mp hpos] at hnil
    · by_cases hsign : place - 1 < 0 <;> simp [Numeral.text, Numeral.tail, Numeral.mark, hsign]
    · rw [Numeral.value, List.take_append_drop, hvalue, List.length_drop, Option.getD_some]
      congr 2
      omega
  next =>
    split
    next hsmall =>
      refine ⟨⟨x.negative, ['0'], List.replicate place.natAbs '0' ++ digits, none,
        by simp, by simp, ?_⟩, ?_, rfl, Or.inl ?_, ?_⟩
      · exact fun c hc => (List.mem_append.mp hc).elim (hzeros _ c) (hdigits c)
      · simp [Numeral.text, Numeral.tail, Numeral.mark, List.length_pos_iff.mp hpos]
      · simp [List.length_pos_iff.mp hpos]
      · have hall : Nat.ofDigitChars 10 (['0'] ++ (List.replicate place.natAbs '0' ++ digits)) 0 = d := by
          simp [Nat.ofDigitChars_append, Nat.ofDigitChars_cons, hvalue]
        rw [Numeral.value, hall, List.length_append, List.length_replicate, Option.getD_none]
        congr 2
        omega
    next hlarge =>
      split
      next hwhole =>
        refine ⟨⟨x.negative, digits ++ List.replicate (place - digits.length).natAbs '0', ['0'],
          none, ?_, ?_, by simp⟩, ?_, rfl, Or.inl (by simp), ?_⟩
        · simp [List.length_pos_iff.mp hpos]
        · exact fun c hc => (List.mem_append.mp hc).elim (hdigits c) (hzeros _ c)
        · simp [Numeral.text, Numeral.tail, Numeral.mark]
        · have hall : Nat.ofDigitChars 10 (digits ++
              List.replicate (place - digits.length).natAbs '0' ++ ['0']) 0 =
                10 ^ ((place - digits.length).natAbs + 1) * d := by
            rw [Nat.ofDigitChars_append, Nat.ofDigitChars_append, hvalue,
              Nat.ofDigitChars_replicate_zero]
            simp [Nat.ofDigitChars_cons, pow_succ']
            ring
          rw [Numeral.value, hall, Option.getD_none]
          refine mul_pow_ten ?_
          simp
          omega
      next hinside =>
        have hrest : digits.drop place.natAbs ≠ [] := by
          rw [Ne, List.drop_eq_nil_iff]
          omega
        refine ⟨⟨x.negative, digits.take place.natAbs, digits.drop place.natAbs, none, ?_,
          fun c hc => hdigits c (List.mem_of_mem_take hc),
          fun c hc => hdigits c (List.mem_of_mem_drop hc)⟩, ?_, rfl, Or.inl hrest, ?_⟩
        · intro hnil
          rw [List.take_eq_nil_iff] at hnil
          simp [List.length_pos_iff.mp hpos] at hnil
          omega
        · simp [Numeral.text, Numeral.tail, Numeral.mark, hrest]
        · rw [Numeral.value, List.take_append_drop, hvalue, List.length_drop, Option.getD_none]
          congr 2
          omega

/-- The text of a double is a numeral, with a point or an exponent, that stands for a decimal which
rounds to the double. -/
theorem exists_numeral (x : Binary64) : ∃ n : Numeral, x.text = n.text ∧
    n.negative = x.negative ∧ (n.fraction ≠ [] ∨ n.exponent ≠ none) ∧
      if x.mantissa = 0 then n.value = 0 else 0 < n.value ∧ x.Rounds n.value := by
  split
  next hzero =>
    refine ⟨⟨x.negative, ['0'], ['0'], none, by simp, by simp, by simp⟩, ?_, rfl, by simp, ?_⟩
    · simp [text, hzero, Numeral.text, Numeral.tail, Numeral.mark]
    · simp [Numeral.value, Nat.ofDigitChars_cons]
  next hne =>
    obtain ⟨d, place, hshortest, hd, hrounds⟩ := shortest_spec (Nat.pos_of_ne_zero hne)
    obtain ⟨n, htext, hnegative, hreal, hvalue⟩ := exists_numeral_of_shortest hne hshortest
    have hdpos : (0 : ℚ) < d := by exact_mod_cast hd
    refine ⟨n, htext, hnegative, hreal, ?_, ?_⟩
    · rw [hvalue]
      positivity
    · rwa [hvalue]

/-- No two doubles have one text. -/
theorem text_injective : Function.Injective text := by
  intro x y h
  obtain ⟨n, hn, hnegative, -, hnvalue⟩ := x.exists_numeral
  obtain ⟨m, hm, hmegative, -, hmvalue⟩ := y.exists_numeral
  obtain ⟨hsign, hwhole, hfraction, hexponent⟩ :=
    Numeral.text_inj (hn.symm.trans (h.trans hm))
  have hvalue : n.value = m.value := by
    rw [Numeral.value, Numeral.value, hwhole, hfraction, hexponent]
  have hnegatives : x.negative = y.negative := hnegative.symm.trans (hsign.trans hmegative)
  rw [hvalue] at hnvalue
  split at hnvalue <;> split at hmvalue
  next hx hy =>
    have hexponents : ∀ z : Binary64, z.mantissa = 0 → z.exponent = minExponent := by
      intro z hz
      by_contra hne
      have hfull := leadingBit_le_mantissa (lt_of_le_of_ne z.minExponent_le (Ne.symm hne))
      omega
    exact eq_of_parts hnegatives (hx.trans hy.symm) ((hexponents x hx).trans (hexponents y hy).symm)
  next => exact absurd hnvalue hmvalue.1.ne'
  next => exact absurd hmvalue hnvalue.1.ne'
  next =>
    obtain ⟨hmantissa, hexponents⟩ := hnvalue.2.unique hmvalue.2
    exact eq_of_parts hnegatives hmantissa hexponents

end Binary64

namespace Number

/-- The numeral of an integer. -/
def integerNumeral (k : Int) : Numeral where
  negative := decide (k < 0)
  whole := Nat.toDigits 10 k.natAbs
  fraction := []
  exponent := none
  whole_ne_nil := Nat.toDigits_ne_nil
  whole_digits _ h := Nat.isDigit_of_mem_toDigits (by decide) (by decide) h
  fraction_digits := by simp

/-- The text of an integer is its numeral. -/
theorem toList_text_integer (k : Int) : (integer k).text.toList = (integerNumeral k).text := by
  by_cases h : k < 0 <;> simp [text, integerNumeral, Numeral.text, Numeral.tail, Numeral.mark, h]

/-- The text of a number is a numeral. -/
theorem exists_numeral (n : Number) : ∃ numeral : Numeral, n.text.toList = numeral.text := by
  cases n with
  | integer k => exact ⟨_, toList_text_integer k⟩
  | real x =>
    obtain ⟨numeral, htext, -⟩ := x.exists_numeral
    exact ⟨numeral, by rw [text, String.toList_ofList, htext]⟩

/-- No integer has the text of a double. -/
theorem text_integer_ne (k : Int) (x : Binary64) : (integer k).text ≠ (real x).text := by
  intro h
  obtain ⟨numeral, htext, -, hreal, -⟩ := x.exists_numeral
  have hnumerals : (integerNumeral k).text = numeral.text := by
    rw [← toList_text_integer, h, text, String.toList_ofList, htext]
  obtain ⟨-, -, hfraction, hexponent⟩ := Numeral.text_inj hnumerals
  exact hreal.elim (fun hne => hne hfraction.symm) fun hne => hne hexponent.symm

/-- No two numbers have one text. -/
theorem text_injective : Function.Injective text := by
  intro n m h
  cases n with
  | integer k =>
    cases m with
    | integer l =>
      have hnumerals : (integerNumeral k).text = (integerNumeral l).text := by
        rw [← toList_text_integer, ← toList_text_integer, h]
      obtain ⟨hnegative, hwhole, -⟩ := Numeral.text_inj hnumerals
      have hsign : k < 0 ↔ l < 0 := decide_eq_decide.mp hnegative
      have habs := Numeral.toDigits_injective hwhole
      exact congrArg integer (by omega)
    | real y => exact absurd h (text_integer_ne k y)
  | real x =>
    cases m with
    | integer l => exact absurd h.symm (text_integer_ne l x)
    | real y =>
      have htext : x.text = y.text := String.ofList_injective h
      exact congrArg real (Binary64.text_injective htext)

end Number

end Siteworks
