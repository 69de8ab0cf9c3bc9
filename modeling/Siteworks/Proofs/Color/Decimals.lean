import Mathlib
import Siteworks.Color.Decimal
import Siteworks.Proofs.Json.Numerals

/-!
# Numbers in colours

A finite double is written in a colour as a numeral with three digits behind the point, for a decimal
half a thousandth away at most, and then loses the zeros at its end. What is left stands for the same
decimal: the zeros before the point stay, since the point stands behind them, and the point goes when
no digit is left behind it. Where only a zero with a sign is left, the sign goes too.
-/

namespace Siteworks

open Text (reverse_dropWhile_reverse)

namespace Numeral

variable {n : Numeral}

/-- The decimal that a numeral stands for, with its sign. -/
def signedValue (n : Numeral) : ℚ := if n.negative then -n.value else n.value

/-- A number of digits stand behind the point, without an exponent: if there are any, the text is a sign
that may be missing, digits, the point and these digits. -/
structure HasPlaces (n : Numeral) (places : Nat) : Prop where
  /-- There is no exponent. -/
  exponent_eq : n.exponent = none
  /-- The number of digits behind the point. -/
  length_fraction : n.fraction.length = places

/-- A numeral writes the decimal of another one without the zeros at its end. -/
structure Trims (m n : Numeral) : Prop where
  /-- There is no exponent. -/
  exponent_eq : m.exponent = none
  /-- The decimal is the same. -/
  signedValue_eq : m.signedValue = n.signedValue
  /-- The digits before the point are the same. -/
  whole_eq : m.whole = n.whole
  /-- The digits behind the point do not end with a zero. -/
  getLast?_fraction_ne : m.fraction.getLast? ≠ some '0'
  /-- The text does not end with the point. -/
  getLast?_text_ne : m.text.getLast? ≠ some '.'
  /-- The text is not a zero with a sign. -/
  text_ne : m.text ≠ ['-', '0']
  /-- The sign is the same, unless a zero is left. -/
  negative_eq : m.negative = n.negative ∨ m.text = ['0']

/-! ## The zeros at the end -/

/-- The numeral without the zeros that end the digits behind its point. -/
def shortened (n : Numeral) : Numeral where
  negative := n.negative
  whole := n.whole
  fraction := n.fraction.rdropWhile (· = '0')
  exponent := n.exponent
  whole_ne_nil := n.whole_ne_nil
  whole_digits := n.whole_digits
  fraction_digits c hc := n.fraction_digits c ((List.rdropWhile_prefix _ _).subset hc)

/-- What the digits behind the point lose are zeros. -/
theorem exists_fraction_eq (n : Numeral) :
    ∃ zeros, n.fraction = n.shortened.fraction ++ List.replicate zeros '0' := by
  refine ⟨(n.fraction.rtakeWhile (· = '0')).length, ?_⟩
  have hzeros : n.fraction.rtakeWhile (· = '0') =
      List.replicate (n.fraction.rtakeWhile (· = '0')).length '0' :=
    List.eq_replicate_iff.mpr ⟨rfl, fun c hc => by simpa using List.mem_rtakeWhile_imp hc⟩
  rw [← hzeros]
  exact List.rdropWhile_append_rtakeWhile.symm

/-- No zero is left at their end. -/
theorem ne_zero_of_mem_getLast? (n : Numeral) : ∀ c ∈ n.shortened.fraction.getLast?, c ≠ '0' := by
  intro c hc
  obtain ⟨hne, rfl⟩ := List.mem_getLast?_eq_getLast hc
  exact fun h => List.rdropWhile_last_not _ _ hne (decide_eq_true h)

/-- Without them, a numeral stands for the same decimal. -/
theorem value_shortened (n : Numeral) : n.shortened.value = n.value := by
  obtain ⟨zeros, hfraction⟩ := n.exists_fraction_eq
  have hdigits : Nat.ofDigitChars 10 (n.whole ++ n.fraction) 0 =
      10 ^ zeros * Nat.ofDigitChars 10 (n.whole ++ n.shortened.fraction) 0 := by
    rw [hfraction, ← List.append_assoc, Nat.ofDigitChars_append, Nat.ofDigitChars_replicate_zero]
  rw [value, value, hdigits, Binary64.mul_pow_ten]
  · rfl
  · rw [hfraction, List.length_append, List.length_replicate]
    push_cast
    change _ = n.exponent.getD 0 - _
    omega

/-! ## Texts -/

/-- The text of a numeral with neither an exponent nor digits behind the point ends before it. -/
theorem text_of_fraction_eq_nil (hexponent : n.exponent = none) (hfraction : n.fraction = []) :
    n.text = (if n.negative then ['-'] else []) ++ n.whole := by
  simp [text, tail, mark, hexponent, hfraction]

/-- The text of a numeral without an exponent ends with the digits behind the point, if there are any. -/
theorem text_of_fraction_ne_nil (hexponent : n.exponent = none) (hfraction : n.fraction ≠ []) :
    n.text = (if n.negative then ['-'] else []) ++ n.whole ++ '.' :: n.fraction := by
  simp [text, tail, mark, hexponent, hfraction]

/-- Without an exponent the text ends with a digit. -/
theorem isDigit_of_mem_getLast?_text (hexponent : n.exponent = none) :
    ∀ c ∈ n.text.getLast?, c.isDigit = true := by
  intro c hc
  by_cases hfraction : n.fraction = []
  · rw [text_of_fraction_eq_nil hexponent hfraction,
      List.getLast?_append_of_ne_nil _ n.whole_ne_nil] at hc
    exact n.whole_digits c (List.mem_of_mem_getLast? hc)
  · rw [text_of_fraction_ne_nil hexponent hfraction, List.getLast?_append_cons,
      List.getLast?_cons_of_ne_nil hfraction] at hc
    exact n.fraction_digits c (List.mem_of_mem_getLast? hc)

/-- Behind a point, the zeros at the end of a text go, and then the point if no digit is left. -/
theorem dropped_text (hexponent : n.exponent = none) (hfraction : n.fraction ≠ []) :
    ((n.text.reverse.dropWhile (· = '0')).dropWhile (· = '.')).reverse = n.shortened.text := by
  obtain ⟨zeros, hzeros⟩ := n.exists_fraction_eq
  have hdrop : n.text.reverse.dropWhile (· = '0') =
      ((if n.negative then ['-'] else []) ++ n.whole ++ '.' :: n.shortened.fraction).reverse := by
    rw [← List.reverse_eq_iff, text_of_fraction_ne_nil hexponent hfraction, hzeros,
      ← List.cons_append, ← List.append_assoc]
    refine reverse_dropWhile_reverse (fun c hc => ?_) fun c hc =>
      decide_eq_true (List.eq_of_mem_replicate hc)
    rw [List.getLast?_append_cons, List.getLast?_cons, Option.mem_some_iff] at hc
    rw [decide_eq_false_iff_not, ← hc]
    cases hlast : n.shortened.fraction.getLast? with
    | none => decide
    | some last => exact n.ne_zero_of_mem_getLast? last hlast
  have hdigit : ∀ c ∈ n.shortened.text.getLast?, decide (c = '.') = false := by
    intro c hc
    rw [decide_eq_false_iff_not]
    rintro rfl
    exact absurd (isDigit_of_mem_getLast?_text (n := n.shortened) hexponent '.' hc) (by decide)
  rw [hdrop]
  by_cases hnil : n.shortened.fraction = []
  · rw [hnil]
    rw [text_of_fraction_eq_nil (n := n.shortened) hexponent hnil] at hdigit ⊢
    exact reverse_dropWhile_reverse hdigit (by simp)
  · rw [text_of_fraction_ne_nil (n := n.shortened) hexponent hnil] at hdigit ⊢
    have hnone := reverse_dropWhile_reverse hdigit (List.forall_mem_nil _)
    rwa [List.append_nil] at hnone

/-- The numeral of a zero, which can have a sign. -/
def zero (negative : Bool) : Numeral where
  __ := Number.integerNumeral 0
  negative := negative

/-- The value of a zero. -/
theorem value_zero {negative : Bool} : (zero negative).value = 0 := by
  simp [value, zero, Number.integerNumeral, Nat.ofDigitChars_cons]

/-- A numeral without an exponent is trimmed by taking the zeros from its end, and the sign from a
zero that is left. -/
theorem exists_trims (hexponent : n.exponent = none) (hfraction : n.fraction ≠ []) :
    ∃ m : Numeral, m.Trims n ∧ trimDecimal n.text = m.text := by
  have hlast : n.shortened.fraction.getLast? ≠ some '0' :=
    fun h => n.ne_zero_of_mem_getLast? '0' h rfl
  have hpoint : ∀ m : Numeral, m.exponent = none → m.text.getLast? ≠ some '.' :=
    fun m hm h => absurd (isDigit_of_mem_getLast?_text hm '.' h) (by decide)
  by_cases hzero : n.shortened.text = (zero true).text
  · obtain ⟨-, hwhole, hnil, hnone⟩ := text_inj hzero
    refine ⟨zero false, ⟨rfl, ?_, hwhole.symm, by decide, by decide, by decide, Or.inr rfl⟩, ?_⟩
    · have hvalue : n.value = 0 := by
        rw [← value_shortened, value, hwhole, hnil, hnone]
        exact value_zero
      rw [signedValue, signedValue, hvalue, value_zero]
      simp
    · rw [trimDecimal, dropped_text hexponent hfraction, hzero]
      rfl
  · refine ⟨n.shortened, ⟨hexponent, ?_, rfl, hlast, hpoint _ hexponent, hzero, Or.inl rfl⟩, ?_⟩
    · rw [signedValue, signedValue, value_shortened]
      rfl
    · rw [trimDecimal, dropped_text hexponent hfraction]
      exact if_neg hzero

/-! ## Thousandths -/

/-- The numeral of a number of thousandths, with three digits behind the point. -/
def ofThousandths (negative : Bool) (k : Nat) : Numeral where
  negative := negative
  whole := Nat.toDigits 10 (k / 1000)
  fraction := List.replicate (3 - (Nat.toDigits 10 (k % 1000)).length) '0' ++
    Nat.toDigits 10 (k % 1000)
  exponent := none
  whole_ne_nil := Nat.toDigits_ne_nil
  whole_digits _ hc := Nat.isDigit_of_mem_toDigits (by decide) (by decide) hc
  fraction_digits c hc := by
    rcases List.mem_append.mp hc with hc | hc
    · rw [List.eq_of_mem_replicate hc]
      decide
    · exact Nat.isDigit_of_mem_toDigits (by decide) (by decide) hc

/-- Three digits stand behind the point. -/
theorem hasPlaces_ofThousandths (negative : Bool) (k : Nat) :
    (ofThousandths negative k).HasPlaces 3 where
  exponent_eq := rfl
  length_fraction := by
    have hle : (Nat.toDigits 10 (k % 1000)).length ≤ 3 :=
      (Nat.length_toDigits_le_iff (by decide) (by decide)).mpr (Nat.mod_lt k (by decide))
    simp only [ofThousandths, List.length_append, List.length_replicate]
    omega

/-- The value of a number of thousandths. -/
theorem value_ofThousandths (negative : Bool) (k : Nat) :
    (ofThousandths negative k).value = k / 1000 := by
  have hdigits : Nat.ofDigitChars 10 ((ofThousandths negative k).whole ++
      (ofThousandths negative k).fraction) 0 = k := by
    have hlength := (hasPlaces_ofThousandths negative k).length_fraction
    rw [Nat.ofDigitChars_append, Nat.ofDigitChars_eq_ofDigitChars_zero, hlength]
    simp only [ofThousandths, Nat.ofDigitChars_append, Nat.ofDigitChars_ten_toDigits,
      Nat.ofDigitChars_replicate_zero, Nat.mul_zero]
    exact Nat.div_add_mod k 1000
  rw [value, hdigits, (hasPlaces_ofThousandths negative k).length_fraction]
  change (k : ℚ) * 10 ^ (0 - 3 : ℤ) = k / 1000
  norm_num [div_eq_mul_inv]

/-- Zero has one digit before the point. -/
theorem whole_ofThousandths {negative : Bool} {k : Nat} (h : (ofThousandths negative k).value = 0) :
    (ofThousandths negative k).whole = ['0'] := by
  rw [value_ofThousandths, div_eq_zero_iff, Nat.cast_eq_zero] at h
  obtain rfl : k = 0 := h.resolve_right (by norm_num)
  rfl

end Numeral

namespace Binary64

/-- A rounded quotient times the divisor is half a divisor away from the dividend at most. -/
theorem roundDiv_bounds {num den : Nat} (hden : 0 < den) :
    2 * (den * roundDiv num den) ≤ 2 * num + den ∧
      2 * num ≤ 2 * (den * roundDiv num den) + den := by
  have hsplit := Nat.div_add_mod num den
  have hrest := Nat.mod_lt num hden
  simp only [roundDiv]
  split
  next => omega
  next =>
    split
    next =>
      rw [mul_add]
      omega
    next =>
      -- a tie: either neighbour is half a divisor away
      have htie : 2 * (num % den) = den := by omega
      rcases Nat.mod_two_eq_zero_or_one (num / den) with heven | hodd
      · rw [heven, Nat.add_zero]
        omega
      · rw [hodd, mul_add]
        omega

/-- A rounded quotient is one half away from the quotient at most. -/
theorem abs_roundDiv_sub_le {num den : Nat} (hden : 0 < den) :
    |(roundDiv num den : ℚ) - num / den| ≤ 1 / 2 := by
  have hpos : (0 : ℚ) < den := by exact_mod_cast hden
  have hlower : (roundDiv num den : ℚ) - 1 / 2 ≤ num / den := by
    have hle : 2 * ((den : ℚ) * roundDiv num den) ≤ 2 * num + den := by
      exact_mod_cast (roundDiv_bounds hden).1
    rw [le_div_iff₀ hpos]
    linarith
  have hupper : (num : ℚ) / den ≤ roundDiv num den + 1 / 2 := by
    have hle : 2 * (num : ℚ) ≤ 2 * (den * roundDiv num den) + den := by
      exact_mod_cast (roundDiv_bounds hden).2
    rw [div_le_iff₀ hpos]
    linarith
  rw [abs_le]
  constructor <;> linarith

/-- The quotient is the magnitude. -/
theorem quotient_div (x : Binary64) : (x.quotient.1 : ℚ) / x.quotient.2 = x.magnitude := by
  rw [magnitude, ← shifted_div]
  unfold quotient
  split <;> rfl

/-- The denominator of the quotient is positive. -/
theorem quotient_snd_pos (x : Binary64) : 0 < x.quotient.2 := by
  unfold quotient
  split
  · rw [Nat.shiftLeft_eq, one_mul]
    positivity
  · exact one_pos

/-- A finite double is written as the numeral of a number of thousandths. -/
theorem threeDecimals_eq (x : Binary64) : x.threeDecimals =
    (Numeral.ofThousandths x.negative (roundDiv (1000 * x.quotient.1) x.quotient.2)).text := by
  rw [Numeral.text_of_fraction_ne_nil rfl]
  · simp only [threeDecimals, List.append_assoc, List.cons_append, List.nil_append]
    rfl
  · simp [Numeral.ofThousandths, Nat.toDigits_ne_nil]

/-- The decimal that a finite double is written as is half a thousandth from it at most. -/
theorem abs_value_ofThousandths_sub_le (x : Binary64) :
    |(Numeral.ofThousandths x.negative (roundDiv (1000 * x.quotient.1) x.quotient.2)).value -
      x.magnitude| ≤ 1 / 2000 := by
  have hround : |(roundDiv (1000 * x.quotient.1) x.quotient.2 : ℚ) -
      (1000 * x.quotient.1 : ℕ) / x.quotient.2| ≤ 1 / 2 := abs_roundDiv_sub_le x.quotient_snd_pos
  rw [Nat.cast_mul, mul_div_assoc, quotient_div, Nat.cast_ofNat, abs_le] at hround
  rw [Numeral.value_ofThousandths, abs_le]
  constructor <;> linarith

end Binary64

/-- A text of a sign that may be missing, digits, a point and three digits is trimmed to the text of a
numeral for the same decimal, with the same digits before the point. This text ends neither with a zero
behind the point nor with the point, and it is not a zero with a sign. The numbers in colours are trimmed
from texts of this form: a finite double is written as one, with its sign, for a decimal half a
thousandth away at most, and zero with one digit before the point. -/
theorem trimDecimal_keeps_value :
    (∀ n : Numeral, n.HasPlaces 3 → ∃ m : Numeral, m.Trims n ∧ trimDecimal n.text = m.text) ∧
      ∀ x : Binary64, ∃ n : Numeral, n.HasPlaces 3 ∧ x.threeDecimals = n.text ∧
        n.negative = x.negative ∧ |n.value - x.magnitude| ≤ 1 / 2000 ∧
          (n.value = 0 → n.whole = ['0']) := by
  constructor
  · intro n hn
    have hfraction : n.fraction ≠ [] := List.ne_nil_of_length_pos (by simp [hn.length_fraction])
    exact Numeral.exists_trims hn.exponent_eq hfraction
  · intro x
    exact ⟨_, Numeral.hasPlaces_ofThousandths _ _, x.threeDecimals_eq, rfl,
      x.abs_value_ofThousandths_sub_le, Numeral.whole_ofThousandths⟩

/-- A negative hundred keeps the zeros before its point. -/
theorem trimDecimal_keeps_value_hundred :
    (Numeral.ofThousandths true 100000).HasPlaces 3 ∧
      (Numeral.ofThousandths true 100000).text = "-100.000".toList ∧
        ∃ m : Numeral, m.Trims (Numeral.ofThousandths true 100000) ∧ m.text = "-100".toList := by
  have htext : (Numeral.ofThousandths true 100000).text = "-100.000".toList := by decide
  obtain ⟨m, htrims, hm⟩ := trimDecimal_keeps_value.1 _ (Numeral.hasPlaces_ofThousandths true 100000)
  refine ⟨Numeral.hasPlaces_ofThousandths _ _, htext, m, htrims, ?_⟩
  rw [← hm, htext]
  decide

example : trimDecimal "-0.000".toList = "0".toList := by decide

end Siteworks
