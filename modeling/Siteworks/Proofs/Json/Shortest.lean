import Mathlib
import Siteworks.Json.Binary64

/-!
# Decimals that stand for doubles

Every decimal that rounds to a positive magnitude lies in an interval around it, whose ends belong
to it exactly if the mantissa is even. The intervals of different magnitudes have no decimal in
common. Seventeen digits reach into each of them, so the shortest digits stand for a decimal in the
interval: no two doubles share them.
-/

namespace Siteworks.Binary64

/-! ## The parts of a double -/

theorem leadingBit_eq : leadingBit = 2 ^ 52 := rfl

/-- The mantissa has at most 53 binary digits. -/
theorem mantissa_lt (x : Binary64) : x.mantissa < 2 ^ 53 := by
  have hfraction : x.fraction < 2 ^ 52 := Nat.mod_lt _ (by decide)
  unfold mantissa
  split
  · omega
  · rw [leadingBit_eq]
    omega

/-- A mantissa of less than 53 digits comes with the least exponent only. -/
theorem leadingBit_le_mantissa {x : Binary64} (h : minExponent < x.exponent) :
    2 ^ 52 ≤ x.mantissa := by
  unfold exponent at h
  rw [mantissa, if_neg (by omega), leadingBit_eq]
  exact Nat.le_add_right _ _

/-- The exponent is not below the least one. -/
theorem minExponent_le (x : Binary64) : -1074 ≤ x.exponent := by
  unfold exponent minExponent
  omega

/-- The exponent is not above the greatest one. -/
theorem exponent_le (x : Binary64) : x.exponent ≤ 971 := by
  have hfield : x.exponentField < 2048 := Nat.mod_lt _ (by decide)
  have hfinite : x.exponentField ≠ 2047 := x.finite
  unfold exponent minExponent
  omega

/-- A double is given by its sign, its mantissa and its exponent. -/
theorem eq_of_parts {x y : Binary64} (hnegative : x.negative = y.negative)
    (hmantissa : x.mantissa = y.mantissa) (hexponent : x.exponent = y.exponent) : x = y := by
  have hx : x.fraction < 2 ^ 52 := Nat.mod_lt _ (by decide)
  have hy : y.fraction < 2 ^ 52 := Nat.mod_lt _ (by decide)
  have hfield : x.exponentField = y.exponentField := by
    unfold mantissa at hmantissa
    unfold exponent at hexponent
    rw [leadingBit_eq] at hmantissa
    split at hmantissa <;> split at hmantissa <;> omega
  have hfraction : x.fraction = y.fraction := by
    unfold mantissa at hmantissa
    rw [hfield] at hmantissa
    split at hmantissa <;> omega
  have hbits : x.bits.toNat = y.bits.toNat := by
    have hxlt := x.bits.toNat_lt
    have hylt := y.bits.toNat_lt
    unfold negative at hnegative
    unfold exponentField at hfield
    unfold fraction at hfraction
    rw [decide_eq_decide, Nat.shiftRight_eq_div_pow, Nat.shiftRight_eq_div_pow] at hnegative
    rw [Nat.shiftRight_eq_div_pow, Nat.shiftRight_eq_div_pow] at hfield
    rw [leadingBit_eq] at hfraction
    omega
  cases x
  cases y
  simpa [UInt64.toNat_inj] using hbits

/-- The magnitude of a double. -/
def magnitude (x : Binary64) : ℚ := x.mantissa * 2 ^ x.exponent

/-! ## The decimals that round to a magnitude -/

/-- How far the decimals that round to a magnitude go down, in quarters of its unit: the next
magnitude below a power of two is nearer than the next one above. -/
def gap (x : Binary64) : Nat :=
  if x.mantissa = leadingBit ∧ minExponent < x.exponent then 1 else 2

/-- The value rounds to the magnitude: it lies between the middles to the neighbours, and a middle
goes to the even mantissa. -/
def Rounds (x : Binary64) (v : ℚ) : Prop :=
  if x.mantissa % 2 = 0 then
    (4 * x.mantissa - x.gap) * 2 ^ (x.exponent - 2) ≤ v ∧
      v ≤ (4 * x.mantissa + 2) * 2 ^ (x.exponent - 2)
  else
    (4 * x.mantissa - x.gap) * 2 ^ (x.exponent - 2) < v ∧
      v < (4 * x.mantissa + 2) * 2 ^ (x.exponent - 2)

variable {x y : Binary64} {v : ℚ}

/-- A value that rounds to a magnitude is not below the lower middle. -/
theorem Rounds.lower (h : x.Rounds v) :
    (4 * x.mantissa - x.gap) * 2 ^ (x.exponent - 2) ≤ v := by
  unfold Rounds at h
  split at h
  · exact h.1
  · exact h.1.le

/-- A value that rounds to a magnitude is not above the upper middle. -/
theorem Rounds.upper (h : x.Rounds v) :
    v ≤ (4 * x.mantissa + 2) * 2 ^ (x.exponent - 2) := by
  unfold Rounds at h
  split at h
  · exact h.2
  · exact h.2.le

/-- The middles do not round to an odd mantissa. -/
theorem Rounds.strict (h : x.Rounds v) (hodd : x.mantissa % 2 = 1) :
    (4 * x.mantissa - x.gap) * 2 ^ (x.exponent - 2) < v ∧
      v < (4 * x.mantissa + 2) * 2 ^ (x.exponent - 2) := by
  rwa [Rounds, if_neg (by omega)] at h

/-- Values strictly between the middles round to the magnitude. -/
theorem Rounds.of_lt (hlower : (4 * x.mantissa - x.gap) * 2 ^ (x.exponent - 2) < v)
    (hupper : v < (4 * x.mantissa + 2) * 2 ^ (x.exponent - 2)) : x.Rounds v := by
  unfold Rounds
  split
  · exact ⟨hlower.le, hupper.le⟩
  · exact ⟨hlower, hupper⟩

/-- The lower middle is half a unit below the magnitude at most. -/
theorem gap_le_two (x : Binary64) : x.gap ≤ 2 := by
  unfold gap
  split <;> omega

/-- No value rounds to two magnitudes of one exponent. -/
theorem not_rounds_of_mantissa_lt (hexponent : x.exponent = y.exponent)
    (hmantissa : x.mantissa < y.mantissa) (hx : x.Rounds v) : ¬ y.Rounds v := by
  intro hy
  have hunit : (0 : ℚ) < 2 ^ (y.exponent - 2) := by positivity
  have hgap : (y.gap : ℚ) ≤ 2 := by exact_mod_cast y.gap_le_two
  have hnext : (x.mantissa : ℚ) + 1 ≤ y.mantissa := by exact_mod_cast hmantissa
  have hmiddles : (4 * (x.mantissa : ℚ) + 2) * 2 ^ (y.exponent - 2) ≤
      (4 * y.mantissa - y.gap) * 2 ^ (y.exponent - 2) := by
    apply mul_le_mul_of_nonneg_right _ hunit.le
    linarith
  have hupper := hx.upper
  have hlower := hy.lower
  rw [hexponent] at hupper
  by_cases hodd : x.mantissa % 2 = 1
  · have hstrict := (hx.strict hodd).2
    rw [hexponent] at hstrict
    linarith
  · by_cases hodd' : y.mantissa % 2 = 1
    · have hstrict := (hy.strict hodd').1
      linarith
    · have hfar : (x.mantissa : ℚ) + 2 ≤ y.mantissa := by
        exact_mod_cast (by omega : x.mantissa + 2 ≤ y.mantissa)
      nlinarith

/-- No value rounds to two magnitudes of different exponents. -/
theorem not_rounds_of_exponent_lt (hexponent : x.exponent < y.exponent) (hx : x.Rounds v) :
    ¬ y.Rounds v := by
  intro hy
  have hunit : (0 : ℚ) < 2 ^ (x.exponent - 2) := by positivity
  have hdouble : 2 * (2 : ℚ) ^ (x.exponent - 2) ≤ 2 ^ (y.exponent - 2) := by
    rw [← zpow_one_add₀ two_ne_zero]
    exact zpow_le_zpow_right₀ one_le_two (by omega)
  have hmin : minExponent < y.exponent := lt_of_le_of_lt x.minExponent_le hexponent
  have hfull := leadingBit_le_mantissa hmin
  have hlower : (2 : ℚ) ^ 54 - 1 ≤ 4 * y.mantissa - y.gap := by
    unfold gap
    split
    next h => rw [h.1]; norm_num [leadingBit_eq]
    next h =>
      have hne : y.mantissa ≠ 2 ^ 52 := fun he => h ⟨he, hmin⟩
      have hmore : (2 : ℚ) ^ 52 + 1 ≤ y.mantissa := by
        exact_mod_cast (by omega : 2 ^ 52 + 1 ≤ y.mantissa)
      push_cast
      linarith
  have hreach : ((2 : ℚ) ^ 54 - 1) * (2 * 2 ^ (x.exponent - 2)) ≤ v :=
    (mul_le_mul hlower hdouble (by positivity) (by linarith [show (0 : ℚ) ≤ 2 ^ 54 - 1 by norm_num])).trans
      hy.lower
  by_cases hodd : x.mantissa % 2 = 1
  · have hless : (x.mantissa : ℚ) + 1 ≤ 2 ^ 53 := by exact_mod_cast x.mantissa_lt
    have hstrict := (hx.strict hodd).2
    norm_num at hless hreach
    nlinarith
  · have hlt := x.mantissa_lt
    have hless : (x.mantissa : ℚ) + 2 ≤ 2 ^ 53 := by
      exact_mod_cast (by omega : x.mantissa + 2 ≤ 2 ^ 53)
    have hupper := hx.upper
    norm_num at hless hreach
    nlinarith

/-- A value rounds to one magnitude only. -/
theorem Rounds.unique (hx : x.Rounds v) (hy : y.Rounds v) :
    x.mantissa = y.mantissa ∧ x.exponent = y.exponent := by
  rcases lt_trichotomy x.exponent y.exponent with h | h | h
  · exact absurd hy (not_rounds_of_exponent_lt h hx)
  · rcases lt_trichotomy x.mantissa y.mantissa with h' | h' | h'
    · exact absurd hy (not_rounds_of_mantissa_lt h h' hx)
    · exact ⟨h', h⟩
    · exact absurd hx (not_rounds_of_mantissa_lt h.symm h' hy)
  · exact absurd hx (not_rounds_of_exponent_lt h hy)

/-! ## The decimal place of a magnitude -/

/-- The comparison with a power of ten, in whole numbers. -/
theorem lt_pow_iff {num den : Nat} (hden : 0 < den) (k : Int) :
    (if k < 0 then num * Nat.pow 10 k.natAbs < den else num < den * Nat.pow 10 k.natAbs) ↔
      (num : ℚ) / den < 10 ^ k := by
  have hden' : (0 : ℚ) < den := by exact_mod_cast hden
  rw [div_lt_iff₀ hden']
  split
  next hneg =>
    have hpow : (10 : ℚ) ^ k = (10 ^ k.natAbs)⁻¹ := by
      rw [← zpow_natCast, ← zpow_neg]
      congr 1
      omega
    rw [hpow, inv_mul_eq_div, lt_div_iff₀ (by positivity)]
    exact_mod_cast Iff.rfl
  next hpos =>
    have hpow : (10 : ℚ) ^ k = 10 ^ k.natAbs := by
      rw [← zpow_natCast]
      congr 1
      omega
    rw [hpow, mul_comm]
    exact_mod_cast Iff.rfl

/-- The search finds the least power of ten above a quotient, if it starts low enough and goes on
far enough. -/
theorem decimalPlace_spec {num den : Nat} (hden : 0 < den) {steps : Nat} {k : Int}
    (hstart : (10 : ℚ) ^ (k - 1) ≤ num / den) (hend : (num : ℚ) / den < 10 ^ (k + steps)) :
    (10 : ℚ) ^ (decimalPlace num den steps k - 1) ≤ num / den ∧
      (num : ℚ) / den < 10 ^ decimalPlace num den steps k := by
  induction steps generalizing k with
  | zero => exact ⟨hstart, by simpa [decimalPlace] using hend⟩
  | succ steps ih =>
    rw [decimalPlace]
    simp only [lt_pow_iff hden]
    split
    next hbelow => exact ⟨hstart, hbelow⟩
    next hnot =>
      refine ih ?_ ?_
      · rw [add_sub_cancel_right]
        exact not_lt.mp hnot
      · rwa [add_assoc, add_comm 1, ← Nat.cast_succ]

/-- A number times a power of two, as a quotient of numbers. -/
theorem shifted_div (n : Nat) (e : Int) : ((if e < 0 then n else n <<< e.natAbs : Nat) : ℚ) /
    (if e < 0 then 1 <<< e.natAbs else 1 : Nat) = n * 2 ^ e := by
  split
  next hneg =>
    have hpow : (2 : ℚ) ^ e = (2 ^ e.natAbs)⁻¹ := by
      rw [← zpow_natCast, ← zpow_neg]
      congr 1
      omega
    rw [hpow, Nat.shiftLeft_eq, one_mul, div_eq_mul_inv]
    push_cast
    rfl
  next hpos =>
    have hpow : (2 : ℚ) ^ e = 2 ^ e.natAbs := by
      rw [← zpow_natCast]
      congr 1
      omega
    rw [hpow, Nat.shiftLeft_eq]
    push_cast
    rw [div_one]

/-- A number of quarters of the unit, as the numerator of a quotient. -/
def numerator (x : Binary64) (n : Nat) : Nat :=
  if x.exponent - 2 < 0 then n else n <<< (x.exponent - 2).natAbs

/-- The denominator that goes with it. -/
def denominator (x : Binary64) : Nat :=
  if x.exponent - 2 < 0 then 1 <<< (x.exponent - 2).natAbs else 1

/-- The denominator is a power of two. -/
theorem denominator_eq (x : Binary64) : x.denominator = 2 ^ x.denominator.log2 := by
  unfold denominator
  split
  · rw [Nat.shiftLeft_eq, one_mul, Nat.log2_two_pow]
  · rfl

/-- The quotient is that number of quarters. -/
theorem numerator_div_denominator (x : Binary64) (n : Nat) :
    (x.numerator n : ℚ) / x.denominator = n * 2 ^ (x.exponent - 2) :=
  shifted_div n (x.exponent - 2)

/-- Four quarters are a unit. -/
theorem four_mul_quarter (x : Binary64) (q : ℚ) :
    4 * q * 2 ^ (x.exponent - 2) = q * 2 ^ x.exponent := by
  rw [zpow_sub₀ two_ne_zero]
  norm_num
  ring

/-- The binary logarithm of a magnitude, less one. -/
def logarithm (x : Binary64) : Int :=
  ((x.numerator (4 * x.mantissa)).log2 : Int) - x.denominator.log2 - 1

/-- The quotient for the middle is the magnitude. -/
theorem magnitude_eq (x : Binary64) :
    (x.numerator (4 * x.mantissa) : ℚ) / x.denominator = x.magnitude := by
  rw [numerator_div_denominator, Nat.cast_mul, Nat.cast_ofNat, four_mul_quarter, magnitude]

/-- A positive magnitude is positive. -/
theorem magnitude_pos {x : Binary64} (h : 0 < x.mantissa) : 0 < x.magnitude :=
  mul_pos (by exact_mod_cast h) (by positivity)

/-- The denominator is positive. -/
theorem denominator_pos (x : Binary64) : 0 < x.denominator := by
  rw [denominator_eq]
  positivity

/-- The magnitude lies between two powers of two. -/
theorem logarithm_spec {x : Binary64} (h : 0 < x.mantissa) :
    (2 : ℚ) ^ (x.logarithm + 1) ≤ x.magnitude ∧ x.magnitude < 2 ^ (x.logarithm + 2) := by
  have hden : (x.denominator : ℚ) = 2 ^ (x.denominator.log2 : ℤ) := by
    rw [zpow_natCast]
    exact_mod_cast x.denominator_eq
  have hnum : x.numerator (4 * x.mantissa) ≠ 0 := by
    intro hzero
    have hpos := magnitude_pos h
    rw [← magnitude_eq, hzero] at hpos
    simp at hpos
  have hlower : (2 : ℚ) ^ ((x.numerator (4 * x.mantissa)).log2 : ℤ) ≤
      x.numerator (4 * x.mantissa) := by
    rw [zpow_natCast]
    exact_mod_cast Nat.log2_self_le hnum
  have hupper : (x.numerator (4 * x.mantissa) : ℚ) <
      2 ^ (((x.numerator (4 * x.mantissa)).log2 : ℤ) + 1) := by
    rw [← Nat.cast_succ, zpow_natCast]
    exact_mod_cast Nat.lt_log2_self
  have hsplit : ∀ k : ℤ, (2 : ℚ) ^ (x.logarithm + 1 + k) * 2 ^ (x.denominator.log2 : ℤ) =
      2 ^ (((x.numerator (4 * x.mantissa)).log2 : ℤ) + k) := by
    intro k
    rw [← zpow_add₀ two_ne_zero, logarithm]
    congr 1
    ring
  have hpos : (0 : ℚ) < 2 ^ (x.denominator.log2 : ℤ) := by positivity
  rw [← magnitude_eq, hden, le_div_iff₀ hpos, div_lt_iff₀ hpos]
  constructor
  · have h0 := hsplit 0
    rw [add_zero, add_zero] at h0
    rw [h0]
    exact hlower
  · have h1 := hsplit 1
    rw [add_assoc, one_add_one_eq_two] at h1
    rw [h1]
    exact hupper

/-- The decimal place at which the search starts. -/
def guess (x : Binary64) : Int := x.logarithm * 30103 / 100000 - 1

/-- The decimal place of the point before the first digit. -/
def place (x : Binary64) : Int :=
  decimalPlace (x.numerator (4 * x.mantissa)) x.denominator 400 x.guess

/-- The bounds of the binary logarithm. -/
theorem logarithm_bounds {x : Binary64} (h : 0 < x.mantissa) :
    -1075 ≤ x.logarithm ∧ x.logarithm ≤ 1022 := by
  obtain ⟨hlower, hupper⟩ := logarithm_spec h
  constructor
  · have hleast : (2 : ℚ) ^ (-1074 : ℤ) ≤ x.magnitude := by
      have hone : (1 : ℚ) ≤ x.mantissa := by exact_mod_cast h
      calc (2 : ℚ) ^ (-1074 : ℤ) ≤ 2 ^ x.exponent :=
            zpow_le_zpow_right₀ one_le_two x.minExponent_le
        _ ≤ x.magnitude := le_mul_of_one_le_left (by positivity) hone
    have hlt := (zpow_lt_zpow_iff_right₀ one_lt_two).mp (hleast.trans_lt hupper)
    omega
  · have hgreatest : x.magnitude < 2 ^ (1024 : ℤ) := by
      have hless : (x.mantissa : ℚ) < 2 ^ (53 : ℤ) := by exact_mod_cast x.mantissa_lt
      calc x.magnitude < 2 ^ (53 : ℤ) * 2 ^ x.exponent := by
            apply mul_lt_mul_of_pos_right hless
            positivity
        _ = 2 ^ (53 + x.exponent) := (zpow_add₀ two_ne_zero _ _).symm
        _ ≤ 2 ^ (1024 : ℤ) := zpow_le_zpow_right₀ one_le_two (by linarith [x.exponent_le])
    have hlt := (zpow_lt_zpow_iff_right₀ one_lt_two).mp (hlower.trans_lt hgreatest)
    omega

/-- A power of powers, the exponents in the other order. -/
theorem zpow_pow_comm (a : ℚ) (k : Int) (n : Nat) : (a ^ k) ^ n = (a ^ n) ^ k := by
  rw [← zpow_natCast, ← zpow_natCast, ← zpow_mul, ← zpow_mul, mul_comm]

/-- The search starts low enough: `10 ^ 3` is less than `2 ^ 10`, and `2 ^ 93` less than `10 ^ 28`. -/
theorem pow_guess_le {s : Int} (hlower : -1075 ≤ s) (hupper : s ≤ 1022) :
    (10 : ℚ) ^ (s * 30103 / 100000 - 1 - 1) ≤ 2 ^ (s + 1) := by
  have hnext : (2 : ℚ) ^ s ≤ 2 ^ (s + 1) := zpow_le_zpow_right₀ one_le_two (by omega)
  refine le_trans ?_ hnext
  rcases le_or_gt 0 s with hs | hs
  · refine le_of_pow_le_pow_left₀ (n := 10) (by decide) (by positivity) ?_
    calc ((10 : ℚ) ^ (s * 30103 / 100000 - 1 - 1)) ^ 10
        = 10 ^ ((s * 30103 / 100000 - 1 - 1) * 10) := (zpow_mul _ _ _).symm
      _ ≤ 10 ^ (3 * s) := zpow_le_zpow_right₀ (by norm_num) (by omega)
      _ = (10 ^ 3) ^ s := zpow_mul _ _ _
      _ ≤ (2 ^ 10) ^ s := zpow_le_zpow_left₀ hs (by norm_num) (by norm_num)
      _ = (2 ^ s) ^ 10 := (zpow_pow_comm 2 s 10).symm
  · obtain ⟨t, rfl⟩ : ∃ t, s = -t := ⟨-s, by omega⟩
    obtain ⟨k, hk⟩ : ∃ k, -t * 30103 / 100000 - 1 - 1 = -k := ⟨_, (neg_neg _).symm⟩
    rw [hk, zpow_neg, zpow_neg, inv_le_inv₀ (by positivity) (by positivity)]
    refine le_of_pow_le_pow_left₀ (n := 93) (by decide) (by positivity) ?_
    calc ((2 : ℚ) ^ t) ^ 93 = (2 ^ 93) ^ t := zpow_pow_comm 2 t 93
      _ ≤ (10 ^ 28) ^ t := zpow_le_zpow_left₀ (by omega) (by norm_num) (by norm_num)
      _ = 10 ^ (28 * t) := (zpow_mul (10 : ℚ) 28 t).symm
      _ ≤ 10 ^ (k * 93) := zpow_le_zpow_right₀ (by norm_num) (by omega)
      _ = (10 ^ k) ^ 93 := zpow_mul _ _ _

/-- The search goes on far enough. -/
theorem lt_pow_guess {s : Int} (hlower : -1075 ≤ s) (hupper : s ≤ 1022) :
    (2 : ℚ) ^ (s + 2) < 10 ^ (s * 30103 / 100000 - 1 + (400 : Nat)) := by
  rcases le_or_gt 0 s with hs | hs
  · calc (2 : ℚ) ^ (s + 2) < 2 ^ (3 * 398 : ℤ) := zpow_lt_zpow_right₀ one_lt_two (by omega)
      _ = (2 ^ 3) ^ (398 : ℤ) := zpow_mul _ _ _
      _ ≤ 10 ^ (398 : ℤ) := zpow_le_zpow_left₀ (by decide) (by norm_num) (by norm_num)
      _ ≤ _ := zpow_le_zpow_right₀ (by norm_num) (by omega)
  · calc (2 : ℚ) ^ (s + 2) ≤ 2 ^ (1 : ℤ) := zpow_le_zpow_right₀ one_le_two (by omega)
      _ < 10 ^ (1 : ℤ) := by norm_num
      _ ≤ _ := zpow_le_zpow_right₀ (by norm_num) (by omega)

/-- The magnitude has its first digit right behind the point. -/
theorem place_spec {x : Binary64} (h : 0 < x.mantissa) :
    (10 : ℚ) ^ (x.place - 1) ≤ x.magnitude ∧ x.magnitude < 10 ^ x.place := by
  obtain ⟨hlower, hupper⟩ := logarithm_spec h
  obtain ⟨hleast, hgreatest⟩ := logarithm_bounds h
  rw [← magnitude_eq] at hlower hupper ⊢
  exact decimalPlace_spec x.denominator_pos ((pow_guess_le hleast hgreatest).trans hlower)
    (hupper.trans (lt_pow_guess hleast hgreatest))

/-! ## The shortest digits -/

/-- A numerator, raised by a negative power of ten. -/
def raised (unit : Int) (num : Nat) : Nat :=
  if unit < 0 then num * Nat.pow 10 unit.natAbs else num

/-- A denominator, raised by a power of ten that is not negative. -/
def lowered (unit : Int) (den : Nat) : Nat :=
  if unit < 0 then den else den * Nat.pow 10 unit.natAbs

/-- A number of decimal units rounds to the magnitude, in whole numbers. -/
def inside (x : Binary64) (unit : Int) (d : Nat) : Bool :=
  if x.mantissa % 2 = 0 then
    raised unit (x.numerator (4 * x.mantissa - x.gap)) ≤ d * lowered unit x.denominator &&
      d * lowered unit x.denominator ≤ raised unit (x.numerator (4 * x.mantissa + 2))
  else
    raised unit (x.numerator (4 * x.mantissa - x.gap)) < d * lowered unit x.denominator &&
      d * lowered unit x.denominator < raised unit (x.numerator (4 * x.mantissa + 2))

/-- The number of decimal units next to the magnitude, downwards. -/
def units (x : Binary64) (unit : Int) : Nat :=
  raised unit (x.numerator (4 * x.mantissa)) / lowered unit x.denominator

/-- The nearest number of decimal units that rounds to the magnitude, if there is one. -/
def attempt (x : Binary64) (unit : Int) : Option Nat :=
  if x.inside unit (x.units unit) && x.inside unit (x.units unit + 1) then
    some (roundDiv (raised unit (x.numerator (4 * x.mantissa))) (lowered unit x.denominator))
  else if x.inside unit (x.units unit) then some (x.units unit)
  else if x.inside unit (x.units unit + 1) then some (x.units unit + 1)
  else none

/-- The shortest digits are those of the first attempt that succeeds. -/
theorem shortest_eq (x : Binary64) : x.shortest =
    match (List.range' 1 17).findSome? fun digits : Nat =>
      (x.attempt (x.place - digits)).map fun d => (digits, d) with
    | some (digits, d) =>
      if d = Nat.pow 10 digits then (['1'], x.place + 1) else (Nat.toDigits 10 d, x.place)
    | none => (['0'], 1) :=
  rfl

/-- A raised denominator is positive. -/
theorem lowered_pos (x : Binary64) (unit : Int) : 0 < lowered unit x.denominator := by
  have hpow : 0 < Nat.pow 10 unit.natAbs := Nat.pow_pos (by decide)
  unfold lowered
  split
  · exact x.denominator_pos
  · exact Nat.mul_pos x.denominator_pos hpow

/-- Numbers of quarters of the binary unit and numbers of decimal units, on one scale. -/
theorem raised_mul_pow (x : Binary64) (unit : Int) (n : Nat) :
    (raised unit (x.numerator n) : ℚ) * 10 ^ unit =
      n * 2 ^ (x.exponent - 2) * lowered unit x.denominator := by
  have hden : (x.denominator : ℚ) ≠ 0 := by exact_mod_cast x.denominator_pos.ne'
  have hnum : (x.numerator n : ℚ) = n * 2 ^ (x.exponent - 2) * x.denominator := by
    rw [← numerator_div_denominator, div_mul_cancel₀ _ hden]
  unfold raised lowered
  split
  next hneg =>
    have hpow : (10 : ℚ) ^ unit = (10 ^ unit.natAbs)⁻¹ := by
      rw [← zpow_natCast, ← zpow_neg]
      congr 1
      omega
    have hpos : (10 : ℚ) ^ unit.natAbs ≠ 0 := by positivity
    rw [hpow, Nat.cast_mul, hnum]
    change _ * ((10 ^ unit.natAbs : ℕ) : ℚ) * _ = _
    rw [Nat.cast_pow, Nat.cast_ofNat, mul_assoc, mul_inv_cancel₀ hpos, mul_one]
  next hpos =>
    have hpow : (10 : ℚ) ^ unit = 10 ^ unit.natAbs := by
      rw [← zpow_natCast]
      congr 1
      omega
    rw [hpow, Nat.cast_mul, hnum, ← mul_assoc]
    change _ = _ * ((10 ^ unit.natAbs : ℕ) : ℚ)
    rw [Nat.cast_pow, Nat.cast_ofNat]

/-- Comparing a number of quarters with a number of decimal units. -/
theorem raised_le_iff (x : Binary64) (unit : Int) (n d : Nat) :
    raised unit (x.numerator n) ≤ d * lowered unit x.denominator ↔
      (n : ℚ) * 2 ^ (x.exponent - 2) ≤ d * 10 ^ unit := by
  have hpow : (0 : ℚ) < 10 ^ unit := by positivity
  have hden : (0 : ℚ) < lowered unit x.denominator := by exact_mod_cast x.lowered_pos unit
  rw [← Nat.cast_le (α := ℚ), ← mul_le_mul_iff_left₀ hpow, raised_mul_pow, Nat.cast_mul,
    mul_right_comm (d : ℚ), mul_le_mul_iff_left₀ hden]

/-- Comparing a number of decimal units with a number of quarters. -/
theorem le_raised_iff (x : Binary64) (unit : Int) (n d : Nat) :
    d * lowered unit x.denominator ≤ raised unit (x.numerator n) ↔
      (d : ℚ) * 10 ^ unit ≤ n * 2 ^ (x.exponent - 2) := by
  have hpow : (0 : ℚ) < 10 ^ unit := by positivity
  have hden : (0 : ℚ) < lowered unit x.denominator := by exact_mod_cast x.lowered_pos unit
  rw [← Nat.cast_le (α := ℚ), ← mul_le_mul_iff_left₀ hpow, raised_mul_pow, Nat.cast_mul,
    mul_right_comm, mul_le_mul_iff_left₀ hden]

/-- The test in whole numbers is whether the value rounds to the magnitude. -/
theorem inside_iff (h : 0 < x.mantissa) {unit : Int} {d : Nat} :
    x.inside unit d = true ↔ x.Rounds (d * 10 ^ unit) := by
  have hgap := x.gap_le_two
  have hlow : ((4 * x.mantissa - x.gap : ℕ) : ℚ) = 4 * x.mantissa - x.gap := by
    rw [Nat.cast_sub (by omega)]
    push_cast
    rfl
  have hhigh : ((4 * x.mantissa + 2 : ℕ) : ℚ) = 4 * x.mantissa + 2 := by push_cast; rfl
  unfold inside Rounds
  split
  · rw [Bool.and_eq_true, decide_eq_true_eq, decide_eq_true_eq, raised_le_iff, le_raised_iff, hlow,
      hhigh]
  · rw [Bool.and_eq_true, decide_eq_true_eq, decide_eq_true_eq, ← not_le, le_raised_iff, ← not_le,
      raised_le_iff, hlow, hhigh, not_le, not_le]

/-- The magnitude lies between two neighbouring numbers of decimal units. -/
theorem units_spec (x : Binary64) (unit : Int) :
    (x.units unit : ℚ) * 10 ^ unit ≤ x.magnitude ∧
      x.magnitude < ((x.units unit + 1 : ℕ) : ℚ) * 10 ^ unit := by
  have hmid : ((4 * x.mantissa : ℕ) : ℚ) * 2 ^ (x.exponent - 2) = x.magnitude := by
    rw [Nat.cast_mul, Nat.cast_ofNat, four_mul_quarter, magnitude]
  rw [← hmid, ← le_raised_iff, ← not_le, ← le_raised_iff, not_le]
  exact ⟨Nat.div_mul_le_self _ _,
    (Nat.lt_mul_div_succ _ (x.lowered_pos unit)).trans_eq (mul_comm _ _)⟩

/-- Rounding goes to one of the two neighbours. -/
theorem roundDiv_eq (num den : Nat) :
    roundDiv num den = num / den ∨ roundDiv num den = num / den + 1 := by
  simp only [roundDiv]
  split
  · exact Or.inl rfl
  · split
    · exact Or.inr rfl
    · omega

/-- An attempt's answer rounds to the magnitude, and is one of the two neighbours. -/
theorem attempt_eq_some (h : 0 < x.mantissa) {unit : Int} {d : Nat}
    (hd : x.attempt unit = some d) :
    x.Rounds (d * 10 ^ unit) ∧ (d = x.units unit ∨ d = x.units unit + 1) := by
  rw [← inside_iff h]
  unfold attempt at hd
  split at hd
  next hboth =>
    rw [Bool.and_eq_true] at hboth
    rcases roundDiv_eq (raised unit (x.numerator (4 * x.mantissa))) (lowered unit x.denominator)
      with hdown | hup
    · obtain rfl : x.units unit = d := hdown.symm.trans (Option.some_inj.mp hd)
      exact ⟨hboth.1, Or.inl rfl⟩
    · obtain rfl : x.units unit + 1 = d := hup.symm.trans (Option.some_inj.mp hd)
      exact ⟨hboth.2, Or.inr rfl⟩
  next =>
    split at hd
    next hdown =>
      cases hd
      exact ⟨hdown, Or.inl rfl⟩
    next =>
      split at hd
      next hup =>
        cases hd
        exact ⟨hup, Or.inr rfl⟩
      next => cases hd

/-- The neighbours of the magnitude, in units that leave this many digits. -/
theorem units_bounds (h : 0 < x.mantissa) {digits : Nat} (hdigits : 0 < digits) :
    10 ^ (digits - 1) ≤ x.units (x.place - digits) ∧ x.units (x.place - digits) < 10 ^ digits := by
  obtain ⟨hlower, hupper⟩ := place_spec h
  obtain ⟨hdown, hup⟩ := x.units_spec (x.place - digits)
  have hpow : (0 : ℚ) < 10 ^ (x.place - digits) := by positivity
  have hscale : ∀ n : Nat, (10 : ℚ) ^ (x.place - digits + n) =
      ((10 ^ n : ℕ) : ℚ) * 10 ^ (x.place - digits) := by
    intro n
    rw [zpow_add₀ (by norm_num), mul_comm, zpow_natCast, Nat.cast_pow, Nat.cast_ofNat]
  constructor
  · have hfirst : x.place - 1 = x.place - digits + (digits - 1 : ℕ) := by omega
    rw [hfirst, hscale] at hlower
    have hlt := lt_of_mul_lt_mul_right (hlower.trans_lt hup) hpow.le
    exact Nat.lt_succ_iff.mp (by exact_mod_cast hlt)
  · have hlast := hscale digits
    rw [sub_add_cancel] at hlast
    rw [hlast] at hupper
    have hlt := lt_of_mul_lt_mul_right (hdown.trans_lt hupper) hpow.le
    exact_mod_cast hlt

/-- A unit that leaves seventeen digits is shorter than the interval around the magnitude. -/
theorem pow_seventeen_lt (h : 0 < x.mantissa) :
    (10 : ℚ) ^ (x.place - (17 : Nat)) < (2 + x.gap) * 2 ^ (x.exponent - 2) := by
  have hquarter : (0 : ℚ) < 2 ^ (x.exponent - 2) := by positivity
  have hlower : 10 ^ 16 * (10 : ℚ) ^ (x.place - (17 : Nat)) ≤
      4 * x.mantissa * 2 ^ (x.exponent - 2) := by
    rw [four_mul_quarter]
    refine le_of_eq_of_le ?_ (place_spec h).1
    rw [← zpow_natCast, ← zpow_add₀ (by norm_num)]
    congr 1
    push_cast
    ring
  unfold gap
  split
  next hleast =>
    rw [hleast.1, leadingBit_eq] at hlower
    norm_num at hlower ⊢
    nlinarith
  next =>
    have hless : (x.mantissa : ℚ) < 2 ^ 53 := by exact_mod_cast x.mantissa_lt
    have hbound : 4 * (x.mantissa : ℚ) * 2 ^ (x.exponent - 2) <
        4 * 2 ^ 53 * 2 ^ (x.exponent - 2) := by
      apply mul_lt_mul_of_pos_right _ hquarter
      linarith
    norm_num at hlower hbound ⊢
    nlinarith

/-- An attempt with seventeen digits succeeds. -/
theorem attempt_seventeen_ne_none (h : 0 < x.mantissa) :
    x.attempt (x.place - (17 : Nat)) ≠ none := by
  have hnear : x.inside (x.place - (17 : Nat)) (x.units (x.place - (17 : Nat))) = true ∨
      x.inside (x.place - (17 : Nat)) (x.units (x.place - (17 : Nat)) + 1) = true := by
    rw [inside_iff h, inside_iff h]
    have hshort := pow_seventeen_lt h
    obtain ⟨hdown, hup⟩ := x.units_spec (x.place - (17 : Nat))
    rw [magnitude, ← four_mul_quarter] at hdown hup
    rw [Nat.cast_succ, add_mul, one_mul] at hup
    have hquarter : (0 : ℚ) < 2 ^ (x.exponent - 2) := by positivity
    have hgap : (0 : ℚ) < x.gap * 2 ^ (x.exponent - 2) := by
      apply mul_pos _ hquarter
      unfold gap
      split <;> norm_num
    -- if the lower neighbour is too low, the upper one is not too high
    rcases lt_or_ge ((4 * (x.mantissa : ℚ) - x.gap) * 2 ^ (x.exponent - 2))
      ((x.units (x.place - (17 : Nat)) : ℚ) * 10 ^ (x.place - (17 : Nat))) with hin | hout
    · exact Or.inl (Rounds.of_lt hin (by nlinarith))
    · refine Or.inr (Rounds.of_lt ?_ ?_) <;> rw [Nat.cast_succ, add_mul, one_mul] <;> nlinarith
  unfold attempt
  rcases hnear with hnear | hnear <;> rw [hnear] <;> split <;> simp_all

/-- A number between two neighbouring powers of ten has as many digits as their exponents say. -/
theorem length_toDigits {d digits : Nat} (hdigits : 0 < digits) (hlower : 10 ^ (digits - 1) ≤ d)
    (hupper : d < 10 ^ digits) : (Nat.toDigits 10 d).length = digits := by
  have hle := (Nat.length_toDigits_le_iff (by decide) hdigits).mpr hupper
  rcases Nat.eq_or_lt_of_le hle with heq | hlt
  · exact heq
  · have hpos : 0 < (Nat.toDigits 10 d).length := List.length_pos_of_ne_nil Nat.toDigits_ne_nil
    have hless := (Nat.length_toDigits_le_iff (k := digits - 1) (by decide) (by omega)).mp
      (Nat.le_sub_one_of_lt hlt)
    exact absurd hlower (not_le.mpr hless)

/-- The shortest digits of a positive magnitude stand for a value that rounds to it. -/
theorem shortest_spec (h : 0 < x.mantissa) : ∃ d place, x.shortest = (Nat.toDigits 10 d, place) ∧
    0 < d ∧ x.Rounds (d * 10 ^ (place - (Nat.toDigits 10 d).length)) := by
  rw [shortest_eq]
  split
  next digits d hfound =>
    obtain ⟨digits', hmem, hattempt⟩ := List.exists_of_findSome?_eq_some hfound
    obtain ⟨d', hd, heq⟩ := Option.map_eq_some_iff.mp hattempt
    obtain ⟨rfl, rfl⟩ : digits' = digits ∧ d' = d := Prod.mk.inj heq
    have hdigits : 0 < digits' := by
      rw [List.mem_range'] at hmem
      omega
    obtain ⟨hrounds, hnear⟩ := attempt_eq_some h hd
    obtain ⟨hlower, hupper⟩ : 10 ^ (digits' - 1) ≤ d' ∧ d' ≤ 10 ^ digits' := by
      have hbounds := units_bounds h hdigits
      omega
    have hpos : 0 < d' := lt_of_lt_of_le (by positivity) hlower
    split
    next hpow =>
      have hvalue : ((1 : ℕ) : ℚ) * 10 ^ (x.place + 1 - (Nat.toDigits 10 1).length) =
          (d' : ℚ) * 10 ^ (x.place - digits') := by
        change d' = 10 ^ digits' at hpow
        rw [hpow, Nat.cast_pow, Nat.cast_one, one_mul, ← zpow_natCast, Nat.cast_ofNat,
          ← zpow_add₀ (by norm_num)]
        congr 1
        change x.place + 1 - 1 = _
        omega
      refine ⟨1, x.place + 1, rfl, one_pos, ?_⟩
      rw [hvalue]
      exact hrounds
    next hpow =>
      refine ⟨d', x.place, rfl, hpos, ?_⟩
      rw [length_toDigits hdigits hlower (lt_of_le_of_ne hupper hpow)]
      exact hrounds
  next hnone =>
    have hfail := List.findSome?_eq_none_iff.mp hnone 17 (by decide)
    exact absurd (Option.map_eq_none_iff.mp hfail) (attempt_seventeen_ne_none h)

end Siteworks.Binary64
