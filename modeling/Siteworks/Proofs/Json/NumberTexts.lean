import Mathlib
import Siteworks.Json.Reader
import Siteworks.Proofs.Json.Numerals

/-!
# Numbers read from their texts

The text of a number is read up to its end, if it goes on with what may follow an entry: a comma, a
closing bracket or white space. An integer of a machine word is read as itself. A double is read from
its digits, which need not make the same double again.
-/

namespace Siteworks

/-- The values of digits. -/
def digitValues (digits : List Char) : List Nat := digits.map fun c => c.toNat - '0'.toNat

/-- The number that a numeral is read as. -/
def Numeral.read? (n : Numeral) : Option Number :=
  match digitValues n.whole with
  | [] | 0 :: _ :: _ => none
  | whole => Number.ofParts n.negative whole
      (if n.fraction.isEmpty then none else some (digitValues n.fraction)) n.exponent

namespace Json

/-- The text goes on with what may follow an entry, if it goes on. -/
def Ended (rest : List Char) : Prop :=
  ∀ c ∈ rest.head?, c = ',' ∨ c = ']' ∨ c = '\x7d' ∨ isSpace c = true

/-- It need not go on. -/
theorem ended_nil : Ended [] := nofun

/-- A text that goes on behind a number does so with none of its characters. -/
theorem Ended.head?_ne {rest : List Char} (h : Ended rest) :
    ∀ c ∈ rest.head?, c.isDigit = false ∧ c ≠ '.' ∧ c ≠ 'e' ∧ c ≠ 'E' := by
  intro c hc
  rcases h c hc with rfl | rfl | rfl | hspace
  iterate 3 decide
  simp only [isSpace, Bool.or_eq_true, decide_eq_true_eq] at hspace
  rcases hspace with ((rfl | rfl) | rfl) | rfl <;> decide

/-- Digits are taken up to the first character that is none. -/
theorem takeDigits_append {digits rest : List Char} (hdigits : ∀ c ∈ digits, c.isDigit = true)
    (hrest : ∀ c ∈ rest.head?, c.isDigit = false) :
    takeDigits (digits ++ rest) = (digitValues digits, rest) := by
  have hnone : rest.takeWhile Char.isDigit = [] ∧ rest.dropWhile Char.isDigit = rest := by
    cases rest with
    | nil => exact ⟨rfl, rfl⟩
    | cons c cs => simp [hrest c rfl]
  rw [takeDigits, List.takeWhile_append_of_pos hdigits, List.dropWhile_append_of_pos hdigits,
    hnone.1, hnone.2, List.append_nil, digitValues]

/-- The values of a number's digits stand for the number. -/
theorem foldl_digitValues (n : Nat) :
    (digitValues (Nat.toDigits 10 n)).foldl (fun n d => n * 10 + d) 0 = n := by
  rw [digitValues, List.foldl_map]
  simpa only [Nat.ofDigitChars, Nat.mul_comm 10] using Nat.ofDigitChars_ten_toDigits (n := n)

/-- Something stands for what is not empty. -/
theorem exists_digitValues_eq_cons {digits : List Char} (h : digits ≠ []) :
    ∃ d ds, digitValues digits = d :: ds :=
  List.exists_cons_of_ne_nil (by simpa [digitValues] using h)

variable {rest : List Char}

/-- An exponent is read from its text. -/
theorem readExponent_mark (h : Ended rest) (e : Option Int) :
    readExponent (Numeral.mark e ++ rest) = some (e, rest) := by
  cases e with
  | none =>
    cases rest with
    | nil => rfl
    | cons c cs =>
      obtain ⟨-, -, hlower, hupper⟩ := h.head?_ne c rfl
      simp [Numeral.mark, readExponent, hlower, hupper]
  | some e =>
    have htake : takeDigits (Nat.toDigits 10 e.natAbs ++ rest) =
        (digitValues (Nat.toDigits 10 e.natAbs), rest) :=
      takeDigits_append (fun c hc => Nat.isDigit_of_mem_toDigits (by decide) (by decide) hc)
        fun c hc => (h.head?_ne c hc).1
    have hvalue := foldl_digitValues e.natAbs
    obtain ⟨d, ds, hdigits⟩ :=
      exists_digitValues_eq_cons (Nat.toDigits_ne_nil (b := 10) (n := e.natAbs))
    rw [hdigits] at htake hvalue
    by_cases hsign : e < 0
    · simp only [Numeral.mark, hsign, if_true, List.cons_append, readExponent, true_or, htake, hvalue]
      congr 3
      omega
    · simp only [Numeral.mark, hsign, if_false, List.cons_append, readExponent, if_true, true_or,
        htake, hvalue]
      congr 3
      omega

/-- An exponent or the end behind digits is no digit and no point. -/
theorem head?_mark_append (h : Ended rest) (e : Option Int) :
    ∀ c ∈ (Numeral.mark e ++ rest).head?, c.isDigit = false ∧ c ≠ '.' := by
  intro c hc
  cases e with
  | none => exact ⟨(h.head?_ne c hc).1, (h.head?_ne c hc).2.1⟩
  | some e =>
    obtain rfl : 'e' = c := Option.some_inj.mp hc
    decide

/-- Without a point there is no fraction. -/
theorem readFraction_of_ne {cs : List Char} (h : ∀ c ∈ cs.head?, c ≠ '.') :
    readFraction cs = some (none, cs) := by
  unfold readFraction
  split
  next => exact absurd rfl (h '.' rfl)
  · rfl

/-- A fraction is read from its digits. -/
theorem readFraction_tail (h : Ended rest) (n : Numeral) : readFraction (n.tail ++ rest) =
    some (if n.fraction.isEmpty then none else some (digitValues n.fraction),
      Numeral.mark n.exponent ++ rest) := by
  have hmark := head?_mark_append h n.exponent
  unfold Numeral.tail
  split
  next hempty => exact readFraction_of_ne fun c hc => (hmark c hc).2
  next hfilled =>
    obtain ⟨d, ds, hdigits⟩ := exists_digitValues_eq_cons (by simpa using hfilled)
    have htake := takeDigits_append n.fraction_digits fun c hc => (hmark c hc).1
    rw [hdigits] at htake ⊢
    rw [List.cons_append, List.cons_append, List.append_assoc, readFraction, htake]

/-- A number behind its sign, if it has one. -/
def readUnsigned (negative : Bool) (cs : List Char) : Option (Json × List Char) :=
  match takeDigits cs with
  | ([], _) | (0 :: _ :: _, _) => none
  | (whole, rest) =>
    (readFraction rest).bind fun (fraction, rest) =>
      (readExponent rest).bind fun (exponent, rest) =>
        (Number.ofParts negative whole fraction exponent).map fun n => (.number n, rest)

/-- The sign of a number comes first. -/
theorem readNumber_minus (cs : List Char) : readNumber ('-' :: cs) = readUnsigned true cs := rfl

/-- A number that does not begin with a sign has none. -/
theorem readNumber_of_ne {c : Char} (h : c ≠ '-') (cs : List Char) :
    readNumber (c :: cs) = readUnsigned false (c :: cs) := by
  unfold readNumber
  split
  next heq =>
    split at heq
    next hminus => exact absurd (List.cons.inj hminus).1 h
    · cases heq
      rfl

/-- A number is read from its numeral. -/
theorem readNumber_text (h : Ended rest) (n : Numeral) :
    readNumber (n.text ++ rest) = n.read?.map fun number => (.number number, rest) := by
  have htail : ∀ c ∈ (n.tail ++ rest).head?, c.isDigit = false := by
    intro c hc
    unfold Numeral.tail at hc
    split at hc
    · exact (head?_mark_append h n.exponent c hc).1
    · obtain rfl : '.' = c := Option.some_inj.mp hc
      decide
  have hsign : readNumber (n.text ++ rest) =
      readUnsigned n.negative (n.whole ++ (n.tail ++ rest)) := by
    obtain ⟨c, cs, hwhole, hdigit⟩ := n.exists_whole_eq_cons
    have hminus : c ≠ '-' := by
      rintro rfl
      exact absurd hdigit (by decide)
    cases hnegative : n.negative with
    | true => simpa [Numeral.text, hnegative] using readNumber_minus _
    | false => simpa [Numeral.text, hnegative, hwhole] using readNumber_of_ne hminus _
  have hdecimal : ∀ whole, ((readFraction (n.tail ++ rest)).bind fun (fraction, rest) =>
      (readExponent rest).bind fun (exponent, rest) =>
        (Number.ofParts n.negative whole fraction exponent).map fun n => (Json.number n, rest)) =
      (Number.ofParts n.negative whole
        (if n.fraction.isEmpty then none else some (digitValues n.fraction)) n.exponent).map
          fun number => (.number number, rest) := by
    intro whole
    rw [readFraction_tail h, Option.bind_some]
    simp only [readExponent_mark h, Option.bind_some]
  rw [hsign, readUnsigned, takeDigits_append n.whole_digits htail, Numeral.read?]
  -- A superfluous zero in front is refused whatever follows.
  rcases digitValues n.whole with _ | ⟨_ | d, _ | ⟨d', ds⟩⟩
  · rfl
  · exact hdecimal [0]
  · rfl
  · exact hdecimal [d + 1]
  · exact hdecimal ((d + 1) :: d' :: ds)

/-- A text that begins like a number is read as one. -/
theorem readValue_of_lead {c : Char} (h : c.isDigit = true ∨ c = '-') (fuel depth : Nat)
    (cs : List Char) : readValue (fuel + 1) depth (c :: cs) = readNumber (c :: cs) := by
  have hne : ∀ d : Char, d.isDigit = false → d ≠ '-' → c ≠ d := by
    rintro d hdigit hminus rfl
    rcases h with h | h
    · exact absurd (hdigit.symm.trans h) Bool.false_ne_true
    · exact hminus h
  rw [readValue]
  all_goals
    intro rest heq
    exact hne _ (by decide) (by decide) (List.cons.inj heq).1

end Json

/-- What is appended to a number makes it no smaller. -/
theorem le_ofDigitChars (digits : List Char) (n : Nat) : n ≤ Nat.ofDigitChars 10 digits n := by
  induction digits generalizing n with
  | nil => exact le_rfl
  | cons c cs ih =>
    rw [Nat.ofDigitChars_cons]
    exact le_trans (by omega) (ih _)

/-- Digits that fit into the significand are all appended to it. -/
theorem Number.appendWhole_digitValues {digits : List Char} {n : Nat}
    (h : Nat.ofDigitChars 10 digits n ≤ maxSignificand) :
    appendWhole n (digitValues digits) = (Nat.ofDigitChars 10 digits n, 0) := by
  induction digits generalizing n with
  | nil => rfl
  | cons c cs ih =>
    rw [Nat.ofDigitChars_cons, Nat.mul_comm] at h ⊢
    have hfits := (le_ofDigitChars cs _).trans h
    rw [digitValues, List.map_cons, appendWhole, if_neg (by omega)]
    exact ih h

/-- A positive number does not begin with a zero. -/
theorem exists_digitValues_toDigits {n : Nat} (h : n ≠ 0) :
    ∃ d ds, digitValues (Nat.toDigits 10 n) = (d + 1) :: ds := by
  induction n using Nat.strongRecOn with
  | ind n ih =>
    rw [Nat.toDigits_eq_if (by decide)]
    split
    next hsmall =>
      have hvalue : ∀ n < 10, (Nat.digitChar n).toNat - '0'.toNat = n := by decide
      refine ⟨n - 1, [], ?_⟩
      rw [digitValues, List.map_singleton, hvalue n hsmall, Nat.sub_add_cancel (by omega)]
    next hlarge =>
      obtain ⟨d, ds, hfront⟩ := ih (n / 10) (by omega) (by omega)
      rw [digitValues] at hfront
      exact ⟨d, _, by rw [digitValues, List.map_append, hfront, List.cons_append]⟩

/-- An integer of a machine word is read from its numeral. -/
theorem Number.read?_integerNumeral {k : Int} (hlower : -2 ^ 63 ≤ k) (hupper : k < 2 ^ 64) :
    (integerNumeral k).read? = some (.integer k) := by
  by_cases hzero : k = 0
  · subst hzero
    decide
  · obtain ⟨d, ds, hdigits⟩ := exists_digitValues_toDigits (n := k.natAbs) (by omega)
    have hvalue : Nat.ofDigitChars 10 (Nat.toDigits 10 k.natAbs) 0 = k.natAbs :=
      Nat.ofDigitChars_ten_toDigits
    have hfits : Nat.ofDigitChars 10 (Nat.toDigits 10 k.natAbs) 0 ≤ maxSignificand := by
      rw [hvalue, maxSignificand]
      omega
    have happend := appendWhole_digitValues hfits
    rw [hvalue, hdigits] at happend
    have hread : (integerNumeral k).read? = ofParts (decide (k < 0)) ((d + 1) :: ds) none none := by
      simp [Numeral.read?, integerNumeral, hdigits]
    rw [hread, ofParts, happend]
    by_cases hsign : k < 0
    · have hsmall : ¬ (k = 0 ∨ 9223372036854775808 < k.natAbs) := by omega
      simp [hsign, hsmall, abs_of_neg hsign]
    · simp [hsign]
      omega

end Siteworks
