import Siteworks.Json.Binary64

/-!
# Numbers with three decimals

A number in a colour is rounded to three decimals from its exact value, a tie going to the even
digit, and loses the zeros that end it.
-/

namespace Siteworks

/-- A finite double with exactly three decimals. -/
def Binary64.threeDecimals (x : Binary64) : List Char :=
  let (num, den) := x.quotient
  let thousandths := Binary64.roundDiv (1000 * num) den
  let decimals := Nat.toDigits 10 (thousandths % 1000)
  (if x.negative then ['-'] else []) ++ Nat.toDigits 10 (thousandths / 1000) ++ ['.']
    ++ List.replicate (3 - decimals.length) '0' ++ decimals

/-- Drop the zeros at the end of a decimal, and its point if nothing follows it; there is no
negative zero. -/
def trimDecimal (text : List Char) : List Char :=
  let kept := ((text.reverse.dropWhile (· = '0')).dropWhile (· = '.')).reverse
  if kept = ['-', '0'] then ['0'] else kept

/-- The text of a number in a colour. -/
def decimalText (x : Float) : List Char :=
  match Binary64.ofBits? x.toBits with
  | some finite => trimDecimal finite.threeDecimals
  | none => if x.isNaN then "NaN".toList else if x < 0 then "-inf".toList else "inf".toList

end Siteworks
