import Siteworks.Json.Value
import Siteworks.Text.Hexadecimal

/-!
# Reading JSON texts

One document surrounded by optional white space, by the letter of the standard. Nesting is
limited, a repeated member keeps its first place and takes its last value, and a number beyond the
range of a double is refused.

A number that is not a machine integer is read through its leading digits: as many as fit into 64
bits make the significand, which is rounded to a double and then scaled by a rounded power of ten.
-/

namespace Siteworks

namespace Number

/-- The greatest significand. -/
def maxSignificand : Nat := 0xFFFFFFFFFFFFFFFF

/-- Append digits to a significand while it fits; the digits left over are counted. -/
def appendWhole (significand : Nat) : List Nat → Nat × Nat
  | [] => (significand, 0)
  | d :: rest =>
    if maxSignificand < significand * 10 + d then (significand, rest.length + 1)
    else appendWhole (significand * 10 + d) rest

/-- Append digits after the point to a significand while it fits; the digits appended are counted,
the others have no influence. -/
def appendFraction (significand count : Nat) : List Nat → Nat × Nat
  | [] => (significand, count)
  | d :: rest =>
    if maxSignificand < significand * 10 + d then (significand, count)
    else appendFraction (significand * 10 + d) (count + 1) rest

/-- The rounded power of ten. -/
def powerOfTen (exponent : Nat) : Binary64 :=
  (Binary64.ofQuotient? false (Nat.pow 10 exponent) 1).getD (Binary64.zero false)

/-- Scale a double by a power of ten, one rounded step for every 308 decimal places; beyond the
range of doubles there is no result. -/
def scale (x : Binary64) : Nat → Int → Option Binary64
  | 0, _ => some x
  | steps + 1, exponent =>
    if exponent.natAbs ≤ 308 then
      if 0 ≤ exponent then x.mul? (powerOfTen exponent.natAbs)
      else x.div? (powerOfTen exponent.natAbs)
    else if x.mantissa = 0 then some x
    else if 0 ≤ exponent then none
    else (x.div? (powerOfTen 308)).bind fun y => scale y steps (exponent + 308)

/-- The double for a significand and a decimal exponent. -/
def ofDecimal (negative : Bool) (significand : Nat) (exponent : Int) : Option Number :=
  (Binary64.ofQuotient? negative significand 1).bind fun x =>
    (scale x (exponent.natAbs / 308 + 1) exponent).map .real

/-- The number written with these digits before the point, after it, and this exponent. -/
def ofParts (negative : Bool) (whole : List Nat) (fraction : Option (List Nat))
    (exponent : Option Int) : Option Number :=
  let (significand, dropped) := appendWhole 0 whole
  match fraction, exponent with
  | none, none =>
    if dropped ≠ 0 then ofDecimal negative significand dropped
    else if !negative then some (.integer significand)
    else if significand = 0 ∨ 0x8000000000000000 < significand then ofDecimal true significand 0
    else some (.integer (-(significand : Int)))
  | none, some e => ofDecimal negative significand (dropped + e)
  | some digits, e =>
    let (significand, count) := appendFraction significand 0 digits
    ofDecimal negative significand (dropped - (count : Int) + e.getD 0)

/-- The double nearest to a number. -/
def toBinary64 : Number → Binary64
  | .integer n =>
    (Binary64.ofQuotient? (decide (n < 0)) n.natAbs 1).getD (Binary64.zero (decide (n < 0)))
  | .real x => x

/-- The machine's double for a number. -/
def toFloat (n : Number) : Float := Float.ofBits n.toBinary64.bits

end Number

namespace Json

/-- White space between tokens. -/
def isSpace (c : Char) : Bool := c = ' ' || c = '\t' || c = '\n' || c = '\r'

/-- The text from its first token on. -/
def skipSpace (cs : List Char) : List Char := cs.dropWhile isSpace

/-- The values of the leading decimal digits, and the rest. -/
def takeDigits (cs : List Char) : List Nat × List Char :=
  ((cs.takeWhile Char.isDigit).map fun c => c.toNat - '0'.toNat, cs.dropWhile Char.isDigit)

/-- The digits after a point, if there is a point. -/
def readFraction : List Char → Option (Option (List Nat) × List Char)
  | '.' :: cs =>
    match takeDigits cs with
    | ([], _) => none
    | (digits, rest) => some (some digits, rest)
  | cs => some (none, cs)

/-- The exponent after its mark, if there is a mark. -/
def readExponent (cs : List Char) : Option (Option Int × List Char) :=
  match cs with
  | c :: cs' =>
    if c = 'e' ∨ c = 'E' then
      let (sign, cs') : Int × List Char := match cs' with
        | '+' :: r => (1, r)
        | '-' :: r => (-1, r)
        | r => (1, r)
      match takeDigits cs' with
      | ([], _) => none
      | (digits, rest) => some (some (sign * (digits.foldl (fun n d => n * 10 + d) 0 : Nat)), rest)
    else some (none, cs)
  | [] => some (none, [])

/-- A number: an optional sign, digits without a superfluous zero, fraction and exponent. -/
def readNumber (cs : List Char) : Option (Json × List Char) :=
  let (negative, cs) := match cs with
    | '-' :: r => (true, r)
    | r => (false, r)
  match takeDigits cs with
  | ([], _) | (0 :: _ :: _, _) => none
  | (whole, rest) =>
    (readFraction rest).bind fun (fraction, rest) =>
      (readExponent rest).bind fun (exponent, rest) =>
        (Number.ofParts negative whole fraction exponent).map fun n => (.number n, rest)

/-- The value of four hexadecimal digits. -/
def hexUnit? (a b c d : Char) : Option Nat := do
  return (← Text.hexValue? a) * 4096 + (← Text.hexValue? b) * 256 + (← Text.hexValue? c) * 16
    + (← Text.hexValue? d)

/-- The character for one code unit, or for a unit that the next escape may complete. -/
inductive Escape where
  /-- A character of its own. -/
  | char (c : Char)
  /-- The first half of a pair. -/
  | high (unit : Nat)

/-- What a code unit stands for; a second half by itself stands for nothing. -/
def Escape.ofUnit? (unit : Nat) : Option Escape :=
  if 0xD800 ≤ unit ∧ unit < 0xDC00 then some (.high unit)
  else if 0xDC00 ≤ unit ∧ unit < 0xE000 then none
  else some (.char (Char.ofNat unit))

/-- The character that a one-letter escape stands for. -/
def simpleEscape? (c : Char) : Option Char :=
  match c with
  | '"' => some '"'
  | '\\' => some '\\'
  | '/' => some '/'
  | 'b' => some '\x08'
  | 'f' => some '\x0c'
  | 'n' => some '\n'
  | 'r' => some '\r'
  | 't' => some '\t'
  | _ => none

/-- The characters of a string up to its closing quote, behind those already read in reverse. -/
def readText (acc : List Char) : List Char → Option (List Char × List Char)
  | [] => none
  | '"' :: rest => some (acc.reverse, rest)
  | '\\' :: 'u' :: a :: b :: c :: d :: rest =>
    match (hexUnit? a b c d).bind Escape.ofUnit? with
    | none => none
    | some (.char x) => readText (x :: acc) rest
    | some (.high high) =>
      match rest with
      | '\\' :: 'u' :: a :: b :: c :: d :: rest =>
        match hexUnit? a b c d with
        | none => none
        | some low =>
          if 0xDC00 ≤ low ∧ low < 0xE000 then
            readText (Char.ofNat (0x10000 + (high - 0xD800) * 0x400 + (low - 0xDC00)) :: acc) rest
          else none
      | _ => none
  | '\\' :: c :: rest =>
    match simpleEscape? c with
    | none => none
    | some x => readText (x :: acc) rest
  | c :: rest => if c.toNat < 0x20 then none else readText (c :: acc) rest

mutual

/-- One value at the start of the text, nested at most `depth` levels. -/
def readValue : Nat → Nat → List Char → Option (Json × List Char)
  | 0, _, _ => none
  | fuel + 1, depth, cs =>
    match cs with
    | 'n' :: 'u' :: 'l' :: 'l' :: rest => some (.null, rest)
    | 't' :: 'r' :: 'u' :: 'e' :: rest => some (.bool true, rest)
    | 'f' :: 'a' :: 'l' :: 's' :: 'e' :: rest => some (.bool false, rest)
    | '"' :: rest => (readText [] rest).map fun (text, rest) => (.string (String.ofList text), rest)
    | '[' :: rest =>
      if depth = 0 then none
      else match skipSpace rest with
        | ']' :: rest => some (.array [], rest)
        | rest => (readItems fuel (depth - 1) rest).map fun (items, rest) => (.array items, rest)
    | '\x7b' :: rest =>
      if depth = 0 then none
      else match skipSpace rest with
        | '\x7d' :: rest => some (.object [], rest)
        | rest => (readMembers fuel (depth - 1) [] rest).map
          fun (members, rest) => (.object members, rest)
    | _ => readNumber cs

/-- The items of an array from the first one on, up to the closing bracket. -/
def readItems : Nat → Nat → List Char → Option (List Json × List Char)
  | 0, _, _ => none
  | fuel + 1, depth, cs =>
    match readValue fuel depth (skipSpace cs) with
    | none => none
    | some (item, rest) =>
      match skipSpace rest with
      | ',' :: rest => (readItems fuel depth rest).map fun (items, rest) => (item :: items, rest)
      | ']' :: rest => some ([item], rest)
      | _ => none

/-- The members of an object from the first one on, up to the closing brace, added to those read. -/
def readMembers : Nat → Nat → List (String × Json) → List Char →
    Option (List (String × Json) × List Char)
  | 0, _, _, _ => none
  | fuel + 1, depth, members, cs =>
    match skipSpace cs with
    | '"' :: rest =>
      match readText [] rest with
      | none => none
      | some (key, rest) =>
        match skipSpace rest with
        | ':' :: rest =>
          match readValue fuel depth (skipSpace rest) with
          | none => none
          | some (value, rest) =>
            let members := assign (String.ofList key) value members
            match skipSpace rest with
            | ',' :: rest => readMembers fuel depth members rest
            | '\x7d' :: rest => some (members, rest)
            | _ => none
        | _ => none
    | _ => none

end

/-- The deepest nesting of a document. -/
def maxDepth : Nat := 127

/-- The document that makes up a text. -/
def parse? (text : String) (depth : Nat := maxDepth) : Option Json :=
  let cs := text.toList
  match readValue (2 * cs.length + 2) depth (skipSpace cs) with
  | none => none
  | some (value, rest) => if (skipSpace rest).isEmpty then some value else none

end Json

end Siteworks
