import Siteworks.Error
import Siteworks.Text.Blank
import Siteworks.Text.Hexadecimal
import Siteworks.Text.Slice

/-!
# Colours in hexadecimal notation

Three or six hexadecimal digits, behind number signs that may be missing. In the short form each
digit stands for two. The two digits of a channel are cut out of the six at their byte positions.
-/

namespace Siteworks

/-- A colour by its three channels, each below 256. -/
structure Rgb where
  /-- The red channel. -/
  red : Nat
  /-- The green channel. -/
  green : Nat
  /-- The blue channel. -/
  blue : Nat
  deriving DecidableEq, Repr

namespace Rgb

/-- The intensity of a channel, between 0 and 1. -/
def intensity (channel : Nat) : Float := Float.ofNat channel / 255.0

/-- The intensities of the channels. -/
def intensities (color : Rgb) : List Float :=
  [intensity color.red, intensity color.green, intensity color.blue]

/-- What ends the reading of a colour. -/
inductive HexFault where
  /-- The text names no colour. -/
  | malformed
  /-- A channel would have to be cut out where there are no two digits. -/
  | outOfRange
  deriving DecidableEq, Repr

/-- The six digits that three or six stand for. -/
def sixDigits? (digits : List Char) : Option (List Char) :=
  if digits.all fun c => (Text.hexValue? c).isSome then
    match Text.byteLength digits with
    | 3 => some (digits.flatMap fun c => [c, c])
    | 6 => some digits
    | _ => none
  else none

/-- The channel at a position, counted from zero, among six digits. -/
def channelAt (digits : List Char) (index : Nat) : Except HexFault Nat :=
  match Text.slice? (2 * index) (2 * index + 2) digits with
  | none => .error .outOfRange
  | some pair =>
    match Text.hexByte? pair with
    | none => .error .malformed
    | some channel => .ok channel

/-- The colour of six digits. -/
def ofDigits (digits : List Char) : Except HexFault Rgb := do
  let red ← channelAt digits 0
  let green ← channelAt digits 1
  let blue ← channelAt digits 2
  return ⟨red, green, blue⟩

/-- Read the colour that a text names. -/
def readHex (text : String) : Except HexFault Rgb :=
  match sixDigits? ((Text.trim text.toList).dropWhile (· = '#')) with
  | none => .error .malformed
  | some digits => ofDigits digits

/-- The colour that a text names. -/
def ofHex? (text : String) : Option Rgb := (readHex text).toOption

/-- The colour that a text names, or the complaint about the text. -/
def ofHex (text : String) : Except GenerationError Rgb :=
  match ofHex? text with
  | some color => .ok color
  | none => .error (.invalidColor text)

end Rgb

end Siteworks
