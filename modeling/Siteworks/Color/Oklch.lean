import Siteworks.Color.Decimal
import Siteworks.Color.Hex

/-!
# Perceptual colours and palettes

A colour by lightness, chroma and hue. A colour in hexadecimal notation is taken through linear
light and the D65 tristimulus values to opponent axes, and from those to polar coordinates.
Colours that are grey but for rounding have neither chroma nor hue.
-/

namespace Siteworks

/-- A colour by lightness in [0, 1], chroma, and hue in degrees. -/
structure Oklch where
  /-- The lightness. -/
  lightness : Float
  /-- The chroma. -/
  chroma : Float
  /-- The hue in degrees. -/
  hue : Float

namespace Oklch

/-- The text of a colour in a stylesheet. -/
def text (color : Oklch) : List Char :=
  "oklch(".toList ++ decimalText color.lightness ++ [' '] ++ decimalText color.chroma ++ [' ']
    ++ decimalText color.hue ++ [')']

/-- The grey of greatest contrast for text on the colour. -/
def foreground (color : Oklch) : Oklch := ⟨if color.lightness < 0.5 then 0.985 else 0.145, 0, 0⟩

/-- The same hue and chroma, lighter, for dark backgrounds. -/
def darkVariant (color : Oklch) : Oklch :=
  let raised := color.lightness + 0.3
  ⟨if raised < 0.923 then raised else 0.923, color.chroma, color.hue⟩

/-- The linear intensity for an intensity. -/
def linear (c : Float) : Float :=
  if c ≤ 0.04045 then c / 12.92 else ((c + 0.055) / 1.055).pow 2.4

/-- The perceptual response to a relative tristimulus value. -/
def response (t : Float) : Float :=
  let delta : Float := 6.0 / 29.0
  if t > delta * delta * delta then t.cbrt else t / (3.0 * delta * delta) + 4.0 / 29.0

/-- The perceptual colour of a colour by channels. -/
def ofRgb (rgb : Rgb) : Oklch :=
  let r := linear (Rgb.intensity rgb.red)
  let g := linear (Rgb.intensity rgb.green)
  let b := linear (Rgb.intensity rgb.blue)
  let fx := response ((0.4124564 * r + 0.3575761 * g + 0.1804375 * b) / 0.95047)
  let fy := response ((0.2126729 * r + 0.7151522 * g + 0.0721750 * b) / 1.0)
  let fz := response ((0.0193339 * r + 0.1191920 * g + 0.9503041 * b) / 1.08883)
  let raw := (116.0 * fy - 16.0) / 100.0
  let lightness := if raw < 0.0 then 0.0 else if raw > 1.0 then 1.0 else raw
  let redGreen := 500.0 * (fx - fy) * 0.0025
  let blueYellow := 200.0 * (fy - fz) * 0.0025
  let chroma := (redGreen * redGreen + blueYellow * blueYellow).sqrt
  if chroma < 0.0001 then ⟨lightness, 0, 0⟩
  else
    let degrees := Float.atan2 blueYellow redGreen * (180.0 / 3.14159265358979323846264338327950288)
    let hue := if degrees < 0.0 then degrees + 360.0 else degrees
    ⟨lightness, chroma, if (hue * 1000.0).round ≥ 360000.0 then 0.0 else hue⟩

end Oklch

/-- The colours that follow from a main colour, for light and for dark mode. -/
structure Palette where
  /-- The main colour. -/
  light : Oklch
  /-- Text on the main colour. -/
  lightForeground : Oklch
  /-- The main colour in dark mode. -/
  dark : Oklch
  /-- Text on the main colour in dark mode. -/
  darkForeground : Oklch

namespace Palette

/-- The palette of a main colour. -/
def ofColor (light : Oklch) : Palette :=
  ⟨light, light.foreground, light.darkVariant, light.darkVariant.foreground⟩

/-- The palette of a main colour in hexadecimal notation. -/
def ofHex (text : String) : Except GenerationError Palette :=
  (Rgb.ofHex text).map fun rgb => ofColor (Oklch.ofRgb rgb)

end Palette

end Siteworks
