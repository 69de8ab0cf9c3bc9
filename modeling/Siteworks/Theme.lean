import Siteworks.FileSystem.Operations
import Siteworks.Font
import Siteworks.Layout.Edit
import Siteworks.Spec.Basic
import Siteworks.Stylesheet

/-!
# Applying a theme

The colour of a theme goes into the stylesheet of a site, its font into the layout and the
stylesheet. Both texts are read and changed in full before a file is written. The layout is written
if the theme has a font, the stylesheet if its text changes.
-/

namespace Siteworks

/-- A layout and a stylesheet with a new font: the old fonts leave the layout, the new one is
imported, declared and named in the class attribute of the body element. -/
def applyFont (font : Font) (layout stylesheet : List Char) :
    Except GenerationError (List Char × List Char) :=
  let document := ((Layout.parse layout).removeFontImports.removeFontFactories).insertFontImport
    font.importLine.toList
  match document.insertFontFactory font.binding.toList (font.factoryLines.map String.toList) with
  | .error e => .error e
  | .ok document =>
    match document.setRootClasses font.binding.toList with
    | .error e => .error e
    | .ok document =>
      match Stylesheet.applyFontVariable font.cssVariable.toList stylesheet with
      | .error e => .error e
      | .ok stylesheet => .ok (document.render, stylesheet)

namespace Theme

/-- The text of the file at a path. -/
def readText (fs : FileSystem) (path : Path) : Except GenerationError (List Char) :=
  match fs.readText path with
  | .error fault => .error (.io path fault)
  | .ok text => .ok text.toList

/-- Write a text to the file at a path. -/
def writeText (fs : FileSystem) (path : Path) (text : List Char) :
    Except GenerationError Unit × FileSystem :=
  match fs.write path (.ofText (String.ofList text)) with
  | .error fault => (.error (.io path fault), fs)
  | .ok fs => (.ok (), fs)

/-- Put the colour of a theme into a stylesheet. -/
def recolor (theme : Theme) (stylesheet : List Char) : Except GenerationError (List Char) :=
  match theme.primaryColor with
  | none => .ok stylesheet
  | some text =>
    match Palette.ofHex text with
    | .error e => .error e
    | .ok palette => Stylesheet.applyPalette palette stylesheet

/-- Write a stylesheet unless it is as it was. -/
def writeChanged (fs : FileSystem) (path : Path) (before after : List Char) :
    Except GenerationError Unit × FileSystem :=
  if after = before then (.ok (), fs) else writeText fs path after

/-- Apply a theme to the site below a root. -/
def apply (fs : FileSystem) (root : Path) (theme : Theme) :
    Except GenerationError Unit × FileSystem :=
  let stylesheetPath := root.join Stylesheet.file
  let layoutPath := root.join Layout.file
  match readText fs stylesheetPath with
  | .error e => (.error e, fs)
  | .ok current =>
    match recolor theme current with
    | .error e => (.error e, fs)
    | .ok colored =>
      match theme.font with
      | none => writeChanged fs stylesheetPath current colored
      | some name =>
        match Font.ofName name with
        | .error e => (.error e, fs)
        | .ok font =>
          match readText fs layoutPath with
          | .error e => (.error e, fs)
          | .ok layout =>
            match applyFont font layout colored with
            | .error e => (.error e, fs)
            | .ok (layout, stylesheet) =>
              match writeText fs layoutPath layout with
              | (.error e, fs) => (.error e, fs)
              | (.ok _, fs) => writeChanged fs stylesheetPath current stylesheet

end Theme

end Siteworks
