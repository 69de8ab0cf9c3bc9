import Siteworks.Error
import Siteworks.Layout.Basic

/-!
# Changing the font of a layout

The operations that take fonts out of a layout, put one in, and name it in the class attribute of
the body element. An operation that finds no place for its change fails and changes nothing.
-/

namespace Siteworks.Layout

/-- Where the layout of a site is, below the site's root. -/
def file : Path := ⟨["app", "layout.tsx"]⟩

/-- A layout that lacks what an operation needs. -/
def lacks {α : Type} (fault : TemplateFault) : Except GenerationError α :=
  .error (.template file fault)

/-- The class of the default font family. -/
def fontClass : List Char := "font-sans".toList

/-- The class for smooth text. -/
def smoothClass : List Char := "antialiased".toList

/-- Take out every import of fonts. -/
def removeFontImports (layout : Layout) : Layout :=
  { layout with blocks := layout.blocks.filter fun b => !b.isFontImport }

/-- Take out the declarations of fonts, and a blank line directly after one. -/
def withoutFactories (afterFactory : Bool) : List Block → List Block
  | [] => []
  | block :: rest =>
    if block.isFontFactory then withoutFactories true rest
    else if afterFactory && block.isPlain Text.allBlank then withoutFactories false rest
    else block :: withoutFactories false rest

/-- Take out every declaration of a font, together with one blank line that follows it. -/
def removeFontFactories (layout : Layout) : Layout :=
  { layout with blocks := withoutFactories false layout.blocks }

/-- Put a block behind the last one that imports types, or at the top. -/
def insertAfterTypeImports (block : Block) : List Block → List Block
  | [] => [block]
  | first :: rest =>
    if (first :: rest).any Block.isTypeImport then first :: insertAfterTypeImports block rest
    else block :: first :: rest

/-- Put in an import of fonts, behind the last import of types or at the top. -/
def insertFontImport (line : List Char) (layout : Layout) : Layout :=
  { layout with blocks := insertAfterTypeImports (.fontImport line) layout.blocks }

/-- The line exports the site's metadata. -/
def startsMetadata (line : List Char) : Bool :=
  "export const metadata".toList.isPrefixOf (Text.trimStart line)

/-- The line exports the layout function. -/
def startsLayoutFunction (line : List Char) : Bool :=
  "export default function".toList.isPrefixOf (Text.trimStart line)

/-- The line opens the body element. -/
def opensBody (line : List Char) : Bool := Text.contains "<body".toList line

/-- Where a font can be declared: at the export of metadata, or else of the layout function. -/
def factoryAnchor? (blocks : List Block) : Option Nat :=
  match blocks.findIdx? (Block.isPlain startsMetadata) with
  | some index => some index
  | none => blocks.findIdx? (Block.isPlain startsLayoutFunction)

/-- Put in the declaration of a font, and an empty line behind it. -/
def insertFontFactory (binding : List Char) (lines : List (List Char)) (layout : Layout) :
    Except GenerationError Layout :=
  match factoryAnchor? layout.blocks with
  | none => lacks .noFontAnchor
  | some index =>
    .ok { layout with
      blocks := layout.blocks.take index ++ [.fontFactory binding lines, .plain []]
        ++ layout.blocks.drop index }

/-- The value of a class attribute that starts the text, and what follows the attribute. The value
stands in double quotes, or in backquotes and braces. -/
def classValue? (text : List Char) : Option (List Char × List Char) :=
  match "className=".toList.isPrefixOf? text with
  | none => none
  | some rest =>
    match rest with
    | '"' :: rest =>
      match rest.dropWhile (· ≠ '"') with
      | '"' :: follow => some (rest.takeWhile (· ≠ '"'), follow)
      | _ => none
    | '\x7b' :: '\x60' :: rest =>
      match rest.dropWhile (· ≠ '\x60') with
      | '\x60' :: '\x7d' :: follow => some (rest.takeWhile (· ≠ '\x60'), follow)
      | _ => none
    | _ => none

/-- The first class attribute of a line: what stands before it, its value, and what follows it. -/
def classAttribute? : List Char → Option (List Char × List Char × List Char)
  | [] => none
  | c :: rest =>
    match classValue? (c :: rest) with
    | some (value, follow) => some ([], value, follow)
    | none =>
      match classAttribute? rest with
      | some (before, value, follow) => some (c :: before, value, follow)
      | none => none

/-- The class that a font's constant stands for. -/
def fontReference (binding : List Char) : List Char :=
  "$\x7b".toList ++ binding ++ ".variable\x7d".toList

/-- The class stands for some font's constant. -/
def isFontReference (token : List Char) : Bool :=
  match "$\x7b".toList.isPrefixOf? token with
  | none => false
  | some rest =>
    match run? Text.isWord rest with
    | none => false
    | some (_, rest) => rest = ".variable\x7d".toList

/-- The classes of the body element: the font, the default font family, those of the old ones that
name neither, and smooth text. -/
def rootClasses (binding value : List Char) : List (List Char) :=
  [fontReference binding, fontClass]
    ++ ((Text.words value).filter fun token =>
      !isFontReference token && token ≠ fontClass && token ≠ smoothClass)
    ++ [smoothClass]

/-- A class attribute that may refer to constants. -/
def classAttribute (classes : List (List Char)) : List Char :=
  "className=\x7b\x60".toList ++ [' '].intercalate classes ++ "\x60\x7d".toList

/-- Name a font in the first class attribute from the body element on. -/
def setRootClasses (binding : List Char) (layout : Layout) : Except GenerationError Layout :=
  match layout.blocks.findIdx? (Block.isPlain opensBody) with
  | none => lacks .noBody
  | some body =>
    let hasAttribute (block : Block) : Bool := (block.line?.bind classAttribute?).isSome
    match (layout.blocks.drop body).findIdx? hasAttribute with
    | none => lacks .noClassAttribute
    | some offset =>
      match layout.blocks.drop (body + offset) with
      | .plain line :: rest =>
        match classAttribute? line with
        | none => lacks .noClassAttribute
        | some (before, value, follow) =>
          let line := before ++ classAttribute (rootClasses binding value) ++ follow
          .ok { layout with blocks := layout.blocks.take (body + offset) ++ .plain line :: rest }
      | _ => lacks .classAttributeOnImport

end Siteworks.Layout
