import Siteworks.Text.Blank
import Siteworks.Text.Cut
import Siteworks.Text.Word

/-!
# Layout documents

The root layout of a site as a list of blocks: imports of types, imports of fonts, declarations of
fonts, and plain lines. Blocks of the first three kinds are found by their lines; everything else is
carried along line by line. Parsing keeps every line of the text (`lines_parse`).
-/

namespace Siteworks

/-- A part of a layout. -/
inductive Block where
  /-- A line that imports types only. -/
  | typeImport (line : List Char)
  /-- A line that imports fonts. -/
  | fontImport (line : List Char)
  /-- The declaration of a font, bound to a constant. -/
  | fontFactory (binding : List Char) (lines : List (List Char))
  /-- Any other line. -/
  | plain (line : List Char)
  deriving DecidableEq, Repr

namespace Block

/-- The lines of a block. -/
def lines : Block → List (List Char)
  | .typeImport line | .fontImport line | .plain line => [line]
  | .fontFactory _ lines => lines

/-- The line of a block that consists of one by its kind. -/
def line? : Block → Option (List Char)
  | .typeImport line | .fontImport line | .plain line => some line
  | .fontFactory _ _ => none

/-- The block is a plain line with a property. -/
def isPlain (p : List Char → Bool) : Block → Bool
  | .plain line => p line
  | _ => false

/-- The block imports types. -/
def isTypeImport : Block → Bool
  | .typeImport _ => true
  | _ => false

/-- The block imports fonts. -/
def isFontImport : Block → Bool
  | .fontImport _ => true
  | _ => false

/-- The block declares a font. -/
def isFontFactory : Block → Bool
  | .fontFactory _ _ => true
  | _ => false

end Block

/-- A layout. -/
structure Layout where
  /-- The parts of the layout from top to bottom. -/
  blocks : List Block
  /-- The last line is ended by a line feed. -/
  endsLine : Bool
  deriving DecidableEq, Repr

namespace Layout

/-- The line without the carriage return that ends it, if one does. -/
def dropReturn (line : List Char) : List Char := (['\r'].isSuffixOf? line).getD line

/-- The lines among the pieces of a text between line feeds: what follows the last line feed is a
line unless it is empty, and keeps its carriage return. -/
def linesOfPieces : List (List Char) → List (List Char)
  | [] => []
  | [last] => if last.isEmpty then [] else [last]
  | piece :: rest => dropReturn piece :: linesOfPieces rest

/-- The lines of a text, without what ends them. -/
def linesOf (text : List Char) : List (List Char) :=
  linesOfPieces (text.splitOn '\n')

/-- The text after at least one character of a class and all that follow it, with those
characters. -/
def run? (inClass : Char → Bool) (text : List Char) : Option (List Char × List Char) :=
  match text.takeWhile inClass with
  | [] => none
  | taken => some (taken, text.dropWhile inClass)

/-- The constant that a line begins to declare by a call with an object: `const name = callee({`. -/
def factoryBinding? (line : List Char) : Option (List Char) := do
  let rest ← "const".toList.isPrefixOf? (Text.trimStart line)
  let (_, rest) ← run? Text.isBlank rest
  let (binding, rest) ← run? Text.isWord rest
  let rest ← ['='].isPrefixOf? (Text.trimStart rest)
  let (_, rest) ← run? Text.isWord (Text.trimStart rest)
  let rest ← "(\x7b".toList.isPrefixOf? rest
  if Text.allBlank rest then some binding else none

/-- The line ends a call with an object. -/
def closesCall (line : List Char) : Bool := Text.trim line = "\x7d);".toList

/-- The lines of a call configure a font. -/
def configuresFont (lines : List (List Char)) : Bool :=
  lines.any (Text.contains "variable:".toList)
    && lines.any fun line =>
      Text.contains "subsets:".toList line || Text.contains "display:".toList line

/-- The block of an import line, if the line is one that the layout tells apart. -/
def importBlock? (line : List Char) : Option Block :=
  let start := Text.trimStart line
  if "import type ".toList.isPrefixOf start then some (.typeImport line)
  else if "import ".toList.isPrefixOf start && Text.contains "next/font/".toList start then
    some (.fontImport line)
  else none

/-- The block of an import line is that line. -/
theorem lines_of_importBlock? {line : List Char} {block : Block}
    (found : importBlock? line = some block) : block.lines = [line] := by
  simp only [importBlock?] at found
  split at found
  · cases found; rfl
  · split at found
    · cases found; rfl
    · cases found

/-- The declaration that a line begins: its constant, and how many lines follow up to its end. -/
def factory? (line : List Char) (rest : List (List Char)) : Option (List Char × Nat) :=
  match factoryBinding? line with
  | none => none
  | some binding =>
    match rest.findIdx? closesCall with
    | none => none
    | some index => some (binding, index + 1)

/-- The blocks of a list of lines, after a number of lines that belong to the block before. A
declaration that configures no font is carried along line by line. -/
def blocksFrom : Nat → List (List Char) → List Block
  | _, [] => []
  | pending + 1, _ :: rest => blocksFrom pending rest
  | 0, line :: rest =>
    match importBlock? line with
    | some block => block :: blocksFrom 0 rest
    | none =>
      match factory? line rest with
      | none => .plain line :: blocksFrom 0 rest
      | some (binding, count) =>
        let lines := line :: rest.take count
        if configuresFont lines then .fontFactory binding lines :: blocksFrom count rest
        else lines.map .plain ++ blocksFrom count rest

/-- The blocks carry all lines but those that belong to the block before. -/
theorem flatMap_lines_blocksFrom (pending : Nat) (lines : List (List Char)) :
    (blocksFrom pending lines).flatMap Block.lines = lines.drop pending := by
  fun_induction blocksFrom pending lines with
  | case1 => simp
  | case2 pending line rest ih => simpa using ih
  | case3 line rest block found ih => simp [ih, lines_of_importBlock? found]
  | case4 line rest found none ih => simp [ih, Block.lines]
  | case5 line rest found binding count factory lines configures ih =>
    simp [ih, Block.lines, lines]
  | case6 line rest found binding count factory lines configures ih =>
    have plain (ls : List (List Char)) : (ls.map Block.plain).flatMap Block.lines = ls := by
      induction ls <;> simp_all [Block.lines]
    rw [List.flatMap_append, plain, ih]
    simp [lines]

/-- The layout that a text holds. -/
def parse (text : List Char) : Layout :=
  ⟨blocksFrom 0 (linesOf text), text.getLast? = some '\n'⟩

/-- The lines of a layout. -/
def lines (layout : Layout) : List (List Char) := layout.blocks.flatMap Block.lines

/-- The lines of a parsed text are the lines of the text. -/
theorem lines_parse (text : List Char) : (parse text).lines = linesOf text := by
  simpa [parse, lines] using flatMap_lines_blocksFrom 0 (linesOf text)

/-- The text of a layout. -/
def render (layout : Layout) : List Char :=
  ['\n'].intercalate layout.lines ++ if layout.endsLine then ['\n'] else []

end Layout

end Siteworks
