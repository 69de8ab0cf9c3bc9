import Siteworks.Error
import Siteworks.Text.Blank

/-!
# Fonts

What the code of a site calls a font: the identifier it is imported under, the constant that holds
it, and the stylesheet variable that carries it. All three follow from the font's name, which is
made of ASCII letters, digits and spaces and starts with a letter.
-/

namespace Siteworks

/-- A font under the names that code knows it by. -/
structure Font where
  /-- The name that people use. -/
  name : String
  /-- The identifier of its import. -/
  ident : String
  /-- The constant that holds it. -/
  binding : String
  /-- The stylesheet variable that carries it. -/
  cssVariable : String
  deriving DecidableEq, Repr

namespace Font

/-- The name consists of ASCII letters, digits and spaces and starts with a letter. -/
def isWellFormed (name : List Char) : Bool :=
  match name with
  | [] => false
  | first :: _ => first.isAlpha && name.all fun c => c.isAlphanum || c = ' '

/-- The case of the last letter of a word that is being cut. -/
inductive LetterCase where
  | none
  | lower
  | upper
  deriving DecidableEq

/-- The case after a character: a digit leaves it as it was. -/
def LetterCase.after (state : LetterCase) (c : Char) : LetterCase :=
  if c.isLower then .lower else if c.isUpper then .upper else state

/-- Cut a run of letters and digits at its changes of case: between a lower-case letter and an
upper-case one, and before the last of several upper-case letters if a lower-case one follows. The
word begun so far is kept in reverse. -/
def cutCase (state : LetterCase) (begun : List Char) : List Char → List (List Char)
  | [] => if begun.isEmpty then [] else [begun.reverse]
  | [c] => [(c :: begun).reverse]
  | c :: next :: rest =>
    if state.after c = .lower && next.isUpper then
      (c :: begun).reverse :: cutCase .none [] (next :: rest)
    else if state = .upper && c.isUpper && next.isLower then
      begun.reverse :: cutCase .none [c] (next :: rest)
    else cutCase (state.after c) (c :: begun) (next :: rest)

/-- The words of a name, cut at everything that is no letter or digit and at changes of case. -/
def caseWords (name : List Char) : List (List Char) :=
  (Text.runs Char.isAlphanum name).flatMap (cutCase .none [])

/-- A word with its first letter in upper case and the others in lower case. -/
def capitalize : List Char → List Char
  | [] => []
  | first :: rest => first.toUpper :: rest.map Char.toLower

/-- The words run together, each but the first capitalized. -/
def camelCase : List (List Char) → List Char
  | [] => []
  | first :: rest => first.map Char.toLower ++ rest.flatMap capitalize

/-- The words in lower case, joined by hyphens. -/
def kebabCase (words : List (List Char)) : List Char :=
  ['-'].intercalate (words.map fun word => word.map Char.toLower)

/-- The font of a name, if the name is well-formed. -/
def ofName (text : String) : Except GenerationError Font :=
  let name := Text.trim text.toList
  if isWellFormed name then
    let ident := ['_'].intercalate (Text.words name)
    .ok {
      name := String.ofList name
      ident := String.ofList ident
      binding := String.ofList (camelCase (caseWords ident))
      cssVariable := String.ofList ("--font-".toList ++ kebabCase (caseWords name)) }
  else .error (.invalidFont (String.ofList name))

/-- The weight that every font is loaded with. -/
def weight : String := "400"

/-- The line that imports the font. -/
def importLine (font : Font) : String :=
  "import \x7b " ++ font.ident ++ " \x7d from \"next/font/google\";"

/-- The lines that declare the font's constant. -/
def factoryLines (font : Font) : List String :=
  ["const " ++ font.binding ++ " = " ++ font.ident ++ "(\x7b",
   "  variable: \"" ++ font.cssVariable ++ "\",",
   "  subsets: [\"latin\"],",
   "  weight: \"" ++ weight ++ "\",",
   "\x7d);"]

end Font

end Siteworks
