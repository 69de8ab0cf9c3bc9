import Siteworks.Color.Oklch
import Siteworks.Text.Blank
import Siteworks.Text.Cut

/-!
# Declarations in a stylesheet

Seen through the name of a property, a stylesheet is a sequence of single characters and of
declarations of that property, each from its name to its semicolon. A declaration is found at the
start of the text, or behind white space, a semicolon or an opening brace that belongs to no earlier
declaration. The pieces of a stylesheet are the stylesheet (`flatMap_text_pieces`); setting a
property gives every declaration found a new value and keeps every other piece.
-/

namespace Siteworks.Stylesheet

/-- Where the stylesheet of a site is, below the site's root. -/
def file : Path := ⟨["app", "globals.css"]⟩

/-- A stylesheet that lacks what an operation needs. -/
def lacks {α : Type} (fault : TemplateFault) : Except GenerationError α :=
  .error (.template file fault)

/-- A part of a stylesheet seen through the name of a property. -/
inductive Piece where
  /-- A character outside all declarations of the property. -/
  | char (c : Char)
  /-- A declaration: the name, the colon and the white space around it, then the value without its
  semicolon. -/
  | declaration (head value : List Char)
  deriving DecidableEq, Repr

namespace Piece

/-- The text of a piece. -/
def text : Piece → List Char
  | .char c => [c]
  | .declaration head value => head ++ value ++ [';']

/-- The piece with a new value, if it is a declaration. -/
def setValue (value : List Char) : Piece → Piece
  | .char c => .char c
  | .declaration head _ => .declaration head value

/-- The piece is a declaration. -/
def isDeclaration : Piece → Bool
  | .char _ => false
  | .declaration _ _ => true

end Piece

/-- A declaration may follow the character. -/
def separates (c : Char) : Bool := Text.isBlank c || c = ';' || c = '\x7b'

/-- The white space that starts a text, and the rest. -/
def takeBlank (text : List Char) : List Char × List Char :=
  (text.takeWhile Text.isBlank, text.dropWhile Text.isBlank)

/-- The declaration of a property that starts the text, as everything up to the value, and the
value. -/
def declaration? (name text : List Char) : Option (List Char × List Char) := do
  let rest ← name.isPrefixOf? text
  let (space, rest) := takeBlank rest
  let rest ← [':'].isPrefixOf? rest
  let (space', rest) := takeBlank rest
  if ';' ∈ rest then some (name ++ space ++ [':'] ++ space', rest.takeWhile (· ≠ ';')) else none

/-- A declaration that is found is how the text begins. -/
theorem exists_of_declaration? {name text head value : List Char}
    (found : declaration? name text = some (head, value)) :
    ∃ rest, text = (Piece.declaration head value).text ++ rest := by
  simp only [declaration?, takeBlank, Option.bind_eq_bind, Option.bind_eq_some_iff,
    Text.isPrefixOf?_eq_some_iff] at found
  obtain ⟨follow, rfl, inside, follow_eq, found⟩ := found
  obtain ⟨closed, found⟩ := Option.ite_none_right_eq_some.1 found
  cases found
  obtain ⟨rest, inside_eq⟩ := Text.exists_eq_takeWhile_append closed
  refine ⟨rest, ?_⟩
  calc name ++ follow
      = name ++ (follow.takeWhile Text.isBlank ++ ([':'] ++ (inside.takeWhile Text.isBlank
          ++ ((inside.dropWhile Text.isBlank).takeWhile (· ≠ ';') ++ ';' :: rest)))) := by
        rw [← inside_eq, List.takeWhile_append_dropWhile, ← follow_eq,
          List.takeWhile_append_dropWhile]
    _ = _ := by simp [Piece.text]

/-- The pieces of a text, after a number of characters that belong to the declaration before. -/
def piecesFrom (name : List Char) : Nat → List Char → List Piece
  | _, [] => []
  | pending + 1, _ :: rest => piecesFrom name pending rest
  | 0, c :: rest =>
    match if separates c then declaration? name rest else none with
    | some (head, value) =>
      .char c :: .declaration head value :: piecesFrom name (head.length + value.length + 1) rest
    | none => .char c :: piecesFrom name 0 rest

/-- The pieces of a stylesheet seen through the name of a property. -/
def pieces (name text : List Char) : List Piece :=
  match declaration? name text with
  | some (head, value) =>
    .declaration head value :: piecesFrom name (head.length + value.length + 1) text
  | none => piecesFrom name 0 text

/-- The pieces carry all characters but those that belong to the declaration before. -/
theorem flatMap_text_piecesFrom (name : List Char) (pending : Nat) (text : List Char) :
    (piecesFrom name pending text).flatMap Piece.text = text.drop pending := by
  fun_induction piecesFrom name pending text with
  | case1 => simp
  | case2 pending c rest ih => simpa using ih
  | case3 c rest head value found ih =>
    split at found
    · obtain ⟨follow, rfl⟩ := exists_of_declaration? found
      rw [List.flatMap_cons, List.flatMap_cons, ih,
        List.drop_left' (by simp [Piece.text, Nat.add_assoc])]
      rfl
    · cases found
  | case4 c rest found ih => simpa [Piece.text] using ih

/-- The pieces of a stylesheet are the stylesheet. -/
theorem flatMap_text_pieces (name text : List Char) :
    (pieces name text).flatMap Piece.text = text := by
  unfold pieces
  split
  · next head value found =>
    obtain ⟨follow, rfl⟩ := exists_of_declaration? found
    rw [List.flatMap_cons, flatMap_text_piecesFrom,
      List.drop_left' (by simp [Piece.text, Nat.add_assoc])]
  · exact flatMap_text_piecesFrom name 0 text

/-- The stylesheet declares the property. -/
def declares (name text : List Char) : Bool := (pieces name text).any Piece.isDeclaration

/-- The stylesheet with a new value in every declaration of the property. -/
def setProperty (name value text : List Char) : List Char :=
  (pieces name text).flatMap fun piece => (piece.setValue value).text

/-- A stylesheet cut at the block of a selector: the text up to the opening brace, the body of the
block, and the text from the closing brace on. -/
structure Scope where
  /-- The text up to the opening brace. -/
  before : List Char
  /-- The text between the braces. -/
  body : List Char
  /-- The text from the closing brace on. -/
  after : List Char
  deriving DecidableEq, Repr

/-- The opening of a selector's block that starts the text, if there is one, and the rest. -/
def opening? (selector text : List Char) : Option (List Char × List Char) := do
  let rest ← selector.isPrefixOf? text
  let (space, rest) := takeBlank rest
  let rest ← ['\x7b'].isPrefixOf? rest
  return (selector ++ space ++ ['\x7b'], rest)

/-- Cut a text behind the first opening of a selector's block that is the first thing on its line;
`fresh` says that the line has been blank so far. -/
def cutAtOpening (selector : List Char) (fresh : Bool) : List Char → Option (List Char × List Char)
  | [] => none
  | c :: rest =>
    match if fresh then opening? selector (c :: rest) else none with
    | some cut => some cut
    | none =>
      match cutAtOpening selector (c = '\n' || fresh && Text.isBlank c) rest with
      | some (before, follow) => some (c :: before, follow)
      | none => none

/-- The first block of a selector. -/
def scope (selector : String) (text : List Char) : Except GenerationError Scope :=
  match cutAtOpening selector.toList true text with
  | none => lacks (.noScope selector)
  | some (before, follow) =>
    if '\x7d' ∈ follow then
      .ok ⟨before, follow.takeWhile (· ≠ '\x7d'), follow.dropWhile (· ≠ '\x7d')⟩
    else lacks (.openScope selector)

/-- Give properties new values one after the other; each must be declared. -/
def setAll (selector : String) : List (String × List Char) → List Char →
    Except GenerationError (List Char)
  | [], body => .ok body
  | (name, value) :: rest, body =>
    if declares name.toList body then setAll selector rest (setProperty name.toList value body)
    else lacks (.noDeclaration name selector)

/-- Give properties new values in the first block of a selector. -/
def setInScope (selector : String) (properties : List (String × List Char)) (text : List Char) :
    Except GenerationError (List Char) :=
  match scope selector text with
  | .error e => .error e
  | .ok cut =>
    match setAll selector properties cut.body with
    | .error e => .error e
    | .ok body => .ok (cut.before ++ body ++ cut.after)

/-- The properties of a main colour and of text on it. -/
def colorProperties (color foreground : Oklch) : List (String × List Char) :=
  [("--primary", color.text), ("--primary-foreground", foreground.text)]

/-- Put a palette into the blocks for light and for dark mode. -/
def applyPalette (palette : Palette) (text : List Char) : Except GenerationError (List Char) :=
  match setInScope ":root" (colorProperties palette.light palette.lightForeground) text with
  | .error e => .error e
  | .ok text => setInScope ".dark" (colorProperties palette.dark palette.darkForeground) text

/-- Point the default font family at a variable. -/
def applyFontVariable (fontVariable : List Char) (text : List Char) :
    Except GenerationError (List Char) :=
  let name := "--font-sans".toList
  if declares name text then
    .ok (setProperty name ("var(".toList ++ fontVariable ++ [')']) text)
  else lacks .noFontDeclaration

end Siteworks.Stylesheet
