import Siteworks.Json.Value

/-!
# Writing JSON texts

The compact form has no space between tokens; the pretty form puts every item and member on a line
of its own, indented by two spaces a level, and leaves empty arrays and objects closed up.
-/

namespace Siteworks

/-- Integers in decimal, doubles in their shortest form. -/
def Number.text : Number → String
  | .integer n => String.ofList (if n < 0 then '-' :: Nat.toDigits 10 n.natAbs
      else Nat.toDigits 10 n.natAbs)
  | .real x => String.ofList x.text

namespace Json

/-- One character inside a string: quotes, backslashes and control characters are escaped. -/
def escapeChar (c : Char) : List Char :=
  if c = '"' then ['\\', '"']
  else if c = '\\' then ['\\', '\\']
  else if c = '\x08' then ['\\', 'b']
  else if c = '\x0c' then ['\\', 'f']
  else if c = '\n' then ['\\', 'n']
  else if c = '\r' then ['\\', 'r']
  else if c = '\t' then ['\\', 't']
  else if c.toNat < 0x20 then
    ['\\', 'u', '0', '0', Nat.digitChar (c.toNat / 16), Nat.digitChar (c.toNat % 16)]
  else [c]

/-- A string between its quotes. -/
def renderString (text : String) : String :=
  String.ofList (['"'] ++ text.toList.flatMap escapeChar ++ ['"'])

mutual

/-- The compact text of a document. -/
def render : Json → String
  | .null => "null"
  | .bool b => if b then "true" else "false"
  | .number n => n.text
  | .string s => renderString s
  | .array items => "[" ++ ",".intercalate (renderItems items) ++ "]"
  | .object members => "\x7b" ++ ",".intercalate (renderMembers members) ++ "\x7d"

/-- The compact texts of the items of an array. -/
def renderItems : List Json → List String
  | [] => []
  | item :: rest => render item :: renderItems rest

/-- The compact texts of the members of an object. -/
def renderMembers : List (String × Json) → List String
  | [] => []
  | (key, value) :: rest => (renderString key ++ ":" ++ render value) :: renderMembers rest

end

/-- A line break followed by the indentation of a level. -/
def lineBreak (level : Nat) : String := String.ofList ('\n' :: List.replicate (2 * level) ' ')

/-- A bracketed list with one entry a line at the level below. -/
def layOut (level : Nat) (opening closing : String) (entries : List String) : String :=
  if entries.isEmpty then opening ++ closing
  else opening ++ lineBreak (level + 1) ++ ("," ++ lineBreak (level + 1)).intercalate entries
    ++ lineBreak level ++ closing

mutual

/-- The pretty text of a document whose first line starts at a level. -/
def renderPrettyAt (level : Nat) : Json → String
  | .null => "null"
  | .bool b => if b then "true" else "false"
  | .number n => n.text
  | .string s => renderString s
  | .array items => layOut level "[" "]" (prettyItems (level + 1) items)
  | .object members => layOut level "\x7b" "\x7d" (prettyMembers (level + 1) members)

/-- The pretty texts of the items of an array. -/
def prettyItems (level : Nat) : List Json → List String
  | [] => []
  | item :: rest => renderPrettyAt level item :: prettyItems level rest

/-- The pretty texts of the members of an object. -/
def prettyMembers (level : Nat) : List (String × Json) → List String
  | [] => []
  | (key, value) :: rest =>
    (renderString key ++ ": " ++ renderPrettyAt level value) :: prettyMembers level rest

end

/-- The pretty text of a document. -/
def renderPretty (value : Json) : String := renderPrettyAt 0 value

end Json

end Siteworks
