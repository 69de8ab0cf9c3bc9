import Siteworks.Error
import Siteworks.Json.Printer

/-!
# Tag attributes

The content of a section becomes the attributes of its tag, in the author's order: strings in
quotes, any other value as compact JSON in braces.
-/

namespace Siteworks

/-- The key can name an attribute: an ASCII letter or underscore, then letters, digits, underscores
and hyphens. -/
def isAttributeName (key : String) : Bool :=
  match key.toList with
  | [] => false
  | first :: rest =>
    (first.isAlpha || first = '_') && rest.all fun c => c.isAlphanum || c = '_' || c = '-'

/-- One character inside a quoted attribute. -/
def escapeAttributeChar (c : Char) : List Char :=
  if c = '\\' ∨ c = '"' then ['\\', c] else [c]

/-- The value of an attribute. -/
def renderAttributeValue : Json → String
  | .string text =>
    String.ofList (['"'] ++ text.toList.flatMap escapeAttributeChar ++ ['"'])
  | value => "\x7b" ++ value.render ++ "\x7d"

/-- An attribute. -/
def renderAttribute (entry : String × Json) : String :=
  entry.1 ++ "=" ++ renderAttributeValue entry.2

/-- The attributes of a section's tag, or the complaint about the first key that cannot name one. -/
def renderAttributes (sectionId : String) (content : List (String × Json)) :
    Except GenerationError String :=
  match content.find? fun entry => !isAttributeName entry.1 with
  | some (key, _) => .error (.invalidAttribute sectionId key)
  | none => .ok (" ".intercalate (content.map renderAttribute))

end Siteworks
