import Siteworks.Text.Blank
import Siteworks.Text.Casing

/-!
# Slugs

A slug is what a name leaves in a web address: the runs of ASCII letters and digits of its lower
case, joined by hyphens. A text is URL-safe if it is the slug of itself and not empty.
-/

namespace Siteworks.Slug

/-- The characters that a slug is made of, besides the hyphens between its parts. -/
def isSlugChar (c : Char) : Bool := ('a' ≤ c && c ≤ 'z') || ('0' ≤ c && c ≤ '9')

/-- What the rest of a name leaves in a slug. Once something is written, a hyphen is due for
characters that are passed over, and it is written before the next one that is not. -/
def scan (written due : Bool) : List Char → List Char
  | [] => []
  | c :: rest =>
    if isSlugChar c then
      if written && due then '-' :: c :: scan true false rest else c :: scan true false rest
    else scan written true rest

/-- The slug of a text as a list of characters. -/
def ofChars (name : List Char) : List Char :=
  scan false false ((Text.trim name).flatMap Text.lowercase)

/-- The slug of a name; empty if the name has no letter and no digit for it. -/
def ofName (name : String) : String := String.ofList (ofChars name.toList)

/-- A text that can stand in a web address as it is. -/
def isUrlSafe (slug : String) : Bool := slug ≠ "" && ofName slug = slug

end Siteworks.Slug
