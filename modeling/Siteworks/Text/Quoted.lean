import Siteworks.Text.Unprintable

/-!
# Quoted text in messages

A quoted text stands between double quotes. Quotes, backslashes and line breaks in it are escaped,
and characters without a glyph are named by code point, so that it never spreads over two lines.
-/

namespace Siteworks.Text

/-- The lower-case hexadecimal digits of a number. -/
def hexDigits (n : Nat) : List Char := Nat.toDigits 16 n

/-- One character inside double quotes. -/
def quoteChar (c : Char) : List Char :=
  if c = '"' then ['\\', '"']
  else if c = '\\' then ['\\', '\\']
  else if c = '\n' then ['\\', 'n']
  else if c = '\r' then ['\\', 'r']
  else if c = '\t' then ['\\', 't']
  else if c.toNat = 0 then ['\\', '0']
  else if isPrintable c then [c]
  else "\\u\x7b".toList ++ hexDigits c.toNat ++ ['\x7d']

/-- The text between double quotes, with escapes. -/
def quoted (text : String) : String :=
  String.ofList (['"'] ++ text.toList.flatMap quoteChar ++ ['"'])

end Siteworks.Text
