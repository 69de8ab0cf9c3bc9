/-!
# Base 64

Bytes as printable ASCII text: three bytes make four characters, and the last group is filled up
with equals signs.
-/

namespace Siteworks.Base64

/-- The characters for the values below 64. -/
def alphabet : List Char :=
  "ABCDEFGHIJKLMNOPQRSTUVWXYZabcdefghijklmnopqrstuvwxyz0123456789+/".toList

/-- The character for a value below 64. -/
def digit (n : Nat) : Char := alphabet.getD (n % 64) 'A'

/-- The characters for a list of bytes. -/
def encode : List UInt8 → List Char
  | [] => []
  | [a] => [digit (a.toNat / 4), digit (a.toNat * 16), '=', '=']
  | [a, b] =>
    [digit (a.toNat / 4), digit (a.toNat * 16 + b.toNat / 16), digit (b.toNat * 4), '=']
  | a :: b :: c :: rest =>
    digit (a.toNat / 4) :: digit (a.toNat * 16 + b.toNat / 16)
      :: digit (b.toNat * 4 + c.toNat / 64) :: digit c.toNat :: encode rest

end Siteworks.Base64
