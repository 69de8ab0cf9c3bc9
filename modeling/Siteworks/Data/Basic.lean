/-!
# Bytes and text

What a file holds is a list of bytes. It holds a text if the bytes are the UTF-8 form of one, and
then exactly that one: `text?_eq_some_iff` says that reading a text and writing it are inverse.
-/

namespace Siteworks

/-- What a file holds. -/
structure Data where
  /-- The bytes in order. -/
  bytes : List UInt8
  deriving DecidableEq, Repr

namespace Data

/-- No bytes. -/
def empty : Data := ⟨[]⟩

/-- The UTF-8 form of a text. -/
def ofText (text : String) : Data := ⟨text.toUTF8.data.toList⟩

/-- The text whose UTF-8 form the bytes are, if there is one. -/
def text? (data : Data) : Option String := String.fromUTF8? ⟨data.bytes.toArray⟩

/-- Bytes hold a text exactly if they are its UTF-8 form. -/
theorem text?_eq_some_iff {data : Data} {text : String} :
    data.text? = some text ↔ data = ofText text := by
  constructor
  · intro held
    simp only [text?, String.fromUTF8?] at held
    split at held
    · cases held
      rfl
    · cases held
  · rintro rfl
    have valid : (⟨(ofText text).bytes.toArray⟩ : ByteArray).IsValidUTF8 := text.isValidUTF8
    rw [text?, String.fromUTF8?, dif_pos valid]
    rfl

/-- A text is read back as it was written. -/
@[simp]
theorem text?_ofText (text : String) : (ofText text).text? = some text :=
  text?_eq_some_iff.2 rfl

end Data

end Siteworks
