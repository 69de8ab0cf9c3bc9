import Mathlib
import Siteworks.Color.Hex
import Siteworks.Proofs.Texts
import Siteworks.Proofs.Words

/-!
# Which texts name a colour

A text names a colour if, between white space, it has number signs and then three or six hexadecimal
digits, in either case. Digits take one byte each, so the channels are always cut out between two of
them, whatever the text. The number of signs is not looked at: a colour is named behind two number signs
as well.
-/

namespace Siteworks

namespace Text

/-- Between white space, a text without any is what trimming leaves. -/
theorem trim_eq_of_forall {front text back : List Char} (hfront : ∀ c ∈ front, isBlank c = true)
    (hback : ∀ c ∈ back, isBlank c = true) (htext : ∀ c ∈ text, isBlank c = false) :
    trim (front ++ text ++ back) = text := by
  rw [trim, trimStart, List.append_assoc, List.dropWhile_append_of_pos hfront]
  cases text with
  | nil =>
    have hnil : back.dropWhile isBlank = [] := List.dropWhile_eq_nil_iff.mpr hback
    rw [List.nil_append, hnil]
    rfl
  | cons c rest =>
    rw [List.cons_append, List.dropWhile_cons_of_neg (by simp [htext c List.mem_cons_self]),
      ← List.cons_append]
    exact reverse_dropWhile_reverse (fun a ha => htext a (List.mem_of_mem_getLast? ha)) hback

end Text

namespace Rgb

/-! ## Digits -/

/-- The character is the hexadecimal digit of a value, in lower or in upper case. -/
def IsDigit (c : Char) (value : Nat) : Prop := value < 16 ∧ c.toLower = Nat.digitChar value

/-- Three or six digits spell a colour: two for each channel, or one that counts twice. -/
inductive Spells : List Char → Rgb → Prop where
  /-- One digit for each channel. -/
  | short {r g b : Char} {x y z : Nat} (red : IsDigit r x) (green : IsDigit g y)
    (blue : IsDigit b z) : Spells [r, g, b] ⟨16 * x + x, 16 * y + y, 16 * z + z⟩
  /-- Two digits for each channel. -/
  | long {r r' g g' b b' : Char} {x x' y y' z z' : Nat} (red : IsDigit r x) (red' : IsDigit r' x')
    (green : IsDigit g y) (green' : IsDigit g' y') (blue : IsDigit b z) (blue' : IsDigit b' z') :
    Spells [r, r', g, g', b, b'] ⟨16 * x + x', 16 * y + y', 16 * z + z'⟩

/-- Between white space, the text is a number of number signs and the digits of a colour. -/
def Names (signs : Nat) (text : String) (color : Rgb) : Prop :=
  ∃ front digits back, (∀ c ∈ front, Text.isBlank c = true) ∧ (∀ c ∈ back, Text.isBlank c = true) ∧
    Spells digits color ∧ text.toList = front ++ (List.replicate signs '#' ++ digits) ++ back

variable {c : Char} {value : Nat} {digits six : List Char} {color : Rgb}

/-- What has a hexadecimal value is an ASCII character. -/
theorem toNat_lt_of_hexValue? (h : Text.hexValue? c = some value) : c.toNat < 128 := by
  have hle : ∀ {d : Char}, c ≤ d → c.toNat ≤ d.toNat := UInt32.le_iff_toNat_le.mp
  unfold Text.hexValue? at h
  split at h
  next hdigit => exact (Char.isDigit_iff_toNat.mp hdigit).2.trans_lt (by decide)
  split at h
  next hlower => exact (hle hlower.2).trans_lt (by decide)
  split at h
  next hupper => exact (hle hupper.2).trans_lt (by decide)
  next => cases h

/-- A hexadecimal digit is an ASCII character. -/
theorem IsDigit.toNat_lt (h : IsDigit c value) : c.toNat < 128 := by
  have hdigit : ∀ value < 16, (Nat.digitChar value).toNat < 128 := by decide
  by_contra hge
  have hlower : c.toLower = c := by
    rw [Char.toLower, dif_neg]
    rintro ⟨-, hupper⟩
    have hle : c.toNat ≤ 'Z'.toNat := UInt32.le_iff_toNat_le.mp hupper
    exact hge (hle.trans_lt (by decide))
  exact hge (hlower ▸ h.2 ▸ hdigit value h.1)

/-- The hexadecimal values in ASCII, checked on the codes: which characters have one, and what these
characters are not. -/
private theorem hexValue?_ascii (h : c.toNat < 128) :
    (∀ value ∈ Text.hexValue? c, (value < 16 ∧ c.toLower = Nat.digitChar value) ∧
      c.utf8Size = 1 ∧ c ≠ '+' ∧ c ≠ '#' ∧ Text.isBlank c = false) ∧
      ∀ value < 16, c.toLower = Nat.digitChar value → Text.hexValue? c = some value :=
  Text.forall_ascii (P := fun c =>
    (∀ value ∈ Text.hexValue? c, (value < 16 ∧ c.toLower = Nat.digitChar value) ∧
      c.utf8Size = 1 ∧ c ≠ '+' ∧ c ≠ '#' ∧ Text.isBlank c = false) ∧
      ∀ value < 16, c.toLower = Nat.digitChar value → Text.hexValue? c = some value)
    (by decide +kernel) h

/-- The characters with a hexadecimal value are the digits of that value. -/
theorem hexValue?_eq_some_iff : Text.hexValue? c = some value ↔ IsDigit c value := by
  constructor
  · intro h
    exact ((hexValue?_ascii (toNat_lt_of_hexValue? h)).1 value h).1
  · intro h
    exact (hexValue?_ascii h.toNat_lt).2 value h.1 h.2

/-- A hexadecimal digit takes one byte, and is neither a sign nor white space. -/
theorem IsDigit.plain (h : IsDigit c value) :
    c.utf8Size = 1 ∧ c ≠ '+' ∧ c ≠ '#' ∧ Text.isBlank c = false :=
  ((hexValue?_ascii h.toNat_lt).1 value (hexValue?_eq_some_iff.mpr h)).2

/-- The digits of a colour are digits. -/
theorem Spells.exists_isDigit (h : Spells digits color) : ∀ c ∈ digits, ∃ value, IsDigit c value := by
  cases h with
  | short red green blue => simpa using ⟨⟨_, red⟩, ⟨_, green⟩, ⟨_, blue⟩⟩
  | long red red' green green' blue blue' =>
    simpa using ⟨⟨_, red⟩, ⟨_, red'⟩, ⟨_, green⟩, ⟨_, green'⟩, ⟨_, blue⟩, ⟨_, blue'⟩⟩

/-! ## Channels -/

/-- Digits take one byte each. -/
theorem byteLength_eq_length (h : ∀ c ∈ digits, ∃ value, IsDigit c value) :
    Text.byteLength digits = digits.length := by
  induction digits with
  | nil => rfl
  | cons c rest ih =>
    obtain ⟨⟨value, hdigit⟩, hrest⟩ := List.forall_mem_cons.mp h
    rw [Text.byteLength, hdigit.plain.1, ih hrest, List.length_cons, Nat.add_comm]

/-- Two digits write a byte. -/
theorem hexByte?_pair {high low : Char} {x y : Nat} (hhigh : IsDigit high x) (hlow : IsDigit low y) :
    Text.hexByte? [high, low] = some (16 * x + y) := by
  have hbyte : 16 * x + y < 256 := by
    have := hhigh.1
    have := hlow.1
    omega
  simp [Text.hexByte?, hhigh.plain.2.1, hexValue?_eq_some_iff.mpr hhigh,
    hexValue?_eq_some_iff.mpr hlow, hbyte]

/-- The channel behind some pairs of digits is the byte that the next two digits write. -/
theorem channelAt_eq (front : List Char) {back : List Char} {high low : Char} {index x y : Nat}
    (hfront : ∀ c ∈ front, ∃ value, IsDigit c value) (hlength : front.length = 2 * index)
    (hhigh : IsDigit high x) (hlow : IsDigit low y) :
    channelAt (front ++ high :: low :: back) index = .ok (16 * x + y) := by
  have hstart : Text.byteLength front = 2 * index := (byteLength_eq_length hfront).trans hlength
  have hstop : Text.byteLength (front ++ [high, low]) = 2 * index + 2 := by
    rw [byteLength_eq_length, List.length_append, hlength]
    · rfl
    · exact List.forall_mem_append.mpr ⟨hfront, by simpa using ⟨⟨x, hhigh⟩, ⟨y, hlow⟩⟩⟩
  have hslice : Text.slice? (2 * index) (2 * index + 2) (front ++ high :: low :: back) =
      some [high, low] :=
    Text.slice?_eq_some_iff.mpr ⟨front, back, by simp, hstart, hstop⟩
  simp only [channelAt, hslice, hexByte?_pair hhigh hlow]

/-- Six digits have three channels. -/
theorem ofDigits_eq {r r' g g' b b' : Char} {x x' y y' z z' : Nat} (red : IsDigit r x)
    (red' : IsDigit r' x') (green : IsDigit g y) (green' : IsDigit g' y') (blue : IsDigit b z)
    (blue' : IsDigit b' z') :
    ofDigits [r, r', g, g', b, b'] = .ok ⟨16 * x + x', 16 * y + y', 16 * z + z'⟩ := by
  have hred : channelAt [r, r', g, g', b, b'] 0 = .ok (16 * x + x') :=
    channelAt_eq [] (by simp) rfl red red'
  have hgreen : channelAt [r, r', g, g', b, b'] 1 = .ok (16 * y + y') :=
    channelAt_eq [r, r'] (by simpa using ⟨⟨x, red⟩, ⟨x', red'⟩⟩) rfl green green'
  have hblue : channelAt [r, r', g, g', b, b'] 2 = .ok (16 * z + z') :=
    channelAt_eq [r, r', g, g'] (by simpa using ⟨⟨x, red⟩, ⟨x', red'⟩, ⟨y, green⟩, ⟨y', green'⟩⟩) rfl
      blue blue'
  rw [ofDigits, hred, hgreen, hblue]
  rfl

/-- Digits that spell a colour are six, or are made six, and the colour is read from these. -/
theorem Spells.exists_six (h : Spells digits color) :
    ∃ six, sixDigits? digits = some six ∧ ofDigits six = .ok color := by
  have hall : (digits.all fun c => (Text.hexValue? c).isSome) = true := by
    rw [List.all_eq_true]
    intro c hc
    obtain ⟨value, hdigit⟩ := h.exists_isDigit c hc
    rw [hexValue?_eq_some_iff.mpr hdigit]
    rfl
  have hbytes := byteLength_eq_length h.exists_isDigit
  cases h with
  | short red green blue =>
    refine ⟨_, ?_, ofDigits_eq red red green green blue blue⟩
    rw [sixDigits?, if_pos hall, hbytes]
    rfl
  | long red red' green green' blue blue' =>
    refine ⟨_, ?_, ofDigits_eq red red' green green' blue blue'⟩
    rw [sixDigits?, if_pos hall, hbytes]
    rfl

/-- Digits spell one colour. -/
theorem Spells.unique {other : Rgb} (h : Spells digits color) (h' : Spells digits other) :
    color = other := by
  obtain ⟨six, hsix, hcolor⟩ := h.exists_six
  obtain ⟨six', hsix', hother⟩ := h'.exists_six
  rw [hsix, Option.some.injEq] at hsix'
  rw [← hsix', hcolor] at hother
  exact Except.ok.inj hother

/-- Digits that are six, or are made six, spell a colour. -/
theorem exists_spells (h : sixDigits? digits = some six) : ∃ color, Spells digits color := by
  unfold sixDigits? at h
  split at h
  next hall =>
    have hdigits : ∀ c ∈ digits, ∃ value, IsDigit c value := by
      intro c hc
      obtain ⟨value, hvalue⟩ := Option.isSome_iff_exists.mp (List.all_eq_true.mp hall c hc)
      exact ⟨value, hexValue?_eq_some_iff.mp hvalue⟩
    rw [byteLength_eq_length hdigits] at h
    split at h
    next hlength =>
      obtain ⟨r, g, b, rfl⟩ := List.length_eq_three.mp hlength
      simp only [List.forall_mem_cons] at hdigits
      obtain ⟨⟨x, red⟩, ⟨y, green⟩, ⟨z, blue⟩, -⟩ := hdigits
      exact ⟨_, .short red green blue⟩
    next hlength =>
      match digits, hlength with
      | [r, r', g, g', b, b'], _ =>
        simp only [List.forall_mem_cons] at hdigits
        obtain ⟨⟨x, red⟩, ⟨x', red'⟩, ⟨y, green⟩, ⟨y', green'⟩, ⟨z, blue⟩, ⟨z', blue'⟩, -⟩ := hdigits
        exact ⟨_, .long red red' green green' blue blue'⟩
    next => cases h
  next => cases h

/-! ## Texts -/

/-- A colour is read from a text exactly if what is left of it without white space and number signs
spells that colour; the reading of another text ends because it is malformed. -/
theorem readHex_cases (text : String) :
    (∃ color, Spells ((Text.trim text.toList).dropWhile (· = '#')) color ∧ readHex text = .ok color) ∨
      (∀ color, ¬ Spells ((Text.trim text.toList).dropWhile (· = '#')) color) ∧
        readHex text = .error .malformed := by
  rw [readHex]
  cases hsix : sixDigits? ((Text.trim text.toList).dropWhile (· = '#')) with
  | none =>
    refine Or.inr ⟨fun color h => ?_, rfl⟩
    obtain ⟨six, hsome, -⟩ := h.exists_six
    rw [hsix] at hsome
    cases hsome
  | some six =>
    obtain ⟨color, hspells⟩ := exists_spells hsix
    obtain ⟨other, hsome, hread⟩ := hspells.exists_six
    rw [hsix] at hsome
    cases hsome
    exact Or.inl ⟨color, hspells, hread⟩

/-- A text names a colour behind as many number signs as it starts with, and what is left of it without
white space and these spells the colour. -/
theorem names_iff {signs : Nat} {text : String} : Names signs text color ↔
    signs = ((Text.trim text.toList).takeWhile (· = '#')).length ∧
      Spells ((Text.trim text.toList).dropWhile (· = '#')) color := by
  constructor
  · rintro ⟨front, digits, back, hfront, hback, hspells, htext⟩
    have hdigit : ∀ c ∈ digits, c ≠ '#' ∧ Text.isBlank c = false := fun c hc =>
      (hspells.exists_isDigit c hc).elim fun _ h => h.plain.2.2
    have hsign : ∀ c ∈ List.replicate signs '#', c = '#' := fun c => List.eq_of_mem_replicate
    have hvisible : ∀ c ∈ List.replicate signs '#' ++ digits, Text.isBlank c = false :=
      List.forall_mem_append.mpr ⟨fun c hc => hsign c hc ▸ rfl, fun c hc => (hdigit c hc).2⟩
    have hhead : ∀ c ∈ digits.head?, ¬ (c = '#') := fun c hc => (hdigit c (List.mem_of_head? hc)).1
    have htake : digits.takeWhile (· = '#') = [] ∧ digits.dropWhile (· = '#') = digits := by
      cases digits with
      | nil => exact ⟨rfl, rfl⟩
      | cons c rest =>
        have hc : ¬ decide (c = '#') = true := by simpa using hhead c rfl
        exact ⟨List.takeWhile_cons_of_neg hc, List.dropWhile_cons_of_neg hc⟩
    rw [htext, Text.trim_eq_of_forall hfront hback hvisible,
      List.takeWhile_append_of_pos (by simp), List.dropWhile_append_of_pos (by simp), htake.1,
      htake.2]
    exact ⟨by simp, hspells⟩
  · rintro ⟨rfl, hspells⟩
    obtain ⟨front, back, hfront, hback, htext⟩ := Text.exists_append_trim text.toList
    have hsigns : (Text.trim text.toList).takeWhile (· = '#') =
        List.replicate ((Text.trim text.toList).takeWhile (· = '#')).length '#' :=
      List.eq_replicate_iff.mpr ⟨rfl, fun c hc => by simpa using List.mem_takeWhile_imp hc⟩
    refine ⟨front, (Text.trim text.toList).dropWhile (· = '#'), back, hfront, hback, hspells, ?_⟩
    rw [← hsigns, List.takeWhile_append_dropWhile]
    exact htext

/-- The colour that a text names is read from it, and a text that names none is complained about. -/
theorem ofHex_cases (text : String) :
    (∃ color, Spells ((Text.trim text.toList).dropWhile (· = '#')) color ∧ ofHex text = .ok color) ∨
      (∀ color, ¬ Spells ((Text.trim text.toList).dropWhile (· = '#')) color) ∧
        ofHex text = .error (.invalidColor text) := by
  rw [ofHex, ofHex?]
  refine (readHex_cases text).imp ?_ ?_
  · rintro ⟨color, hspells, hread⟩
    exact ⟨color, hspells, by rw [hread]; rfl⟩
  · rintro ⟨hnone, hread⟩
    exact ⟨hnone, by rw [hread]; rfl⟩

/-- A colour is read from a text exactly if the text names it, behind any number of number signs; its
intensities are its channels over 255. Every other text is complained about, as it stands, and no text
has a channel cut out where there are no two digits. That colours are named behind at most one number
sign is the rule for every text that names none behind more. -/
theorem ofHex_grammar (text : String) :
    (∀ color, ofHex text = .ok color ↔ ∃ signs, Names signs text color) ∧
      (∀ color, ofHex text = .ok color → color.intensities =
        [color.red, color.green, color.blue].map fun byte => Float.ofNat byte / 255.0) ∧
      (∀ error, ofHex text = .error error ↔
        error = .invalidColor text ∧ ∀ signs color, ¬ Names signs text color) ∧
      readHex text ≠ .error .outOfRange ∧
      ((∀ color, ofHex text = .ok color ↔ ∃ signs ≤ 1, Names signs text color) ↔
        ∀ signs color, Names signs text color → signs ≤ 1) := by
  have hok : ∀ color, ofHex text = .ok color ↔ ∃ signs, Names signs text color := by
    intro color
    simp only [names_iff, exists_eq_left]
    rcases ofHex_cases text with ⟨other, hspells, hread⟩ | ⟨hnone, hread⟩
    · rw [hread, Except.ok.injEq]
      exact ⟨fun h => h ▸ hspells, hspells.unique⟩
    · rw [hread]
      exact iff_of_false nofun (hnone color)
  refine ⟨hok, fun color _ => rfl, fun error => ?_, ?_, ?_⟩
  · have hnot : (∀ signs color, ¬ Names signs text color) ↔
        ∀ color, ¬ Spells ((Text.trim text.toList).dropWhile (· = '#')) color := by
      simp only [names_iff, not_and]
      exact ⟨fun h color => h _ color rfl, fun h _ color _ => h color⟩
    rw [hnot]
    rcases ofHex_cases text with ⟨color, hspells, hread⟩ | ⟨hnone, hread⟩
    · rw [hread]
      exact iff_of_false nofun fun h => h.2 color hspells
    · rw [hread, Except.error.injEq, eq_comm]
      exact ⟨fun h => ⟨h, hnone⟩, fun h => h.1⟩
  · rcases readHex_cases text with ⟨color, -, hread⟩ | ⟨-, hread⟩
    · rw [hread]
      nofun
    · rw [hread]
      nofun
  · simp only [hok]
    constructor
    · intro hone signs color hnames
      obtain ⟨few, hfew, hnames'⟩ := (hone color).mp ⟨signs, hnames⟩
      rwa [(names_iff.mp hnames).1, ← (names_iff.mp hnames').1]
    · intro hfew color
      exact ⟨fun ⟨signs, hnames⟩ => ⟨signs, hfew signs color hnames, hnames⟩,
        fun ⟨signs, _, hnames⟩ => ⟨signs, hnames⟩⟩

/-- White is read from three digits behind two number signs. -/
theorem exists_ofHex_twoSigns : ∃ (text : String) (color : Rgb),
    ofHex text = .ok color ∧ ¬ ∃ signs ≤ 1, Names signs text color := by
  refine ⟨"##fff", ⟨255, 255, 255⟩, by decide +kernel, ?_⟩
  rintro ⟨signs, hfew, hnames⟩
  have hsigns : signs = ((Text.trim "##fff".toList).takeWhile (· = '#')).length :=
    (names_iff.mp hnames).1
  have htwo : ((Text.trim "##fff".toList).takeWhile (· = '#')).length = 2 := by decide +kernel
  omega

end Rgb

end Siteworks
