import Mathlib
import Siteworks.Proofs.Json.NumberTexts
import Siteworks.Proofs.Json.Printing

/-!
# What the texts of documents are read as

The text of a document, compact or pretty, is read as the document, but for what a text does not show:
a number is read from its digits, and of members with one key the last value counts. White space makes
no difference, since the reader skips it in front of every token.
-/

namespace Siteworks.Json

/-! ## Documents -/

mutual

/-- What the text of a document is read as, nested at most `depth` levels. -/
def reread? (depth : Nat) : Json → Option Json
  | .null => some .null
  | .bool b => some (.bool b)
  | .number n => (readNumber n.text.toList).map Prod.fst
  | .string text => some (.string text)
  | .array items => if depth = 0 then none else (rereadItems? (depth - 1) items).map .array
  | .object members =>
    if depth = 0 then none else (rereadMembers? (depth - 1) [] members).map .object

/-- What the texts of items are read as. -/
def rereadItems? (depth : Nat) : List Json → Option (List Json)
  | [] => some []
  | item :: rest =>
    (reread? depth item).bind fun item => (rereadItems? depth rest).map (item :: ·)

/-- What the texts of members are read as, added to those read before. -/
def rereadMembers? (depth : Nat) (before : List (String × Json)) :
    List (String × Json) → Option (List (String × Json))
  | [] => some before
  | (key, value) :: rest =>
    (reread? depth value).bind fun value => rereadMembers? depth (assign key value before) rest

end

/-- The text of a document tells all of it: no key is repeated, the nesting is no deeper than the
reader goes, and the numbers are integers of a machine word. -/
inductive Plain : Nat → Json → Prop
  | null {depth : Nat} : Plain depth .null
  | bool {depth : Nat} (b : Bool) : Plain depth (.bool b)
  | integer {depth : Nat} {k : Int} (lower : -2 ^ 63 ≤ k) (upper : k < 2 ^ 64) :
    Plain depth (.number (.integer k))
  | string {depth : Nat} (text : String) : Plain depth (.string text)
  | array {depth : Nat} {items : List Json} (values : ∀ item ∈ items, Plain depth item) :
    Plain (depth + 1) (.array items)
  | object {depth : Nat} {members : List (String × Json)} (keys : (members.map Prod.fst).Nodup)
      (values : ∀ entry ∈ members, Plain depth entry.2) : Plain (depth + 1) (.object members)

/-- A member of a new name is added at the end. -/
theorem assign_eq_append {key : String} {value : Json} {members : List (String × Json)}
    (h : key ∉ members.map Prod.fst) : assign key value members = members ++ [(key, value)] := by
  induction members with
  | nil => rfl
  | cons entry members ih =>
    obtain ⟨k, v⟩ := entry
    rw [List.map_cons, List.mem_cons, not_or] at h
    rw [assign, if_neg (Ne.symm h.1), ih h.2, List.cons_append]

/-- Of members with different keys, each is added behind those before it. -/
theorem assign_eq_append_of_nodup {key : String} {value other : Json}
    {before rest : List (String × Json)}
    (h : ((before ++ (key, other) :: rest).map Prod.fst).Nodup) :
    assign key value before = before ++ [(key, value)] := by
  rw [List.map_append, List.map_cons, List.nodup_append] at h
  exact assign_eq_append fun hmem => h.2.2 _ hmem _ List.mem_cons_self rfl

/-- Items that are read as they are. -/
theorem rereadItems?_eq {depth : Nat} {items : List Json}
    (h : ∀ item ∈ items, reread? depth item = some item) :
    rereadItems? depth items = some items := by
  induction items with
  | nil => rfl
  | cons item rest ih =>
    obtain ⟨hitem, hrest⟩ := List.forall_mem_cons.mp h
    rw [rereadItems?, hitem, Option.bind_some, ih hrest, Option.map_some]

/-- Members of different keys whose values are read as they are. -/
theorem rereadMembers?_eq {depth : Nat} {before members : List (String × Json)}
    (hkeys : ((before ++ members).map Prod.fst).Nodup)
    (h : ∀ entry ∈ members, reread? depth entry.2 = some entry.2) :
    rereadMembers? depth before members = some (before ++ members) := by
  induction members generalizing before with
  | nil => rw [rereadMembers?, List.append_nil]
  | cons entry rest ih =>
    obtain ⟨key, value⟩ := entry
    obtain ⟨hvalue, hrest⟩ := List.forall_mem_cons.mp h
    rw [rereadMembers?, hvalue, Option.bind_some, assign_eq_append_of_nodup hkeys,
      ih (by simpa using hkeys) hrest, List.append_assoc, List.singleton_append]

/-- What is read before members of other keys is kept in front of them. -/
theorem exists_eq_append_of_rereadMembers? {depth : Nat} {before members read : List (String × Json)}
    (hkeys : ((before ++ members).map Prod.fst).Nodup)
    (h : rereadMembers? depth before members = some read) : ∃ behind, read = before ++ behind := by
  induction members generalizing before with
  | nil => exact ⟨[], by rw [List.append_nil, ← Option.some.inj h]⟩
  | cons entry rest ih =>
    obtain ⟨key, value⟩ := entry
    rw [rereadMembers?] at h
    obtain ⟨other, -, hrest⟩ := Option.bind_eq_some_iff.mp h
    rw [assign_eq_append_of_nodup hkeys] at hrest
    obtain ⟨behind, hread⟩ := ih (by simpa using hkeys) hrest
    exact ⟨(key, other) :: behind, by rw [hread, List.append_assoc, List.singleton_append]⟩

/-- A document whose text tells all of it is read as it is. -/
theorem Plain.reread?_eq {depth : Nat} {value : Json} (h : Plain depth value) :
    value.reread? depth = some value := by
  induction h with
  | null => rfl
  | bool b => rfl
  | @integer _ k lower upper =>
    have hread := readNumber_text ended_nil (Number.integerNumeral k)
    rw [List.append_nil, Number.read?_integerNumeral lower upper,
      ← Number.toList_text_integer] at hread
    rw [reread?, hread]
    rfl
  | string text => rfl
  | array values ih => rw [reread?, if_neg (by omega), Nat.add_sub_cancel, rereadItems?_eq ih]; rfl
  | object keys values ih =>
    rw [reread?, if_neg (by omega), Nat.add_sub_cancel, rereadMembers?_eq (by simpa using keys) ih]
    rfl

/-! ## Texts of values -/

/-- White space is skipped. -/
theorem skipSpace_append {space : List Char} (h : ∀ c ∈ space, isSpace c = true) (cs : List Char) :
    skipSpace (space ++ cs) = skipSpace cs :=
  List.dropWhile_append_of_pos h

/-- Nothing is skipped in front of a character that is no white space. -/
theorem skipSpace_cons (c : Char) (h : isSpace c = false) (cs : List Char) :
    skipSpace (c :: cs) = c :: cs :=
  List.dropWhile_cons_of_neg (by simp [h])

/-- The text of a document: it begins with what is neither white space nor a closing bracket, and is
read as the document is, with fuel for a text of its length. -/
structure PrintedAs (text : List Char) (value : Json) : Prop where
  /-- Something stands first that is neither skipped nor taken for the end of an array. -/
  starts : ∃ c cs, text = c :: cs ∧ isSpace c = false ∧ c ≠ ']'
  /-- The text is read, whatever follows it. -/
  reads : ∀ (fuel depth : Nat) (rest : List Char), 2 * text.length ≤ fuel → Ended rest →
    readValue fuel depth (text ++ rest) = (value.reread? depth).map fun read => (read, rest)

/-- White space is skipped up to a document, which begins with something else. -/
theorem PrintedAs.skipSpace_append {text : List Char} {value : Json} (h : PrintedAs text value)
    (rest : List Char) : skipSpace (text ++ rest) = text ++ rest := by
  obtain ⟨c, cs, rfl, hspace, -⟩ := h.starts
  exact skipSpace_cons c hspace _

/-- A text that tells the value from its first character on is the value's. -/
theorem printedAs_of_cons {text cs : List Char} {value : Json} {c : Char} (htext : text = c :: cs)
    (hspace : isSpace c = false) (hbracket : c ≠ ']')
    (hread : ∀ fuel depth rest, readValue (fuel + 1) depth (c :: (cs ++ rest)) =
      (value.reread? depth).map fun read => (read, rest)) : PrintedAs text value := by
  refine ⟨⟨c, cs, htext, hspace, hbracket⟩, fun fuel depth rest hfuel _ => ?_⟩
  obtain ⟨fuel, rfl⟩ : ∃ more, fuel = more + 1 :=
    Nat.exists_eq_succ_of_ne_zero (by rw [htext, List.length_cons] at hfuel; omega)
  rw [htext, List.cons_append]
  exact hread fuel depth rest

/-- A string is printed between its quotes. -/
theorem printedAs_string (text : String) : PrintedAs (renderString text).toList (.string text) := by
  have htext : (renderString text).toList = '"' :: (text.toList.flatMap escapeChar ++ ['"']) := by
    rw [renderString, String.toList_ofList]
    rfl
  refine printedAs_of_cons htext rfl (by decide) fun fuel depth rest => ?_
  rw [readValue, List.append_assoc, List.singleton_append, readText_flatMap_escapeChar, reread?]
  simp

/-- A number is printed by its numeral. -/
theorem printedAs_number (n : Number) : PrintedAs n.text.toList (.number n) := by
  obtain ⟨numeral, htext⟩ := n.exists_numeral
  obtain ⟨c, cs, hc, hlead⟩ := numeral.exists_text_eq_cons
  refine ⟨⟨c, cs, htext.trans hc, ?_, ?_⟩, fun fuel depth rest hfuel hrest => ?_⟩
  · by_contra hspace
    simp only [isSpace, Bool.not_eq_false, Bool.or_eq_true, decide_eq_true_eq] at hspace
    rcases hspace with ((rfl | rfl) | rfl) | rfl <;> exact absurd hlead (by decide)
  · rintro rfl
    exact absurd hlead (by decide)
  · have halone := readNumber_text ended_nil numeral
    rw [List.append_nil] at halone
    obtain ⟨fuel, rfl⟩ : ∃ more, fuel = more + 1 :=
      Nat.exists_eq_succ_of_ne_zero (by rw [htext, hc, List.length_cons] at hfuel; omega)
    rw [reread?, htext, halone, Option.map_map, Option.map_map]
    calc readValue (fuel + 1) depth (numeral.text ++ rest)
        = readNumber (numeral.text ++ rest) := by
          rw [hc, List.cons_append]
          exact readValue_of_lead hlead fuel depth _
      _ = numeral.read?.map fun number => (.number number, rest) := readNumber_text hrest numeral

/-- An empty array is printed as its brackets. -/
theorem printedAs_array_nil : PrintedAs ['[', ']'] (.array []) := by
  refine printedAs_of_cons rfl rfl (by decide) fun fuel depth rest => ?_
  rw [List.singleton_append, readValue, skipSpace_cons ']' rfl, reread?]
  split <;> rfl

/-- An empty object is printed as its brackets. -/
theorem printedAs_object_nil : PrintedAs ['\x7b', '\x7d'] (.object []) := by
  refine printedAs_of_cons rfl rfl (by decide) fun fuel depth rest => ?_
  rw [List.singleton_append, readValue, skipSpace_cons '\x7d' rfl, reread?]
  split <;> rfl

/-! ## Texts of arrays and objects -/

/-- The texts of entries behind the first one, each with a comma and a gap in front. -/
def textBehind {α : Type} (gap : List Char) (text : α → List Char) (entries : List α) : List Char :=
  entries.flatMap fun entry => ',' :: (gap ++ text entry)

/-- Behind the last entry there is none. -/
@[simp] theorem textBehind_nil {α : Type} (gap : List Char) (text : α → List Char) :
    textBehind gap text [] = [] := rfl

/-- One entry comes after the other. -/
@[simp] theorem textBehind_cons {α : Type} (gap : List Char) (text : α → List Char) (entry : α)
    (entries : List α) : textBehind gap text (entry :: entries) =
      ',' :: (gap ++ (text entry ++ textBehind gap text entries)) := by
  rw [textBehind, List.flatMap_cons, List.cons_append, List.append_assoc, ← textBehind]

/-- The text of a member, with a gap in front of the value. -/
def memberText (gap : List Char) (text : Json → List Char) (entry : String × Json) : List Char :=
  (renderString entry.1).toList ++ ':' :: (gap ++ text entry.2)

section Entries

variable {gap last inner : List Char} (hgap : ∀ c ∈ gap, isSpace c = true)
  (hlast : ∀ c ∈ last, isSpace c = true) (hinner : ∀ c ∈ inner, isSpace c = true)
  (text : Json → List Char) (depth : Nat)

include hlast in
/-- Behind an entry there is a comma, white space or the closing bracket. -/
theorem ended_textBehind {α : Type} {close : Char} (hclose : close = ']' ∨ close = '\x7d')
    (text : α → List Char) (entries : List α) (rest : List Char) :
    Ended (textBehind gap text entries ++ (last ++ close :: rest)) := by
  intro c hc
  cases entries with
  | nil =>
    cases last with
    | nil =>
      obtain rfl : close = c := Option.some_inj.mp hc
      rcases hclose with rfl | rfl
      · exact Or.inr (Or.inl rfl)
      · exact Or.inr (Or.inr (Or.inl rfl))
    | cons d ds =>
      obtain rfl : d = c := Option.some_inj.mp hc
      exact Or.inr (Or.inr (Or.inr (hlast d List.mem_cons_self)))
  | cons entry entries => exact Or.inl (Option.some_inj.mp hc).symm

include hgap in
/-- White space in front of items is skipped. -/
theorem readItems_append (fuel depth : Nat) (cs : List Char) :
    readItems fuel depth (gap ++ cs) = readItems fuel depth cs := by
  cases fuel with
  | zero => rfl
  | succ fuel => rw [readItems, readItems, skipSpace_append hgap]

include hgap in
/-- White space in front of members is skipped. -/
theorem readMembers_append (fuel depth : Nat) (before : List (String × Json)) (cs : List Char) :
    readMembers fuel depth before (gap ++ cs) = readMembers fuel depth before cs := by
  cases fuel with
  | zero => rfl
  | succ fuel => rw [readMembers, readMembers, skipSpace_append hgap]

include hgap hlast in
/-- The items of an array are read one after the other. -/
theorem readItems_printed {item : Json} {items : List Json}
    (hitems : ∀ other ∈ item :: items, PrintedAs (text other) other) (fuel : Nat) (rest : List Char)
    (hfuel : 2 * (text item ++ textBehind gap text items).length + 2 ≤ fuel) :
    readItems fuel depth (text item ++ (textBehind gap text items ++ (last ++ ']' :: rest))) =
      (rereadItems? depth (item :: items)).map fun read => (read, rest) := by
  have hended : ∀ items, Ended (textBehind gap text items ++ (last ++ ']' :: rest)) := fun items =>
    ended_textBehind hlast (Or.inl rfl) text items rest
  induction items generalizing item fuel with
  | nil =>
    have hitem := hitems item List.mem_cons_self
    obtain ⟨fuel, rfl⟩ := Nat.exists_eq_succ_of_ne_zero (show fuel ≠ 0 by omega)
    simp only [textBehind_nil, List.append_nil] at hfuel
    rw [readItems, hitem.skipSpace_append, hitem.reads fuel depth _ (by omega) (hended _),
      rereadItems?]
    cases item.reread? depth with
    | none => rfl
    | some read =>
      simp only [Option.map_some, textBehind_nil, List.nil_append, skipSpace_append hlast,
        skipSpace_cons ']' rfl]
      rfl
  | cons next items ih =>
    have hitem := hitems item List.mem_cons_self
    obtain ⟨fuel, rfl⟩ := Nat.exists_eq_succ_of_ne_zero (show fuel ≠ 0 by omega)
    simp only [textBehind_cons, List.length_append, List.length_cons] at hfuel
    rw [readItems, hitem.skipSpace_append, hitem.reads fuel depth _ (by omega) (hended _),
      rereadItems?]
    cases item.reread? depth with
    | none => rfl
    | some read =>
      have hrest := ih (fun other hother => hitems other (List.mem_cons_of_mem _ hother)) fuel
        (by simp only [List.length_append]; omega)
      simp only [Option.map_some, Option.bind_some, textBehind_cons, List.cons_append,
        List.append_assoc, skipSpace_cons ',' rfl, readItems_append hgap, hrest, Option.map_map]
      rfl

include hinner in
/-- A member is read up to its value, and on from there. -/
theorem readMembers_memberText {entry : String × Json} (hvalue : PrintedAs (text entry.2) entry.2)
    {fuel : Nat} (hfuel : 2 * (text entry.2).length ≤ fuel) (before : List (String × Json))
    {rest : List Char} (hrest : Ended rest) :
    readMembers (fuel + 1) depth before (memberText inner text entry ++ rest) =
      (entry.2.reread? depth).bind fun value =>
        match skipSpace rest with
        | ',' :: rest => readMembers fuel depth (assign entry.1 value before) rest
        | '\x7d' :: rest => some (assign entry.1 value before, rest)
        | _ => none := by
  have htext : memberText inner text entry ++ rest = '"' :: (entry.1.toList.flatMap escapeChar ++
      '"' :: ':' :: (inner ++ (text entry.2 ++ rest))) := by
    simp [memberText, renderString]
  have hskip : skipSpace (inner ++ (text entry.2 ++ rest)) = text entry.2 ++ rest := by
    rw [skipSpace_append hinner, hvalue.skipSpace_append]
  rw [htext, readMembers, skipSpace_cons '"' rfl]
  simp only [readText_flatMap_escapeChar, skipSpace_cons ':' rfl, hskip,
    hvalue.reads fuel depth rest hfuel hrest, List.reverse_nil, List.nil_append,
    String.ofList_toList]
  cases entry.2.reread? depth <;> rfl

include hgap hlast hinner in
/-- The members of an object are read one after the other, and added to those before them. -/
theorem readMembers_printed {entry : String × Json} {entries : List (String × Json)}
    (hvalues : ∀ other ∈ entry :: entries, PrintedAs (text other.2) other.2) (fuel : Nat)
    (before : List (String × Json)) (rest : List Char)
    (hfuel : 2 * (memberText inner text entry ++
      textBehind gap (memberText inner text) entries).length + 2 ≤ fuel) :
    readMembers fuel depth before (memberText inner text entry ++
      (textBehind gap (memberText inner text) entries ++ (last ++ '\x7d' :: rest))) =
        (rereadMembers? depth before (entry :: entries)).map fun read => (read, rest) := by
  have hended : ∀ entries,
      Ended (textBehind gap (memberText inner text) entries ++ (last ++ '\x7d' :: rest)) :=
    fun entries => ended_textBehind hlast (Or.inr rfl) (memberText inner text) entries rest
  have hlong : ∀ entry, (text entry.2).length ≤ (memberText inner text entry).length := by
    intro entry
    simp only [memberText, List.length_append, List.length_cons]
    omega
  induction entries generalizing entry fuel before with
  | nil =>
    obtain ⟨fuel, rfl⟩ := Nat.exists_eq_succ_of_ne_zero (show fuel ≠ 0 by omega)
    simp only [textBehind_nil, List.append_nil] at hfuel
    rw [readMembers_memberText hinner text depth (hvalues entry List.mem_cons_self)
      (by have := hlong entry; omega) before (hended _)]
    simp only [rereadMembers?, textBehind_nil, List.nil_append,
      skipSpace_append hlast, skipSpace_cons '\x7d' rfl]
    cases entry.2.reread? depth <;> rfl
  | cons next entries ih =>
    obtain ⟨fuel, rfl⟩ := Nat.exists_eq_succ_of_ne_zero (show fuel ≠ 0 by omega)
    simp only [textBehind_cons, List.length_append, List.length_cons] at hfuel
    rw [readMembers_memberText hinner text depth (hvalues entry List.mem_cons_self)
      (by have := hlong entry; omega) before (hended _), rereadMembers?]
    cases entry.2.reread? depth with
    | none => rfl
    | some value =>
      have hrest := ih (fun other hother => hvalues other (List.mem_cons_of_mem _ hother)) fuel
        (assign entry.1 value before) (by simp only [List.length_append]; omega)
      simp only [Option.bind_some, textBehind_cons, List.cons_append,
        List.append_assoc, skipSpace_cons ',' rfl, readMembers_append hgap, hrest]

include hgap hlast in
/-- An array is printed item by item. -/
theorem printedAs_array {item : Json} {items : List Json}
    (hitems : ∀ other ∈ item :: items, PrintedAs (text other) other) :
    PrintedAs ('[' :: (gap ++ (text item ++ (textBehind gap text items ++ (last ++ [']'])))))
      (.array (item :: items)) := by
  obtain ⟨c, cs, hc, hspace, hclose⟩ := (hitems item List.mem_cons_self).starts
  refine ⟨⟨'[', _, rfl, rfl, by decide⟩, fun fuel depth rest hfuel _ => ?_⟩
  simp only [List.length_cons, List.length_append] at hfuel
  obtain ⟨fuel, rfl⟩ := Nat.exists_eq_succ_of_ne_zero (show fuel ≠ 0 by omega)
  have hread := readItems_printed hgap hlast text (depth - 1) hitems fuel rest
    (by simp only [List.length_append]; omega)
  simp only [hc, List.cons_append, List.append_assoc, List.nil_append] at hread ⊢
  rw [readValue, skipSpace_append hgap, skipSpace_cons c hspace, reread?]
  split
  · rfl
  · split
    next heq => exact absurd (List.cons.inj heq).1 hclose
    · rw [hread, Option.map_map, Option.map_map]
      rfl

include hgap hlast hinner in
/-- An object is printed member by member. -/
theorem printedAs_object {entry : String × Json} {entries : List (String × Json)}
    (hvalues : ∀ other ∈ entry :: entries, PrintedAs (text other.2) other.2) :
    PrintedAs ('\x7b' :: (gap ++ (memberText inner text entry ++
      (textBehind gap (memberText inner text) entries ++ (last ++ ['\x7d'])))))
      (.object (entry :: entries)) := by
  obtain ⟨cs, hc⟩ : ∃ cs, memberText inner text entry = '"' :: cs :=
    ⟨_, by rw [memberText, renderString, String.toList_ofList]; rfl⟩
  refine ⟨⟨'\x7b', _, rfl, rfl, by decide⟩, fun fuel depth rest hfuel _ => ?_⟩
  simp only [List.length_cons, List.length_append] at hfuel
  obtain ⟨fuel, rfl⟩ := Nat.exists_eq_succ_of_ne_zero (show fuel ≠ 0 by omega)
  have hread := readMembers_printed hgap hlast hinner text (depth - 1) hvalues fuel [] rest
    (by simp only [List.length_append]; omega)
  simp only [hc, List.cons_append, List.append_assoc, List.nil_append] at hread ⊢
  rw [readValue, skipSpace_append hgap, skipSpace_cons '"' rfl, reread?]
  split
  · rfl
  · split
    next heq => exact absurd (List.cons.inj heq).1 (by decide)
    · rw [hread, Option.map_map, Option.map_map]
      rfl

end Entries

/-! ## Compact texts -/

/-- Every document is printed compactly as what it is read as. -/
theorem printedAs_render (value : Json) : PrintedAs value.render.toList value := by
  have hempty : ∀ c ∈ ([] : List Char), isSpace c = true := by simp
  induction value using induction with
  | null =>
    rw [render]
    exact printedAs_of_cons rfl rfl (by decide) fun fuel depth rest => by rw [reread?]; rfl
  | bool b =>
    rw [render]
    cases b
    all_goals exact printedAs_of_cons rfl rfl (by decide) fun fuel depth rest => by rw [reread?]; rfl
  | number n =>
    rw [render]
    exact printedAs_number n
  | string text =>
    rw [render]
    exact printedAs_string text
  | array items ih =>
    rw [toList_render_array]
    cases items with
    | nil => exact printedAs_array_nil
    | cons item items =>
      rw [intercalate_comma_cons]
      simpa [textBehind] using printedAs_array hempty hempty (fun value => value.render.toList) ih
  | object members ih =>
    rw [toList_render_object]
    cases members with
    | nil => exact printedAs_object_nil
    | cons entry entries =>
      have hmember : memberText [] (fun value => value.render.toList) = renderMember := rfl
      rw [intercalate_comma_cons]
      simpa [textBehind, hmember] using
        printedAs_object hempty hempty hempty (fun value => value.render.toList) ih

/-! ## Pretty texts -/

/-- A line break and the indentation of the next line. -/
def indentation (level : Nat) : List Char := (lineBreak level).toList

/-- A line break comes first. -/
theorem indentation_eq (level : Nat) : indentation level = '\n' :: List.replicate (2 * level) ' ' := by
  rw [indentation, lineBreak, String.toList_ofList]

/-- Line breaks and indentation are white space. -/
theorem isSpace_of_mem_indentation {level : Nat} : ∀ c ∈ indentation level, isSpace c = true := by
  intro c hc
  rw [indentation_eq] at hc
  rcases List.mem_cons.mp hc with rfl | hc
  · decide
  · rw [List.eq_of_mem_replicate hc]
    decide

/-- Without entries the brackets are closed up. -/
theorem toList_layOut_nil (level : Nat) (opening closing : String) :
    (layOut level opening closing []).toList = opening.toList ++ closing.toList := by
  simp [layOut]

/-- The text of entries between brackets, each on a line of its own. -/
theorem toList_layOut_cons {α : Type} (level : Nat) (opening closing : String) (text : α → String)
    (x : α) (xs : List α) : (layOut level opening closing ((x :: xs).map text)).toList =
      opening.toList ++ (indentation (level + 1) ++ ((text x).toList ++
        (textBehind (indentation (level + 1)) (fun y => (text y).toList) xs ++
          (indentation level ++ closing.toList)))) := by
  have hentries : (("," ++ lineBreak (level + 1)).intercalate ((x :: xs).map text)).toList =
      (text x).toList ++ textBehind (indentation (level + 1)) (fun y => (text y).toList) xs := by
    simpa [String.toList_intercalate, Function.comp_def, indentation, textBehind] using
      intercalate_map_cons (',' :: indentation (level + 1)) (fun y => (text y).toList) x xs
  rw [layOut, if_neg (by simp)]
  simp only [String.toList_append, hentries, indentation, List.append_assoc]

/-- The items of an array, each printed. -/
theorem prettyItems_eq_map (level : Nat) (items : List Json) :
    prettyItems level items = items.map (renderPrettyAt level) := by
  induction items with
  | nil => rfl
  | cons item items ih => rw [prettyItems, ih, List.map_cons]

/-- The members of an object, each printed. -/
theorem prettyMembers_eq_map (level : Nat) (members : List (String × Json)) :
    prettyMembers level members =
      members.map fun entry => renderString entry.1 ++ ": " ++ renderPrettyAt level entry.2 := by
  induction members with
  | nil => rfl
  | cons entry members ih => rw [prettyMembers, ih, List.map_cons]

/-- Every document is printed prettily as what it is read as. -/
theorem printedAs_renderPrettyAt (value : Json) (level : Nat) :
    PrintedAs (renderPrettyAt level value).toList value := by
  have hspace : ∀ c ∈ [' '], isSpace c = true := List.forall_mem_singleton.mpr rfl
  induction value using induction generalizing level with
  | null =>
    rw [renderPrettyAt]
    exact printedAs_render .null
  | bool b =>
    rw [renderPrettyAt]
    exact printedAs_render (.bool b)
  | number n =>
    rw [renderPrettyAt]
    exact printedAs_number n
  | string text =>
    rw [renderPrettyAt]
    exact printedAs_string text
  | array items ih =>
    rw [renderPrettyAt, prettyItems_eq_map]
    cases items with
    | nil =>
      simpa [toList_layOut_nil] using printedAs_array_nil
    | cons item items =>
      rw [toList_layOut_cons]
      simpa using printedAs_array isSpace_of_mem_indentation isSpace_of_mem_indentation
        (fun value => (renderPrettyAt (level + 1) value).toList) fun other hother =>
          ih other hother (level + 1)
  | object members ih =>
    have hmember : (fun entry : String × Json => (renderString entry.1 ++ ": " ++
        renderPrettyAt (level + 1) entry.2).toList) =
          memberText [' '] fun value => (renderPrettyAt (level + 1) value).toList := by
      funext entry
      simp [memberText]
    rw [renderPrettyAt, prettyMembers_eq_map]
    cases members with
    | nil =>
      simpa [toList_layOut_nil] using printedAs_object_nil
    | cons entry entries =>
      rw [toList_layOut_cons, hmember, congrFun hmember entry]
      simpa using printedAs_object isSpace_of_mem_indentation isSpace_of_mem_indentation hspace
        (fun value => (renderPrettyAt (level + 1) value).toList) fun other hother =>
          ih other hother (level + 1)

/-! ## Reading -/

/-- A text with white space behind it is read as what the document is read as. -/
theorem parse?_of_printedAs {text : String} {value : Json} (h : PrintedAs text.toList value)
    (space : String) (hspace : ∀ c ∈ space.toList, isSpace c = true) :
    parse? (text ++ space) = value.reread? maxDepth := by
  have hended : Ended space.toList := fun c hc =>
    Or.inr (Or.inr (Or.inr (hspace c (List.mem_of_mem_head? hc))))
  have hskip : skipSpace space.toList = [] := List.dropWhile_eq_nil_iff.mpr hspace
  rw [parse?]
  simp only [String.toList_append, h.skipSpace_append]
  rw [h.reads _ maxDepth _ (by simp only [List.length_append]; omega) hended]
  cases value.reread? maxDepth with
  | none => rfl
  | some read => simp [hskip]

/-- The compact text of a document is read as what the document is read as. -/
theorem parse?_render (value : Json) : parse? value.render = value.reread? maxDepth := by
  simpa using parse?_of_printedAs (printedAs_render value) "" (by simp)

/-- The pretty text is, too, with the line break that ends its last line. -/
theorem parse?_renderPretty (value : Json) :
    parse? (value.renderPretty ++ "\n") = value.reread? maxDepth :=
  parse?_of_printedAs (printedAs_renderPrettyAt value 0) "\n" (List.forall_mem_singleton.mpr rfl)

end Siteworks.Json
