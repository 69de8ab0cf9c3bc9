import Mathlib
import Siteworks.Json.Reader
import Siteworks.Proofs.Json.Numerals

/-!
# What compact texts stand for

The compact text of a document can be told from what follows it, as long as that goes on with a
comma or a closing bracket, and no other document has it. A string's end is where the reader sees
it; a number's is the first character that no number has.
-/

namespace Siteworks

namespace Json

/-- Four digits with the code of a control character stand for that character. -/
theorem ofUnit?_hexUnit? {c : Char} (h : c.toNat < 0x20) :
    (hexUnit? '0' '0' (Nat.digitChar (c.toNat / 16)) (Nat.digitChar (c.toNat % 16))).bind
      Escape.ofUnit? = some (.char c) := by
  have hunit : ∀ n < 0x20, hexUnit? '0' '0' (Nat.digitChar (n / 16)) (Nat.digitChar (n % 16)) =
      some n := by decide
  rw [hunit c.toNat h, Option.bind_some, Escape.ofUnit?, if_neg (by omega), if_neg (by omega),
    Char.ofNat_toNat]

/-- The reader takes an escaped character for the character. -/
theorem readText_escapeChar (acc : List Char) (c : Char) (rest : List Char) :
    readText acc (escapeChar c ++ rest) = readText (c :: acc) rest := by
  unfold escapeChar
  split
  next h => subst h; rfl
  split
  next h => subst h; rfl
  split
  next h => subst h; rfl
  split
  next h => subst h; rfl
  split
  next h => subst h; rfl
  split
  next h => subst h; rfl
  split
  next h => subst h; rfl
  split
  next hcontrol =>
    simp only [List.cons_append, List.nil_append, readText, ofUnit?_hexUnit? hcontrol]
  next hquote hbackslash _ _ _ _ _ hcontrol =>
    rw [List.singleton_append, readText, if_neg hcontrol]
    · exact hquote
    · intro _ _ _ _ _ h
      exact absurd h hbackslash
    · intro _ _ h
      exact absurd h hbackslash

/-- The reader reads an escaped text up to the quote behind it. -/
theorem readText_flatMap_escapeChar (acc text rest : List Char) :
    readText acc (text.flatMap escapeChar ++ '"' :: rest) = some (acc.reverse ++ text, rest) := by
  induction text generalizing acc with
  | nil => simp [readText]
  | cons c text ih =>
    rw [List.flatMap_cons, List.append_assoc, readText_escapeChar, ih]
    simp

/-- A quoted string ends at its closing quote, and no other string has its text. -/
theorem renderString_append_inj {a b : String} {r s : List Char}
    (h : (renderString a).toList ++ r = (renderString b).toList ++ s) : a = b ∧ r = s := by
  have htail : a.toList.flatMap escapeChar ++ '"' :: r = b.toList.flatMap escapeChar ++ '"' :: s := by
    simpa [renderString] using h
  have hread := congrArg (readText []) htail
  rw [readText_flatMap_escapeChar, readText_flatMap_escapeChar] at hread
  simpa [String.toList_inj] using hread

/-- The text goes on with a comma or a closing bracket, if it goes on. -/
def Delimited (rest : List Char) : Prop := ∀ c ∈ rest.head?, c = ',' ∨ c = ']' ∨ c = '\x7d'

/-- A text that goes on after a number does so with a character that numbers do not have. -/
theorem Delimited.not_isMark {rest : List Char} (h : Delimited rest) :
    ∀ c ∈ rest.head?, ¬ Numeral.isMark c = true := by
  intro c hc
  rcases h c hc with rfl | rfl | rfl <;> decide

/-- A statement about documents holds if it holds for an array when it holds for the items, and for
an object when it holds for the values of its members. -/
theorem induction {P : Json → Prop} (null : P .null) (bool : ∀ b, P (.bool b))
    (number : ∀ n, P (.number n)) (string : ∀ text, P (.string text))
    (array : ∀ items, (∀ item ∈ items, P item) → P (.array items))
    (object : ∀ members, (∀ entry ∈ members, P entry.2) → P (.object members)) (value : Json) :
    P value := by
  refine Json.rec (motive_1 := P) (motive_2 := fun items => ∀ item ∈ items, P item)
    (motive_3 := fun members => ∀ entry ∈ members, P entry.2) (motive_4 := fun entry => P entry.2)
    null bool number string array object ?_ ?_ ?_ ?_ ?_ value
  · simp
  · exact fun item items h hs => List.forall_mem_cons.mpr ⟨h, hs⟩
  · simp
  · exact fun entry members h hs => List.forall_mem_cons.mpr ⟨h, hs⟩
  · exact fun key value h => h

/-- Separated entries: the first one, and every other one behind a separator. -/
theorem intercalate_map_cons {α : Type} (separator : List Char) (text : α → List Char) (x : α)
    (xs : List α) : separator.intercalate ((x :: xs).map text) =
      text x ++ xs.flatMap fun y => separator ++ text y := by
  induction xs generalizing x with
  | nil => simp
  | cons y ys ih =>
    rw [List.map_cons, List.map_cons, List.intercalate_cons_cons, ← List.map_cons, ih y]
    simp

/-- Entries between commas: the first one, and every other one behind a comma. -/
theorem intercalate_comma_cons {α : Type} (text : α → List Char) (x : α) (xs : List α) :
    [','].intercalate ((x :: xs).map text) = text x ++ xs.flatMap fun y => ',' :: text y :=
  intercalate_map_cons [','] text x xs

/-- Entries between commas can be told from each other and from the closing bracket behind them. -/
theorem intercalate_comma_append_inj {α : Type} {text : α → List Char} {close : Char}
    (hclose : close = ']' ∨ close = '\x7d') {xs ys : List α} {r s : List Char}
    (hinj : ∀ x ∈ xs, ∀ y ∈ ys, ∀ r s, Delimited r → Delimited s → text x ++ r = text y ++ s →
      x = y ∧ r = s)
    (hopen : ∀ x ∈ xs ++ ys, ∀ r s, text x ++ r ≠ close :: s)
    (h : [','].intercalate (xs.map text) ++ close :: r =
      [','].intercalate (ys.map text) ++ close :: s) :
    xs = ys ∧ r = s := by
  have hcomma : close ≠ ',' := by rcases hclose with rfl | rfl <;> decide
  have hdelimited : ∀ (zs : List α) (r : List Char),
      Delimited ((zs.flatMap fun z => ',' :: text z) ++ close :: r) := by
    intro zs r c hc
    cases zs with
    | nil => obtain rfl : close = c := by simpa using hc
             exact Or.inr hclose
    | cons z zs => exact Or.inl (by simpa using hc.symm)
  cases xs with
  | nil =>
    cases ys with
    | nil => exact ⟨rfl, by simpa using h⟩
    | cons y ys =>
      rw [intercalate_comma_cons, List.append_assoc] at h
      exact absurd h.symm (hopen y (by simp) _ _)
  | cons x xs =>
    cases ys with
    | nil =>
      rw [intercalate_comma_cons, List.append_assoc] at h
      exact absurd h (hopen x (by simp) _ _)
    | cons y ys =>
      rw [intercalate_comma_cons, intercalate_comma_cons, List.append_assoc, List.append_assoc] at h
      obtain ⟨hxy, hrest⟩ := hinj x List.mem_cons_self y List.mem_cons_self _ _
        (hdelimited xs r) (hdelimited ys s) h
      obtain ⟨hxsys, hrs⟩ := Text.flatMap_append_inj Delimited [close]
        (fun _ _ _ hc => Or.inl (by simpa using hc.symm))
        (fun _ _ hc => Or.inr (by simpa [← Option.some_inj.mp hc] using hclose))
        (fun x hx y hy r s hr hs htext => hinj x (List.mem_cons_of_mem _ hx) y
          (List.mem_cons_of_mem _ hy) r s hr hs (List.cons.inj htext).2)
        (fun _ _ _ _ hc => hcomma (List.cons.inj hc).1.symm) hrest
      exact ⟨congrArg₂ List.cons hxy hxsys, hrs⟩

/-- The kind of document that a first character announces, if a document can start with it. -/
def announced? : List Char → Option Nat
  | [] => none
  | c :: _ =>
    if c = 'n' then some Json.null.ctorIdx
    else if c = 't' ∨ c = 'f' then some (Json.bool true).ctorIdx
    else if c = '"' then some (Json.string "").ctorIdx
    else if c = '[' then some (Json.array []).ctorIdx
    else if c = '\x7b' then some (Json.object []).ctorIdx
    else if c.isDigit ∨ c = '-' then some (Json.number (.integer 0)).ctorIdx
    else none

/-- The first character of a document tells its kind. -/
theorem announced?_render (value : Json) (rest : List Char) :
    announced? (value.render.toList ++ rest) = some value.ctorIdx := by
  cases value with
  | null => simp [render, announced?]
  | bool b => cases b <;> simp [render, announced?, Json.ctorIdx]
  | number n =>
    obtain ⟨numeral, htext⟩ := n.exists_numeral
    obtain ⟨c, cs, hc, hlead⟩ := numeral.exists_text_eq_cons
    have hne : ∀ d : Char, d.isDigit = false → d ≠ '-' → c ≠ d := by
      rintro d hdigit hminus rfl
      rcases hlead with hlead | hlead
      · exact absurd (hdigit.symm.trans hlead) Bool.false_ne_true
      · exact hminus hlead
    rw [render, htext, hc, List.cons_append, announced?, if_neg (hne 'n' (by decide) (by decide)),
      if_neg (by simp [hne 't' (by decide) (by decide), hne 'f' (by decide) (by decide)]),
      if_neg (hne '"' (by decide) (by decide)), if_neg (hne '[' (by decide) (by decide)),
      if_neg (hne '\x7b' (by decide) (by decide)), if_pos hlead]
    rfl
  | string text => simp [render, renderString, announced?, Json.ctorIdx]
  | array items => simp [render, announced?, Json.ctorIdx]
  | object members => simp [render, announced?, Json.ctorIdx]

/-- The items of an array, each rendered. -/
theorem renderItems_eq_map (items : List Json) : renderItems items = items.map render := by
  induction items with
  | nil => rfl
  | cons item items ih => rw [renderItems, ih, List.map_cons]

/-- The text of a member. -/
def renderMember (entry : String × Json) : List Char :=
  (renderString entry.1).toList ++ ':' :: entry.2.render.toList

/-- The members of an object, each rendered. -/
theorem toList_renderMembers (members : List (String × Json)) :
    (renderMembers members).map String.toList = members.map renderMember := by
  induction members with
  | nil => rfl
  | cons entry members ih => simp [renderMembers, renderMember, ih]

/-- The text of an array: its items between commas. -/
theorem toList_render_array (items : List Json) : (Json.array items).render.toList =
    '[' :: [','].intercalate (items.map fun item => item.render.toList) ++ [']'] := by
  simp [render, renderItems_eq_map, String.toList_intercalate, Function.comp_def]

/-- The text of an object: its members between commas. -/
theorem toList_render_object (members : List (String × Json)) : (Json.object members).render.toList =
    '\x7b' :: [','].intercalate (members.map renderMember) ++ ['\x7d'] := by
  simp [render, String.toList_intercalate, toList_renderMembers]

/-- The text of a member can be told from what follows it if that of its value can. -/
theorem renderMember_append_inj {x y : String × Json} {r s : List Char}
    (hvalue : x.2.render.toList ++ r = y.2.render.toList ++ s → x.2 = y.2 ∧ r = s)
    (h : renderMember x ++ r = renderMember y ++ s) : x = y ∧ r = s := by
  simp only [renderMember, List.append_assoc, List.cons_append] at h
  obtain ⟨hkey, hrest⟩ := renderString_append_inj h
  obtain ⟨hxy, hrs⟩ := hvalue (List.cons.inj hrest).2
  exact ⟨Prod.ext hkey hxy, hrs⟩

/-- Documents whose texts begin the same text are of one kind. -/
theorem ctorIdx_eq_of_render {v w : Json} {r s : List Char}
    (h : v.render.toList ++ r = w.render.toList ++ s) : v.ctorIdx = w.ctorIdx := by
  have hkind := congrArg announced? h
  rwa [announced?_render, announced?_render, Option.some_inj] at hkind

/-- A document's text can be told from what follows it, and no other document has it. -/
theorem render_append_inj {v w : Json} {r s : List Char} (hr : Delimited r) (hs : Delimited s)
    (h : v.render.toList ++ r = w.render.toList ++ s) : v = w ∧ r = s := by
  have hkind := ctorIdx_eq_of_render h
  induction v using induction generalizing w r s with
  | null =>
    cases w with
    | null => exact ⟨rfl, List.append_cancel_left h⟩
    | _ => cases hkind
  | bool b =>
    cases w with
    | bool c => cases b <;> cases c <;> simp [render] at h ⊢ <;> exact h
    | _ => cases hkind
  | number n =>
    cases w with
    | number m =>
      obtain ⟨numeral, hn⟩ := n.exists_numeral
      obtain ⟨other, hm⟩ := m.exists_numeral
      obtain ⟨htext, hrs⟩ := Text.append_inj_of_forall (hn ▸ numeral.isMark_of_mem_text)
        (hm ▸ other.isMark_of_mem_text) hr.not_isMark hs.not_isMark h
      exact ⟨congrArg Json.number (Number.text_injective (String.toList_inj.mp htext)), hrs⟩
    | _ => cases hkind
  | string text =>
    cases w with
    | string other =>
      obtain ⟨rfl, hrs⟩ := renderString_append_inj h
      exact ⟨rfl, hrs⟩
    | _ => cases hkind
  | array items ih =>
    cases w with
    | array others =>
      rw [toList_render_array, toList_render_array, List.cons_append, List.cons_append,
        List.append_assoc, List.append_assoc] at h
      obtain ⟨rfl, hrs⟩ := intercalate_comma_append_inj (Or.inl rfl)
        (fun x hx y _ r s hr hs htext => ih x hx hr hs htext (ctorIdx_eq_of_render htext))
        (fun x _ r s hopen => Option.some_ne_none _
          ((announced?_render x r).symm.trans (congrArg announced? hopen)))
        (List.cons.inj h).2
      exact ⟨rfl, hrs⟩
    | _ => cases hkind
  | object members ih =>
    cases w with
    | object others =>
      rw [toList_render_object, toList_render_object, List.cons_append, List.cons_append,
        List.append_assoc, List.append_assoc] at h
      obtain ⟨rfl, hrs⟩ := intercalate_comma_append_inj (Or.inr rfl)
        (fun x hx y _ r s hr hs htext => renderMember_append_inj
          (fun hvalue => ih x hx hr hs hvalue (ctorIdx_eq_of_render hvalue)) htext)
        (fun x _ r s hopen => by simp [renderMember, renderString] at hopen)
        (List.cons.inj h).2
      exact ⟨rfl, hrs⟩
    | _ => cases hkind

end Json

end Siteworks
