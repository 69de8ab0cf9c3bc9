import Mathlib
import Siteworks.Proofs.Texts
import Siteworks.Stylesheet

/-!
# Declarations under new values

A stylesheet with new values in the declarations of a property has the same pieces as before, with
the new values: no declaration appears, and none is lost. So a value that is set last is the one
that counts, and what was set before leaves no trace.
-/

namespace Siteworks

namespace Text

/-- The text has no white space at its start. -/
def StartsFull (text : List Char) : Prop := ∀ c ∈ text.head?, isBlank c = false

/-- A beginning starts as the text does. -/
theorem StartsFull.of_append {start rest : List Char} (h : StartsFull (start ++ rest)) :
    StartsFull start := by
  intro c hc
  exact h c (by rw [List.head?_append, hc]; rfl)

/-- A character that is no white space starts the text. -/
theorem StartsFull.cons {c : Char} (hc : isBlank c = false) (rest : List Char) :
    StartsFull (c :: rest) := by
  intro d hd
  obtain rfl : c = d := by simpa using hd
  exact hc

/-- What follows makes no difference, unless there is nothing before it. -/
theorem StartsFull.append {start rest : List Char} (h : StartsFull start)
    (hrest : StartsFull rest) : StartsFull (start ++ rest) := by
  cases start with
  | nil => exact hrest
  | cons c start => exact fun d hd => h d hd

/-- What is taken off the beginning starts as the text does. -/
theorem StartsFull.takeWhile {text : List Char} (h : StartsFull text) (p : Char → Bool) :
    StartsFull (text.takeWhile p) := by
  have hparts : StartsFull (text.takeWhile p ++ text.dropWhile p) := by
    rwa [List.takeWhile_append_dropWhile]
  exact hparts.of_append

/-- White space has only blanks in it. -/
theorem not_mem_of_forall_isBlank {space : List Char} {c : Char}
    (hspace : ∀ c ∈ space, isBlank c = true) (hc : isBlank c = false) : c ∉ space :=
  fun hmem => by simp [hspace c hmem] at hc

end Text

namespace Stylesheet

open Text (StartsFull)

/-- The value of a piece. A character outside all declarations has none. -/
def Piece.value : Piece → List Char
  | .char _ => []
  | .declaration _ value => value

variable {name head value text : List Char} {fresh : Bool} {parts : List Piece}

/-- The text starts with a declaration of the property. -/
def Declares (name text : List Char) : Prop :=
  ∃ space rest, text = name ++ space ++ ':' :: rest ∧ (∀ c ∈ space, Text.isBlank c = true) ∧
    ';' ∈ rest

/-- Blanks in front of a text that does not start with one are what is taken off it. -/
theorem takeBlank_append {space rest : List Char} (hspace : ∀ c ∈ space, Text.isBlank c = true)
    (hrest : StartsFull rest) :
    takeBlank (space ++ rest) = (space, rest) := by
  rw [takeBlank, List.takeWhile_append_of_pos hspace, List.dropWhile_append_of_pos hspace]
  cases rest with
  | nil => simp
  | cons c rest => simp [hrest c rfl]

/-- What is taken off a text is blank, and what is left does not start with a blank. -/
theorem takeBlank_spec (text : List Char) : text = (takeBlank text).1 ++ (takeBlank text).2 ∧
    (∀ c ∈ (takeBlank text).1, Text.isBlank c = true) ∧
      StartsFull (takeBlank text).2 := by
  refine ⟨(List.takeWhile_append_dropWhile ..).symm, fun c hc => List.mem_takeWhile_imp hc, ?_⟩
  intro c hc
  have hnot := List.head?_dropWhile_not Text.isBlank text
  rwa [show (text.dropWhile Text.isBlank).head? = some c from hc] at hnot

/-- A declaration is its name, a colon in blanks and a value up to the next semicolon. -/
theorem declaration?_eq_some_iff : declaration? name text = some (head, value) ↔
    ∃ space space' rest, text = name ++ space ++ ':' :: (space' ++ value ++ ';' :: rest) ∧
      head = name ++ space ++ ':' :: space' ∧ (∀ c ∈ space, Text.isBlank c = true) ∧
        (∀ c ∈ space', Text.isBlank c = true) ∧ StartsFull value ∧ ';' ∉ value := by
  constructor
  · intro found
    simp only [declaration?, Option.bind_eq_bind, Option.bind_eq_some_iff,
      Text.isPrefixOf?_eq_some_iff] at found
    obtain ⟨follow, rfl, inside, hinside, found⟩ := found
    obtain ⟨hclosed, found⟩ := Option.ite_none_right_eq_some.1 found
    cases found
    obtain ⟨hfollow, hspace, -⟩ := takeBlank_spec follow
    obtain ⟨hinsides, hspace', hvalue⟩ := takeBlank_spec inside
    obtain ⟨rest, hrest⟩ := Text.exists_eq_takeWhile_append hclosed
    refine ⟨(takeBlank follow).1, (takeBlank inside).1, rest, ?_, by simp, hspace, hspace',
      hvalue.takeWhile _, ?_⟩
    · rw [List.append_assoc (takeBlank inside).1, ← hrest, ← hinsides, List.append_assoc,
        ← List.singleton_append, ← hinside, ← hfollow]
    · exact fun hmem => by simpa using List.mem_takeWhile_imp hmem
  · rintro ⟨space, space', rest, rfl, rfl, hspace, hspace', hvalue, hnot⟩
    have hhead : StartsFull (value ++ ';' :: rest) := hvalue.append (.cons (by decide) rest)
    have hcolon : StartsFull (':' :: (space' ++ value ++ ';' :: rest)) := .cons (by decide) _
    have hname : name.isPrefixOf? (name ++ space ++ ':' :: (space' ++ value ++ ';' :: rest)) =
        some (space ++ ':' :: (space' ++ value ++ ';' :: rest)) :=
      Text.isPrefixOf?_eq_some_iff.mpr (List.append_assoc ..)
    have hvalues : (value ++ ';' :: rest).takeWhile (· ≠ ';') = value := by
      rw [List.takeWhile_append_of_pos fun c hc => by
        simpa using ne_of_mem_of_not_mem hc hnot]
      simp
    have hpoint : [':'].isPrefixOf? (':' :: (space' ++ value ++ ';' :: rest)) =
        some (space' ++ (value ++ ';' :: rest)) :=
      Text.isPrefixOf?_eq_some_iff.mpr (by simp)
    simp only [declaration?, hname, takeBlank_append hspace hcolon, Option.bind_eq_bind,
      Option.bind_some, hpoint, takeBlank_append hspace' hhead, hvalues]
    simp

/-- A declaration is found where the text starts with one. -/
theorem isSome_declaration? : (declaration? name text).isSome ↔ Declares name text := by
  rw [Option.isSome_iff_exists]
  constructor
  · rintro ⟨⟨head, value⟩, h⟩
    obtain ⟨space, space', rest, rfl, -, hspace, -⟩ := declaration?_eq_some_iff.mp h
    exact ⟨space, _, rfl, hspace, by simp⟩
  · rintro ⟨space, rest, rfl, hspace, hsemicolon⟩
    obtain ⟨hrest, hspace', hvalue⟩ := takeBlank_spec rest
    have hclosed : ';' ∈ (takeBlank rest).2 := by
      rw [hrest, List.mem_append] at hsemicolon
      exact hsemicolon.resolve_left (Text.not_mem_of_forall_isBlank hspace' (by decide))
    obtain ⟨follow, hfollow⟩ := Text.exists_eq_takeWhile_append hclosed
    refine ⟨⟨_, (takeBlank rest).2.takeWhile (· ≠ ';')⟩, declaration?_eq_some_iff.mpr
      ⟨space, (takeBlank rest).1, follow, ?_, rfl, hspace, hspace', hvalue.takeWhile _, ?_⟩⟩
    · rw [List.append_assoc (takeBlank rest).1, ← hfollow, ← hrest]
    · exact fun hmem => by simpa using List.mem_takeWhile_imp hmem

/-- A text cut into pieces. A declaration is taken only in a fresh place, that is at the start of
the text or behind a separating character that stands for itself. -/
inductive Cut (name : List Char) : Bool → List Char → List Piece → Prop
  /-- Nothing is left. -/
  | nil {fresh : Bool} : Cut name fresh [] []
  /-- A character stands for itself, in a fresh place only if no declaration starts with it. -/
  | char {fresh : Bool} {c : Char} {rest : List Char} {parts : List Piece} :
    (fresh = true → declaration? name (c :: rest) = none) → Cut name (separates c) rest parts →
      Cut name fresh (c :: rest) (.char c :: parts)
  /-- A declaration is taken in a fresh place. -/
  | declaration {head value rest : List Char} {parts : List Piece} :
    declaration? name ((Piece.declaration head value).text ++ rest) = some (head, value) →
      Cut name false rest parts →
        Cut name true ((Piece.declaration head value).text ++ rest)
          (.declaration head value :: parts)

namespace Cut

/-- A place is as good as a fresh one where no declaration starts. -/
theorem of_declaration?_eq_none (h : Cut name false text parts)
    (hnone : declaration? name text = none) : Cut name fresh text parts := by
  cases h with
  | nil => exact nil
  | char _ hrest => exact char (fun _ => hnone) hrest

/-- What is left of the text is cut into the pieces behind the declaration before. -/
theorem piecesFrom (name : List Char) (pending : Nat) (text : List Char) :
    Cut name false (text.drop pending) (piecesFrom name pending text) := by
  fun_induction Stylesheet.piecesFrom name pending text with
  | case1 => simpa using nil
  | case2 pending c rest ih => simpa using ih
  | case3 c rest head value found ih =>
    split at found
    next hseparates =>
      obtain ⟨follow, rfl⟩ := exists_of_declaration? found
      rw [List.drop_left' (by simp [Piece.text, Nat.add_assoc])] at ih
      exact char (by simp) (by rw [hseparates]; exact declaration found ih)
    next => cases found
  | case4 c rest found ih =>
    refine char (by simp) ?_
    split at found
    next => exact ih.of_declaration?_eq_none found
    next hseparates =>
      rw [Bool.not_eq_true] at hseparates
      rw [hseparates]
      exact ih

/-- The pieces of a stylesheet cut it. -/
theorem pieces (name text : List Char) : Cut name true text (pieces name text) := by
  unfold Stylesheet.pieces
  split
  next head value found =>
    obtain ⟨follow, rfl⟩ := exists_of_declaration? found
    have hrest := piecesFrom name (head.length + value.length + 1)
      ((Piece.declaration head value).text ++ follow)
    rw [List.drop_left' (by simp [Piece.text, Nat.add_assoc])] at hrest
    exact declaration found hrest
  next found => exact (piecesFrom name 0 text).of_declaration?_eq_none found

/-- A text is cut in one way. -/
theorem unique {others : List Piece} (h : Cut name fresh text parts)
    (h' : Cut name fresh text others) : parts = others := by
  induction h generalizing others with
  | nil =>
    generalize htext : [] = text at h'
    cases h' with
    | nil => rfl
    | char _ _ => cases htext
    | declaration _ _ => simp [Piece.text] at htext
  | @char fresh c rest parts hnone hrest ih =>
    generalize htext : c :: rest = text at h'
    cases h' with
    | nil => cases htext
    | char _ hrest' =>
      cases htext
      rw [ih hrest']
    | declaration found _ =>
      rw [← htext, hnone rfl] at found
      cases found
  | @declaration head value rest parts found hrest ih =>
    generalize htext : (Piece.declaration head value).text ++ rest = text at h'
    cases h' with
    | nil => simp [Piece.text] at htext
    | char hnone _ =>
      rw [← htext, found] at hnone
      cases hnone rfl
    | declaration found' hrest' =>
      rw [htext, found'] at found
      cases found
      rw [ih (List.append_cancel_left htext ▸ hrest')]

end Cut

/-- A stylesheet with new values shares a beginning with the old one: up to a colon that a semicolon
follows in both, or as a whole. -/
theorem Cut.shared (h : Cut name fresh text parts) (new : List Char) :
    (parts.flatMap fun piece => (piece.setValue new).text) = text ∨
      ∃ start follow follow', text = start ++ ':' :: follow ∧ ';' ∈ follow ∧
        (parts.flatMap fun piece => (piece.setValue new).text) = start ++ ':' :: follow' := by
  induction h with
  | nil => exact Or.inl rfl
  | @char fresh c rest parts _ _ ih =>
    rcases ih with hsame | ⟨start, follow, follow', rfl, hsemicolon, hnew⟩
    · exact Or.inl (by rw [List.flatMap_cons, hsame]; rfl)
    · exact Or.inr ⟨c :: start, follow, follow', rfl, hsemicolon, by
        rw [List.flatMap_cons, hnew]; rfl⟩
  | @declaration head value rest parts found _ _ =>
    obtain ⟨space, space', _, -, rfl, -⟩ := declaration?_eq_some_iff.mp found
    exact Or.inr ⟨name ++ space, space' ++ value ++ [';'] ++ rest, _, by simp [Piece.text],
      by simp, by simp [Piece.setValue, Piece.text]; rfl⟩

/-- With new values no declaration appears where there was none. -/
theorem Cut.declares_of_setValue (hname : ':' ∉ name) (h : Cut name fresh text parts)
    (new : List Char)
    (hdeclares : Declares name (parts.flatMap fun piece => (piece.setValue new).text)) :
    Declares name text := by
  rcases h.shared new with hsame | ⟨start, follow, follow', rfl, hsemicolon, hnew⟩
  · rwa [hsame] at hdeclares
  · obtain ⟨space, rest, htext, hspace, -⟩ := hdeclares
    have hcolon : ':' ∉ name ++ space := by
      rw [List.mem_append, not_or]
      exact ⟨hname, Text.not_mem_of_forall_isBlank hspace (by decide)⟩
    rw [hnew, List.append_eq_append_iff] at htext
    rcases htext with ⟨between, hstart, hbetween⟩ | ⟨between, rfl, hbetween⟩
    · cases between with
      | nil => exact ⟨space, follow, by rw [hstart, List.append_nil], hspace, hsemicolon⟩
      | cons c between =>
        obtain rfl : ':' = c := (List.cons.inj hbetween).1
        exact absurd (by simp [hstart]) hcolon
    · cases between with
      | nil => exact ⟨space, follow, by simp, hspace, hsemicolon⟩
      | cons c between =>
        obtain rfl : ':' = c := (List.cons.inj hbetween).1
        exact ⟨space, between ++ ':' :: follow, by simp, hspace, by simp [hsemicolon]⟩

/-- A declaration with a new value is found like the old one. -/
theorem declaration?_setValue {rest rest' new : List Char}
    (found : declaration? name ((Piece.declaration head value).text ++ rest) = some (head, value))
    (hnew : ';' ∉ new) (hhead : StartsFull new) :
    declaration? name ((Piece.declaration head new).text ++ rest') = some (head, new) := by
  obtain ⟨space, space', _, -, rfl, hspace, hspace', -⟩ := declaration?_eq_some_iff.mp found
  exact declaration?_eq_some_iff.mpr ⟨space, space', rest', by simp [Piece.text], rfl, hspace,
    hspace', hhead, hnew⟩

/-- A stylesheet with new values is cut into the pieces with new values. -/
theorem Cut.setValue (hname : ':' ∉ name) {new : List Char} (hnew : ';' ∉ new)
    (hhead : StartsFull new) (h : Cut name fresh text parts) :
    Cut name fresh (parts.flatMap fun piece => (piece.setValue new).text)
      (parts.map (Piece.setValue new)) := by
  induction h with
  | nil => exact nil
  | @char fresh c rest parts hnone hrest ih =>
    refine char (fun hfresh => ?_) ih
    by_contra hsome
    have hdeclares := isSome_declaration?.mp (Option.isSome_iff_ne_none.mpr hsome)
    have hold := (char hnone hrest).declares_of_setValue hname new hdeclares
    rw [← isSome_declaration?, hnone hfresh] at hold
    cases hold
  | @declaration head value rest parts found hrest ih =>
    exact declaration (declaration?_setValue found hnew hhead) ih

/-- The pieces of a stylesheet with new values. -/
theorem pieces_setProperty (hname : ':' ∉ name) {new : List Char} (hnew : ';' ∉ new)
    (hhead : StartsFull new) (text : List Char) :
    pieces name (setProperty name new text) = (pieces name text).map (Piece.setValue new) :=
  (Cut.pieces name _).unique ((Cut.pieces name text).setValue hname hnew hhead)

/-- Setting a property a second time is setting it once. -/
theorem setProperty_setProperty (hname : ':' ∉ name) {new : List Char} (hnew : ';' ∉ new)
    (hhead : StartsFull new) (last text : List Char) :
    setProperty name last (setProperty name new text) = setProperty name last text := by
  have htwice : ∀ piece : Piece, (piece.setValue new).setValue last = piece.setValue last := by
    intro piece
    cases piece <;> rfl
  rw [setProperty, pieces_setProperty hname hnew hhead, List.flatMap_map, setProperty]
  simp only [htwice]

/-- Setting a property does not change whether it is declared. -/
theorem declares_setProperty (hname : ':' ∉ name) {new : List Char} (hnew : ';' ∉ new)
    (hhead : StartsFull new) (text : List Char) :
    declares name (setProperty name new text) = declares name text := by
  have hkind : ∀ piece : Piece, (piece.setValue new).isDeclaration = piece.isDeclaration := by
    intro piece
    cases piece <;> rfl
  rw [declares, pieces_setProperty hname hnew hhead, List.any_map, declares]
  simp only [Function.comp_def, hkind]

/-- The variable that the default font family is pointed at last is the one that counts. -/
theorem applyFontVariable_applyFontVariable {fontVariable stylesheet stylesheet' : List Char}
    (hvariable : ';' ∉ fontVariable)
    (h : applyFontVariable fontVariable stylesheet = .ok stylesheet') (last : List Char) :
    applyFontVariable last stylesheet' = applyFontVariable last stylesheet := by
  have hnew : ';' ∉ "var(".toList ++ fontVariable ++ [')'] := by simp [hvariable]
  have hhead : StartsFull ("var(".toList ++ fontVariable ++ [')']) :=
    .cons (c := 'v') (by decide) _
  have hname : ':' ∉ "--font-sans".toList := by simp
  simp only [applyFontVariable] at h ⊢
  split at h
  next hdeclares =>
    cases h
    rw [declares_setProperty hname hnew hhead, setProperty_setProperty hname hnew hhead]
  next => cases h

end Stylesheet

end Siteworks
