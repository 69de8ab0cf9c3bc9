import Mathlib
import Siteworks.Proofs.Stylesheet.Heads

/-!
# Declarations between semicolons

A stylesheet is cut by its semicolons into segments. A declaration goes up to a semicolon, so that a
segment has one declaration of a property at most: the first one that stands in a fresh place, and
the start of a segment is such a place unless the segment before has one. The part of a segment up
to the value of its declaration says all about it, and other values leave that part as it is.
-/

namespace Siteworks.Stylesheet

open Text (isBlank)

variable {name head value text rest new : List Char} {fresh : Bool}

/-! ## Segments in a row -/

/-- The text of segments that are closed by a semicolon each, and of what follows the last one. -/
def closedText (segments : List (List Char)) (last : List Char) : List Char :=
  segments.flatMap (· ++ [';']) ++ last

/-- The first segment is followed by the others. -/
theorem closedText_cons (segment last : List Char) (segments : List (List Char)) :
    closedText (segment :: segments) last = segment ++ ';' :: closedText segments last := by
  simp [closedText]

/-- Every text is cut into segments by its semicolons. -/
theorem exists_closedText (text : List Char) : ∃ segments last, text = closedText segments last ∧
    (∀ segment ∈ segments, ';' ∉ segment) ∧ ';' ∉ last := by
  induction text with
  | nil => exact ⟨[], [], rfl, by simp, by simp⟩
  | cons c rest ih =>
    obtain ⟨segments, last, rfl, hsegments, hlast⟩ := ih
    by_cases hc : ';' = c
    · subst hc
      exact ⟨[] :: segments, last, (closedText_cons [] last segments).symm,
        List.forall_mem_cons.mpr ⟨by simp, hsegments⟩, hlast⟩
    · cases segments with
      | nil => exact ⟨[], c :: last, rfl, hsegments, by simp [hc, hlast]⟩
      | cons segment segments =>
        refine ⟨(c :: segment) :: segments, last, by simp [closedText_cons], ?_, hlast⟩
        rw [List.forall_mem_cons] at hsegments ⊢
        exact ⟨by simp [hc, hsegments.1], hsegments.2⟩

/-- A text is cut into segments in one way. -/
theorem closedText_inj {segments segments' : List (List Char)} {last last' : List Char}
    (hsegments : ∀ segment ∈ segments, ';' ∉ segment)
    (hsegments' : ∀ segment ∈ segments', ';' ∉ segment) (hlast : ';' ∉ last) (hlast' : ';' ∉ last')
    (h : closedText segments last = closedText segments' last') :
    segments = segments' ∧ last = last' := by
  induction segments generalizing segments' with
  | nil =>
    cases segments' with
    | nil => exact ⟨rfl, h⟩
    | cons segment segments' =>
      rw [closedText_cons] at h
      obtain rfl : last = _ := h
      simp at hlast
  | cons segment segments ih =>
    rw [closedText_cons] at h
    cases segments' with
    | nil =>
      obtain rfl : _ = last' := h
      simp at hlast'
    | cons segment' segments' =>
      rw [closedText_cons] at h
      rw [List.forall_mem_cons] at hsegments hsegments'
      obtain ⟨rfl, hrest⟩ := Text.cut_inj hsegments.1 hsegments'.1 h
      obtain ⟨rfl, rfl⟩ := ih hsegments.2 hsegments'.2 hrest
      exact ⟨rfl, rfl⟩

/-- What is found in segments in a row, the first of which may start in a fresh place. A declaration
keeps the place behind its semicolon from being fresh. -/
def marks (name : List Char) : Bool → List (List Char) → List (Option (List Char))
  | _, [] => []
  | fresh, segment :: rest =>
    found? name fresh segment :: marks name (found? name fresh segment).isNone rest

/-- A segment with a new value, if something is found in it. -/
def revalue (new segment : List Char) : Option (List Char) → List Char
  | some start => start ++ new
  | none => segment

@[simp] theorem revalue_some (new segment start : List Char) :
    revalue new segment (some start) = start ++ new := rfl

@[simp] theorem revalue_none (new segment : List Char) : revalue new segment none = segment := rfl

/-- Segments in a row with new values. -/
def recast (new : List Char) (segments : List (List Char)) (found : List (Option (List Char))) :
    List (List Char) :=
  segments.zipWith (revalue new) found

/-- The first segment gets its new value on its own. -/
theorem recast_cons (new segment : List Char) (segments : List (List Char))
    (found : Option (List Char)) (others : List (Option (List Char))) :
    recast new (segment :: segments) (found :: others) =
      revalue new segment found :: recast new segments others := rfl

/-- A declaration is found at the start of a segment exactly if its head is. -/
theorem declaration?_segment (hname : ';' ∉ name) (htext : ';' ∉ text) (rest : List Char) :
    declaration? name (text ++ ';' :: rest) = some (head, value) ↔
      head? name text = some head ∧ text = head ++ value := by
  rw [declaration?_eq_some_iff, head?_eq_some_iff]
  constructor
  · rintro ⟨space, space', rest', hcut, rfl, hspace, hspace', hvalue, hclosed⟩
    have hblank {space : List Char} (hspace : ∀ c ∈ space, isBlank c = true) : ';' ∉ space :=
      Text.not_mem_of_forall_isBlank hspace (by decide)
    have hhead : ';' ∉ name ++ space ++ ':' :: (space' ++ value) := by
      simp [hname, hblank hspace, hblank hspace', hclosed]
    have hcut : text ++ ';' :: rest =
        (name ++ space ++ ':' :: (space' ++ value)) ++ ';' :: rest' := by simp [hcut]
    obtain ⟨rfl, -⟩ := Text.cut_inj htext hhead hcut
    exact ⟨⟨⟨space, space', rfl, hspace, hspace'⟩, value, by simp, hvalue⟩, by simp⟩
  · rintro ⟨⟨⟨space, space', rfl, hspace, hspace'⟩, value', hvalue', hfull⟩, rfl⟩
    obtain rfl := List.append_cancel_left hvalue'
    exact ⟨space, space', rest, by simp, rfl, hspace, hspace', hfull,
      fun hmem => htext (List.mem_append_right _ hmem)⟩

/-- No declaration starts a segment in which no head is found at the start. -/
theorem declaration?_segment_eq_none (hname : ';' ∉ name) (htext : ';' ∉ text)
    (rest : List Char) :
    declaration? name (text ++ ';' :: rest) = none ↔ head? name text = none := by
  rw [Option.eq_none_iff_forall_ne_some, Option.eq_none_iff_forall_ne_some]
  constructor
  · intro hnone head hhead
    obtain ⟨-, value, hvalue, -⟩ := head?_eq_some_iff.mp hhead
    exact hnone (head, value) ((declaration?_segment hname htext rest).mpr ⟨hhead, hvalue⟩)
  · rintro hnone ⟨head, value⟩ found
    exact hnone head ((declaration?_segment hname htext rest).mp found).1

/-- The pieces of a segment and its semicolon: the declaration that is found is one of them, and the
last. -/
inductive SegmentPieces : Option (List Char) → List Char → List Piece → Prop
  /-- Nothing is found. -/
  | chars {segment : List Char} :
    SegmentPieces none segment ((segment ++ [';']).map Piece.char)
  /-- A declaration is found. -/
  | declaration (front : List Char) {head value : List Char} :
    SegmentPieces (some (front ++ head)) (front ++ head ++ value)
      (front.map Piece.char ++ [.declaration head value])

/-- A character in front of a segment is one more piece. -/
theorem SegmentPieces.cons {found : Option (List Char)} {segment : List Char} {pieces : List Piece}
    (h : SegmentPieces found segment pieces) (c : Char) :
    SegmentPieces (found.map (c :: ·)) (c :: segment) (.char c :: pieces) := by
  cases h with
  | chars => exact chars
  | declaration front => exact declaration (c :: front)

/-- A segment is cut into its pieces. -/
theorem Cut.append_segment (hname : IsName name) {segment : List Char} (hsegment : ';' ∉ segment)
    {parts : List Piece} (h : Cut name (found? name fresh segment).isNone rest parts) :
    ∃ pieces, SegmentPieces (found? name fresh segment) segment pieces ∧
      Cut name fresh (segment ++ ';' :: rest) (pieces ++ parts) := by
  induction segment generalizing fresh with
  | nil =>
    have hnone := (declaration?_segment_eq_none hname.semicolon hsegment rest).mpr (head?_nil name)
    exact ⟨_, .chars, char (fun _ => hnone) h⟩
  | cons c segment ih =>
    have hsemicolon : ';' ∉ segment := fun hmem => hsegment (List.mem_cons_of_mem _ hmem)
    rw [found?_cons] at h ⊢
    cases hhead : if fresh then head? name (c :: segment) else none with
    | some head =>
      rw [hhead] at h
      obtain ⟨rfl, hhead⟩ := Option.ite_none_right_eq_some.mp hhead
      obtain ⟨-, value, hvalue, -⟩ := head?_eq_some_iff.mp hhead
      have found := (declaration?_segment hname.semicolon hsegment rest).mpr ⟨hhead, hvalue⟩
      have hsplit : c :: segment ++ ';' :: rest = (Piece.declaration head value).text ++ rest := by
        rw [hvalue]
        simp [Piece.text]
      rw [hsplit] at found ⊢
      exact ⟨[.declaration head value], hvalue ▸ .declaration [], declaration found h⟩
    | none =>
      rw [hhead, Option.none_or, Option.isNone_map] at h
      obtain ⟨pieces, hpieces, hcut⟩ := ih hsemicolon h
      refine ⟨.char c :: pieces, hpieces.cons c, char (fun hfresh => ?_) hcut⟩
      rw [if_pos hfresh] at hhead
      exact (declaration?_segment_eq_none hname.semicolon hsegment rest).mpr hhead

/-! ## What is read off the segments -/

/-- The beginnings of a stylesheet behind which a semicolon closes a declaration. -/
inductive ClosesIn : List Piece → List Char → Prop
  /-- The first piece is a declaration. -/
  | here {head value : List Char} {parts : List Piece} :
    ClosesIn (.declaration head value :: parts) (head ++ value)
  /-- A declaration follows. -/
  | later {piece : Piece} {parts : List Piece} {start : List Char} : ClosesIn parts start →
    ClosesIn (piece :: parts) (piece.text ++ start)

/-- Behind a beginning of the stylesheet a semicolon closes a declaration of the property. -/
def Closes (name text start : List Char) : Prop := ClosesIn (pieces name text) start

/-- The text of segments in a row up to the semicolon that closes one of them. -/
def upTo (segments : List (List Char)) (k : Nat) : List Char :=
  closedText (segments.take k) (segments[k]?.getD [])

/-- The pieces of a segment say whether it has a declaration. -/
theorem SegmentPieces.any_isDeclaration {found : Option (List Char)} {segment : List Char}
    {pieces : List Piece} (h : SegmentPieces found segment pieces) :
    pieces.any Piece.isDeclaration = found.isSome := by
  cases h with
  | chars => simp [Piece.isDeclaration]
  | declaration front => simp [Piece.isDeclaration]

/-- Characters stay as they are. -/
theorem flatMap_setValue_char (new : List Char) (chars : List Char) :
    ((chars.map Piece.char).flatMap fun piece => (piece.setValue new).text) = chars := by
  simp [List.flatMap_map, Piece.setValue, Piece.text]

/-- The pieces of a segment with a new value are the segment with the new value. -/
theorem SegmentPieces.flatMap_setValue {found : Option (List Char)} {segment : List Char}
    {pieces : List Piece} (h : SegmentPieces found segment pieces) (new : List Char) :
    (pieces.flatMap fun piece => (piece.setValue new).text) =
      revalue new segment found ++ [';'] := by
  cases h with
  | chars => exact flatMap_setValue_char new _
  | declaration front =>
    rw [List.flatMap_append, flatMap_setValue_char]
    simp [Piece.setValue, Piece.text, revalue]

/-- Characters close no declaration. -/
theorem closesIn_map_char {chars start : List Char} {parts : List Piece} :
    ClosesIn (chars.map Piece.char ++ parts) start ↔
      ∃ follow, start = chars ++ follow ∧ ClosesIn parts follow := by
  induction chars generalizing start with
  | nil => simp
  | cons c chars ih =>
    rw [List.map_cons, List.cons_append]
    constructor
    · intro h
      cases h with
      | later h =>
        obtain ⟨follow, rfl, hfollow⟩ := ih.mp h
        exact ⟨follow, rfl, hfollow⟩
    · rintro ⟨follow, rfl, hfollow⟩
      exact .later (ih.mpr ⟨follow, rfl, hfollow⟩)

/-- A segment closes its own declaration. -/
theorem SegmentPieces.closesIn_iff {found : Option (List Char)} {segment start : List Char}
    {pieces parts : List Piece} (h : SegmentPieces found segment pieces) :
    ClosesIn (pieces ++ parts) start ↔ (found.isSome ∧ start = segment) ∨
      ∃ follow, start = segment ++ ';' :: follow ∧ ClosesIn parts follow := by
  cases h with
  | chars =>
    rw [closesIn_map_char]
    simp
  | @declaration front head value =>
    rw [List.append_assoc, closesIn_map_char]
    constructor
    · rintro ⟨follow, rfl, _ | h⟩
      · exact Or.inl ⟨rfl, by simp⟩
      · exact Or.inr ⟨_, by simp [Piece.text], h⟩
    · rintro (⟨-, rfl⟩ | ⟨follow, rfl, h⟩)
      · exact ⟨head ++ value, by simp, .here⟩
      · exact ⟨(Piece.declaration head value).text ++ follow, by simp [Piece.text], .later h⟩

/-- Without a semicolon there is no declaration. -/
theorem Cut.of_open (fresh : Bool) (hlast : ';' ∉ text) :
    Cut name fresh text (text.map Piece.char) := by
  induction text generalizing fresh with
  | nil => exact nil
  | cons c rest ih =>
    refine char (fun _ => ?_) (ih _ fun hmem => hlast (List.mem_cons_of_mem _ hmem))
    by_contra hsome
    obtain ⟨⟨head, value⟩, found⟩ := Option.ne_none_iff_exists'.mp hsome
    obtain ⟨follow, hfollow⟩ := exists_of_declaration? found
    exact hlast (by simp [hfollow, Piece.text])

/-- Every text is cut, in a fresh place and in any other. -/
theorem Cut.exists_parts (name : List Char) (fresh : Bool) (text : List Char) :
    ∃ parts, Cut name fresh text parts := by
  cases fresh with
  | true => exact ⟨_, Cut.pieces name text⟩
  | false => exact ⟨_, Cut.piecesFrom name 0 text⟩

/-- Behind the first segment the others are as before. -/
theorem upTo_cons (segment : List Char) (segments : List (List Char)) (k : Nat) :
    upTo (segment :: segments) (k + 1) = segment ++ ';' :: upTo segments k := by
  simp [upTo, closedText_cons]

/-- Segments in a row, and what follows them, read under a property: which declarations there are,
where they are closed and what new values make of the text. -/
theorem Cut.of_closedText (hname : IsName name) {segments : List (List Char)} {last : List Char}
    (hsegments : ∀ segment ∈ segments, ';' ∉ segment) (hlast : ';' ∉ last) {parts : List Piece}
    (h : Cut name fresh (closedText segments last) parts) :
    (∀ new, (parts.flatMap fun piece => (piece.setValue new).text) =
        closedText (recast new segments (marks name fresh segments)) last) ∧
      (parts.any Piece.isDeclaration = (marks name fresh segments).any Option.isSome) ∧
        ∀ start, ClosesIn parts start ↔ ∃ k found,
          (marks name fresh segments)[k]? = some (some found) ∧ start = upTo segments k := by
  induction segments generalizing fresh parts with
  | nil =>
    obtain rfl := h.unique (Cut.of_open fresh hlast)
    refine ⟨fun new => flatMap_setValue_char new last, by simp [marks, Piece.isDeclaration], ?_⟩
    intro start
    rw [← List.append_nil (List.map Piece.char _), closesIn_map_char]
    constructor
    · rintro ⟨follow, -, hnil⟩
      cases hnil
    · rintro ⟨k, found, hfound, -⟩
      simp [marks] at hfound
  | cons segment segments ih =>
    obtain ⟨hsegment, hsegments⟩ := List.forall_mem_cons.mp hsegments
    obtain ⟨follow, hfollow⟩ := Cut.exists_parts name (found? name fresh segment).isNone
      (closedText segments last)
    obtain ⟨pieces, hpieces, hcut⟩ := Cut.append_segment hname hsegment hfollow
    rw [closedText_cons] at h
    obtain rfl := h.unique hcut
    obtain ⟨hnew, hany, hcloses⟩ := ih hsegments hfollow
    refine ⟨fun new => ?_, ?_, fun start => ?_⟩
    · rw [List.flatMap_append, hpieces.flatMap_setValue, hnew, marks, recast_cons, closedText_cons]
      simp
    · rw [List.any_append, hpieces.any_isDeclaration, hany, marks, List.any_cons]
    · rw [hpieces.closesIn_iff, marks]
      constructor
      · rintro (⟨hsome, hstart⟩ | ⟨start, rfl, hstart⟩)
        · obtain ⟨found, hfound⟩ := Option.isSome_iff_exists.mp hsome
          exact ⟨0, found, by simp [hfound], by simp [hstart, upTo, closedText]⟩
        · obtain ⟨k, found, hfound, rfl⟩ := (hcloses start).mp hstart
          exact ⟨k + 1, found, hfound, (upTo_cons segment segments k).symm⟩
      · rintro ⟨_ | k, found, hfound, hstart⟩
        · obtain hfound : found? name fresh segment = some found := by simpa using hfound
          exact Or.inl ⟨by simp [hfound], by simp [hstart, upTo, closedText]⟩
        · exact Or.inr ⟨upTo segments k, hstart.trans (upTo_cons segment segments k),
            (hcloses _).mpr ⟨k, found, hfound, rfl⟩⟩

/-- The declaration that is found in a segment is a piece, with what is left of the segment as its
value. -/
theorem Cut.exists_declaration (hname : IsName name) {segments : List (List Char)}
    {last : List Char} (hsegments : ∀ segment ∈ segments, ';' ∉ segment) {parts : List Piece}
    (h : Cut name fresh (closedText segments last) parts) {k : Nat} {found : List Char}
    (hfound : (marks name fresh segments)[k]? = some (some found)) : ∃ head value,
      .declaration head value ∈ parts ∧ segments[k]? = some (found ++ value) := by
  induction segments generalizing fresh parts k with
  | nil => simp [marks] at hfound
  | cons segment segments ih =>
    obtain ⟨hsegment, hsegments⟩ := List.forall_mem_cons.mp hsegments
    obtain ⟨follow, hfollow⟩ := Cut.exists_parts name (found? name fresh segment).isNone
      (closedText segments last)
    obtain ⟨pieces, hpieces, hcut⟩ := Cut.append_segment hname hsegment hfollow
    rw [closedText_cons] at h
    obtain rfl := h.unique hcut
    cases k with
    | zero =>
      obtain hfound : found? name fresh segment = some found := by simpa [marks] using hfound
      rw [hfound] at hpieces
      cases hpieces with
      | @declaration front head value => exact ⟨head, value, by simp, rfl⟩
    | succ k =>
      obtain ⟨head, value, hmem, hvalue⟩ := ih hsegments hfollow hfound
      exact ⟨head, value, List.mem_append_right _ hmem, hvalue⟩

section Whole

variable {segments : List (List Char)} {last : List Char}

/-- Setting a property gives new values to the segments. -/
theorem setProperty_closedText (hname : IsName name)
    (hsegments : ∀ segment ∈ segments, ';' ∉ segment) (hlast : ';' ∉ last) (new : List Char) :
    setProperty name new (closedText segments last) =
      closedText (recast new segments (marks name true segments)) last :=
  ((Cut.pieces name _).of_closedText hname hsegments hlast).1 new

/-- A property is declared if a segment declares it. -/
theorem declares_closedText (hname : IsName name)
    (hsegments : ∀ segment ∈ segments, ';' ∉ segment) (hlast : ';' ∉ last) :
    declares name (closedText segments last) = (marks name true segments).any Option.isSome :=
  ((Cut.pieces name _).of_closedText hname hsegments hlast).2.1

/-- A declaration is closed where a segment that has one ends. -/
theorem closes_closedText_iff (hname : IsName name)
    (hsegments : ∀ segment ∈ segments, ';' ∉ segment) (hlast : ';' ∉ last) {start : List Char} :
    Closes name (closedText segments last) start ↔ ∃ k found,
      (marks name true segments)[k]? = some (some found) ∧ start = upTo segments k :=
  ((Cut.pieces name _).of_closedText hname hsegments hlast).2.2 start

/-- Segments in a row start with a declaration if the first one does. -/
theorem declares_closedText_iff (hname : IsName name)
    (hsegments : ∀ segment ∈ segments, ';' ∉ segment) (hlast : ';' ∉ last) :
    Declares name (closedText segments last) ↔
      ∃ segment ∈ segments.head?, ∃ head, head? name segment = some head := by
  rw [← isSome_declaration?, Option.isSome_iff_ne_none]
  cases segments with
  | nil =>
    have hnone : declaration? name (closedText [] last) = none := by
      by_contra hsome
      obtain ⟨⟨head, value⟩, found⟩ := Option.ne_none_iff_exists'.mp hsome
      obtain ⟨follow, hfollow⟩ := exists_of_declaration? found
      obtain rfl : last = _ := hfollow
      simp [Piece.text] at hlast
    simp [hnone]
  | cons segment segments =>
    rw [closedText_cons, Ne, declaration?_segment_eq_none hname.semicolon
      (hsegments segment List.mem_cons_self)]
    simp [Option.ne_none_iff_exists']

end Whole

/-- What stands for a segment was found in it. -/
theorem exists_found?_of_marks {segments : List (List Char)} {k : Nat}
    {found : Option (List Char)} (h : (marks name fresh segments)[k]? = some found) :
    ∃ fresh' segment, segments[k]? = some segment ∧ found? name fresh' segment = found := by
  induction segments generalizing fresh k with
  | nil => simp [marks] at h
  | cons segment segments ih =>
    cases k with
    | zero => exact ⟨fresh, segment, rfl, by simpa [marks] using h⟩
    | succ k => exact ih h

/-- There is an entry for every segment. -/
@[simp] theorem length_marks (name : List Char) (fresh : Bool) (segments : List (List Char)) :
    (marks name fresh segments).length = segments.length := by
  induction segments generalizing fresh with
  | nil => rfl
  | cons segment segments ih => simp [marks, ih]

/-- What is found is found in one of the segments. -/
theorem lt_length_of_marks {segments : List (List Char)} {k : Nat} {found : Option (List Char)}
    (h : (marks name fresh segments)[k]? = some found) : k < segments.length := by
  obtain ⟨hk, -⟩ := List.getElem?_eq_some_iff.mp h
  simpa using hk

/-- In a segment a declaration is found or none. -/
theorem exists_marks {segments : List (List Char)} {k : Nat} (hk : k < segments.length)
    (name : List Char) (fresh : Bool) :
    ∃ found, (marks name fresh segments)[k]? = some found :=
  ⟨_, List.getElem?_eq_getElem (by simpa using hk)⟩

/-- New values bring no semicolon into the segments. -/
theorem semicolon_not_mem_recast (hnew : ';' ∉ new) {segments : List (List Char)}
    (hsegments : ∀ segment ∈ segments, ';' ∉ segment) :
    ∀ segment ∈ recast new segments (marks name fresh segments), ';' ∉ segment := by
  induction segments generalizing fresh with
  | nil => simp [recast]
  | cons segment segments ih =>
    obtain ⟨hsegment, hsegments⟩ := List.forall_mem_cons.mp hsegments
    rw [marks, recast_cons, List.forall_mem_cons]
    refine ⟨?_, ih hsegments⟩
    cases hfound : found? name fresh segment with
    | none => exact hsegment
    | some start =>
      obtain ⟨front, head, value, -, -, rfl, -⟩ := exists_head_of_found? hfound
      rw [List.mem_append, not_or] at hsegment
      simp [revalue, hsegment.1, hnew]

end Siteworks.Stylesheet
