import Mathlib

/-!
# Texts in a row

When two rows of texts make one text, the rows are the same if each text shows where it ends: by a
character that it does not have, or by what it is made of.
-/

namespace Siteworks

namespace Text

variable {α : Type}

/-- Two texts of characters with a property, each cut off by a character without it, are the same
if they begin the same text. -/
theorem append_inj_of_forall {p : α → Prop} {xs ys r s : List α} (hxs : ∀ x ∈ xs, p x)
    (hys : ∀ y ∈ ys, p y) (hr : ∀ x ∈ r.head?, ¬ p x) (hs : ∀ x ∈ s.head?, ¬ p x)
    (h : xs ++ r = ys ++ s) : xs = ys ∧ r = s := by
  induction xs generalizing ys with
  | nil =>
    cases ys with
    | nil => exact ⟨rfl, h⟩
    | cons y ys =>
      rw [List.nil_append] at h
      exact absurd (hys y List.mem_cons_self) (hr y (by simp [h]))
  | cons x xs ih =>
    cases ys with
    | nil =>
      rw [List.nil_append] at h
      exact absurd (hxs x List.mem_cons_self) (hs x (by simp [← h]))
    | cons y ys =>
      obtain ⟨rfl, hrest⟩ := List.cons.inj h
      obtain ⟨rfl, hrs⟩ := ih (List.forall_mem_cons.mp hxs).2 (List.forall_mem_cons.mp hys).2 hrest
      exact ⟨rfl, hrs⟩

/-- A character that neither of two beginnings has shows where they end. -/
theorem cut_inj {c : Char} {start start' rest rest' : List Char} (hstart : c ∉ start)
    (hstart' : c ∉ start') (h : start ++ c :: rest = start' ++ c :: rest') :
    start = start' ∧ rest = rest' := by
  obtain ⟨rfl, hrest⟩ := append_inj_of_forall (p := (· ≠ c))
    (fun x hx => ne_of_mem_of_not_mem hx hstart) (fun x hx => ne_of_mem_of_not_mem hx hstart')
    (by simp) (by simp) h
  exact ⟨rfl, (List.cons.inj hrest).2⟩

/-- A character that neither of two ends has shows where they start. -/
theorem cut_inj_end {c : Char} {start start' rest rest' : List Char} (hrest : c ∉ rest)
    (hrest' : c ∉ rest') (h : start ++ c :: rest = start' ++ c :: rest') :
    start = start' ∧ rest = rest' := by
  have hreverse : rest.reverse ++ c :: start.reverse = rest'.reverse ++ c :: start'.reverse := by
    simpa using congrArg List.reverse h
  obtain ⟨hrests, hstarts⟩ := cut_inj (by simpa using hrest) (by simpa using hrest') hreverse
  exact ⟨List.reverse_injective hstarts, List.reverse_injective hrests⟩

/-- What is dropped from the end of a list goes no further than an item that is kept. -/
theorem reverse_dropWhile_reverse {p : α → Bool} {kept tail : List α}
    (hkept : ∀ a ∈ kept.getLast?, p a = false) (htail : ∀ a ∈ tail, p a = true) :
    ((kept ++ tail).reverse.dropWhile p).reverse = kept := by
  rw [List.reverse_append, List.dropWhile_append_of_pos (by simpa using htail)]
  rcases List.eq_nil_or_concat' kept with rfl | ⟨front, last, rfl⟩
  · rfl
  · have hlast : p last = false := hkept last (List.getLast?_concat ..)
    simp [hlast]

/-- What a separator ends is the first piece of a text. -/
theorem splitOn_append_cons {sep : Char} {piece : List Char} (h : sep ∉ piece) (rest : List Char) :
    (piece ++ sep :: rest).splitOn sep = piece :: rest.splitOn sep := by
  rw [List.splitOn, List.splitOnP_append_cons _ _ (by simp), List.splitOnP_eq_singleton]
  · rfl
  · intro c hc
    simpa using ne_of_mem_of_not_mem hc h

/-- A character that a tail lacks stands in front of it. -/
theorem exists_of_append_cons_eq {start rest text tail : List Char} {c : Char}
    (h : start ++ c :: rest = text ++ tail) (hc : c ∉ tail) : ∃ between, text = start ++ c :: between := by
  rcases List.append_eq_append_iff.mp h with ⟨between, rfl, hrest⟩ | ⟨between, -, rfl⟩
  · cases between with
    | nil => exact absurd (by rw [← List.nil_append tail, ← hrest]; simp) hc
    | cons d between =>
      obtain ⟨rfl, -⟩ := List.cons.inj hrest
      exact ⟨between, rfl⟩
  · exact absurd (by simp) hc

/-- Entries in a row can be told from each other and from the closing text behind them, if each can
be told from what follows it and none looks like the closing text. -/
theorem flatMap_append_inj {text : α → List Char} (Follows : List Char → Prop) (close : List Char)
    {xs ys : List α} {r s : List Char}
    (htext : ∀ x r, Follows (text x ++ r)) (hclose : ∀ r, Follows (close ++ r))
    (hinj : ∀ x ∈ xs, ∀ y ∈ ys, ∀ r s, Follows r → Follows s → text x ++ r = text y ++ s →
      x = y ∧ r = s)
    (hopen : ∀ x ∈ xs ++ ys, ∀ r s, text x ++ r ≠ close ++ s)
    (h : xs.flatMap text ++ (close ++ r) = ys.flatMap text ++ (close ++ s)) :
    xs = ys ∧ r = s := by
  have hfollows : ∀ (zs : List α) (r : List Char), Follows (zs.flatMap text ++ (close ++ r)) := by
    intro zs r
    cases zs with
    | nil => exact hclose r
    | cons z zs =>
      rw [List.flatMap_cons, List.append_assoc]
      exact htext z _
  induction xs generalizing ys with
  | nil =>
    cases ys with
    | nil => exact ⟨rfl, List.append_cancel_left h⟩
    | cons y ys =>
      rw [List.flatMap_cons, List.append_assoc] at h
      exact absurd h.symm (hopen y (by simp) _ _)
  | cons x xs ih =>
    cases ys with
    | nil =>
      rw [List.flatMap_cons, List.append_assoc] at h
      exact absurd h (hopen x (by simp) _ _)
    | cons y ys =>
      rw [List.flatMap_cons, List.flatMap_cons, List.append_assoc, List.append_assoc] at h
      obtain ⟨hxy, hrest⟩ := hinj x (by simp) y (by simp) _ _ (hfollows xs r) (hfollows ys s) h
      obtain ⟨hxsys, hrs⟩ := ih
        (fun z hz w hw => hinj z (List.mem_cons_of_mem x hz) w (List.mem_cons_of_mem y hw))
        (fun z hz => hopen z (by simp only [List.mem_append, List.mem_cons] at hz ⊢; tauto)) hrest
      exact ⟨congrArg₂ List.cons hxy hxsys, hrs⟩

end Text

end Siteworks
