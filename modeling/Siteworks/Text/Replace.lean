import Siteworks.Text.Cut

/-!
# Replacing a part of a text

Every occurrence of a part is replaced by a new text, from left to right. What has been put in is
not searched again (`replaceAll_append`).
-/

namespace Siteworks.Text

/-- The text with its first characters skipped and a new text for every occurrence of a part behind
them. -/
def replaceFrom (part new : List Char) : Nat → List Char → List Char
  | _, [] => []
  | skip + 1, _ :: rest => replaceFrom part new skip rest
  | 0, c :: rest =>
    if part.isPrefixOf (c :: rest) then new ++ replaceFrom part new (part.length - 1) rest
    else c :: replaceFrom part new 0 rest

/-- The text with a new text for every occurrence of a part, which must not be empty. -/
def replaceAll (part new text : List Char) : List Char := replaceFrom part new 0 text

/-- As many characters are skipped as are to be. -/
theorem replaceFrom_append (part new skipped rest : List Char) :
    replaceFrom part new skipped.length (skipped ++ rest) = replaceAll part new rest := by
  induction skipped with
  | nil => rfl
  | cons c skipped ih => exact ih

/-- A part is replaced behind a text that has not its first character. -/
theorem replaceAll_append {c : Char} {front : List Char} (hfront : c ∉ front)
    (part new back : List Char) :
    replaceAll (c :: part) new (front ++ (c :: part) ++ back) =
      front ++ new ++ replaceAll (c :: part) new back := by
  induction front with
  | nil =>
    have hprefix : (c :: part).isPrefixOf (c :: (part ++ back)) = true := by
      rw [List.isPrefixOf_iff_prefix]
      exact List.prefix_append (c :: part) back
    rw [List.nil_append, List.nil_append, List.cons_append, replaceAll, replaceFrom, if_pos hprefix]
    exact congrArg (new ++ ·) (replaceFrom_append (c :: part) new part back)
  | cons d front ih =>
    rw [List.mem_cons, not_or] at hfront
    have hprefix : ¬ (c :: part).isPrefixOf (d :: (front ++ (c :: part) ++ back)) = true := by
      simp [List.isPrefixOf, hfront.1]
    rw [List.cons_append, List.cons_append, replaceAll, replaceFrom, if_neg hprefix]
    exact congrArg (d :: ·) (ih hfront.2)

/-- A text that does not contain the part stays as it is. -/
theorem replaceAll_eq_self {part text : List Char} (htext : contains part text = false)
    (new : List Char) : replaceAll part new text = text := by
  induction text with
  | nil => rfl
  | cons c text ih =>
    rw [contains, Bool.or_eq_false_iff] at htext
    rw [replaceAll, replaceFrom, if_neg (by simp [htext.1])]
    exact congrArg (c :: ·) (ih htext.2)

end Siteworks.Text
