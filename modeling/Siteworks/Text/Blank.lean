import Siteworks.Text.Ranges

/-!
# White space and words

Texts without white space at their ends, and the words between white space. Words are a case of the
maximal runs of characters of a class.
-/

namespace Siteworks.Text

/-- White space in any script: spaces, tabs, and line, paragraph and page breaks. -/
def isBlank (c : Char) : Bool :=
  inRanges [(0x9, 0xd), (0x20, 0x20), (0x85, 0x85), (0xa0, 0xa0), (0x1680, 0x1680),
    (0x2000, 0x200a), (0x2028, 0x2029), (0x202f, 0x202f), (0x205f, 0x205f), (0x3000, 0x3000)] c

/-- Nothing but white space. -/
def allBlank (text : List Char) : Bool := text.all isBlank

/-- The text without leading white space. -/
def trimStart (text : List Char) : List Char := text.dropWhile isBlank

/-- The text without trailing white space. -/
def trimEnd (text : List Char) : List Char := (text.reverse.dropWhile isBlank).reverse

/-- The text without white space at either end. -/
def trim (text : List Char) : List Char := trimEnd (trimStart text)

/-- The maximal runs of characters of a class, in order: the pieces between characters of other
classes, without the empty ones. -/
def runs (inClass : Char → Bool) (text : List Char) : List (List Char) :=
  (text.splitOnP fun c => !inClass c).filter fun piece => !piece.isEmpty

/-- A run is not empty. -/
theorem ne_nil_of_mem_runs {inClass : Char → Bool} {text run : List Char}
    (mem : run ∈ runs inClass text) : run ≠ [] := by
  simpa using (List.mem_filter.1 mem).2

/-- A run has only characters of the class. -/
theorem inClass_of_mem_runs {inClass : Char → Bool} {text run : List Char}
    (mem : run ∈ runs inClass text) {c : Char} (inside : c ∈ run) : inClass c = true := by
  replace mem := (List.mem_filter.1 mem).1
  induction text generalizing run with
  | nil => simp_all
  | cons d rest ih =>
    rw [List.splitOnP_cons_eq_if_modifyHead] at mem
    obtain ⟨first, others, pieces⟩ :=
      List.exists_cons_of_ne_nil (List.splitOnP_ne_nil (fun c => !inClass c) rest)
    rw [pieces] at mem ih
    split at mem
    · rcases List.mem_cons.1 mem with rfl | mem
      · cases inside
      · exact ih inside mem
    · next hd =>
      rcases List.mem_cons.1 mem with rfl | mem
      · rcases List.mem_cons.1 inside with rfl | inside
        · simpa using hd
        · exact ih inside List.mem_cons_self
      · exact ih inside (List.mem_cons_of_mem _ mem)

/-- The maximal runs of characters that are not blank. -/
def words (text : List Char) : List (List Char) := runs (fun c => !isBlank c) text

end Siteworks.Text
