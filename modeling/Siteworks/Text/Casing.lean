import Siteworks.Text.CaseTable

/-!
# Upper and lower case of single characters

Both mappings act on each character by itself, whatever stands around it, and may give a sequence.
-/

namespace Siteworks.Text

/-- The image of a code point under the runs of a case table, if one covers it. -/
def CaseRun.image? (table : List CaseRun) (code : Nat) : Option Nat :=
  (table.find? fun run =>
    run.first ≤ code && code ≤ run.last && (code - run.first) % run.stride == 0).map
      fun run => (run.offset + (code : Int)).toNat

/-- The case mapping of a character; a character that the tables do not list is kept. -/
def caseMap (table : List CaseRun) (sequences : List (Nat × List Nat)) (c : Char) : List Char :=
  match sequences.lookup c.toNat with
  | some codes => codes.map Char.ofNat
  | none =>
    match CaseRun.image? table c.toNat with
    | some code => [Char.ofNat code]
    | none => [c]

/-- The upper case of a character. -/
def uppercase (c : Char) : List Char := caseMap upperRuns upperSequences c

/-- The lower case of a character. -/
def lowercase (c : Char) : List Char := caseMap lowerRuns lowerSequences c

end Siteworks.Text
