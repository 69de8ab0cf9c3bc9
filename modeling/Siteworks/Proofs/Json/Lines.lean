import Mathlib
import Siteworks.Proofs.Json.Printing

/-!
# Documents on a line

The compact text of a document has no control character, so it is one line of what is printed.
-/

namespace Siteworks.Json

/-- An escape has no control character. -/
theorem not_control_of_mem_escapeChar {c d : Char} (h : d ∈ escapeChar c) : 0x20 ≤ d.toNat := by
  have hdigit : ∀ n < 0x10, 0x20 ≤ (Nat.digitChar n).toNat := by decide
  unfold escapeChar at h
  repeat' split at h
  -- the escapes with a letter
  iterate 7 (rcases List.mem_pair.mp h with rfl | rfl <;> decide)
  next hcontrol =>
    have hfour : ∀ d ∈ ['\\', 'u', '0', '0'], 0x20 ≤ d.toNat := by simp
    rcases List.mem_append.mp (show d ∈ ['\\', 'u', '0', '0'] ++ [_, _] from h) with h | h
    · exact hfour d h
    · rcases List.mem_pair.mp h with rfl | rfl
      · exact hdigit _ (by omega)
      · exact hdigit _ (by omega)
  next hcontrol =>
    rw [List.mem_singleton.mp h]
    exact Nat.le_of_not_lt hcontrol

/-- A quoted string has no control character. -/
theorem not_control_of_mem_renderString {text : String} :
    ∀ c ∈ (renderString text).toList, 0x20 ≤ c.toNat := by
  have hquote : ∀ c ∈ ['"'], 0x20 ≤ c.toNat := List.forall_mem_singleton.mpr (by decide)
  have htext : ∀ c ∈ text.toList.flatMap escapeChar, 0x20 ≤ c.toNat := by
    intro c hc
    obtain ⟨d, -, hd⟩ := List.mem_flatMap.mp hc
    exact not_control_of_mem_escapeChar hd
  rw [renderString, String.toList_ofList]
  exact List.forall_mem_append.mpr ⟨List.forall_mem_append.mpr ⟨hquote, htext⟩, hquote⟩

/-- Entries without control characters have none between commas and brackets. -/
theorem not_control_of_mem_intercalate {α : Type} {text : α → List Char} {entries : List α}
    {opening closing : Char} (hopening : 0x20 ≤ opening.toNat) (hclosing : 0x20 ≤ closing.toNat)
    (h : ∀ entry ∈ entries, ∀ c ∈ text entry, 0x20 ≤ c.toNat) :
    ∀ c ∈ opening :: [','].intercalate (entries.map text) ++ [closing], 0x20 ≤ c.toNat := by
  have hentries : ∀ c ∈ [','].intercalate (entries.map text), 0x20 ≤ c.toNat := by
    cases entries with
    | nil => simp
    | cons first rest =>
      rw [intercalate_comma_cons]
      refine List.forall_mem_append.mpr ⟨h first List.mem_cons_self, fun c hc => ?_⟩
      obtain ⟨entry, hentry, hc⟩ := List.mem_flatMap.mp hc
      rcases List.mem_cons.mp hc with rfl | hc
      · decide
      · exact h entry (List.mem_cons_of_mem _ hentry) c hc
  exact List.forall_mem_append.mpr
    ⟨List.forall_mem_cons.mpr ⟨hopening, hentries⟩, List.forall_mem_singleton.mpr hclosing⟩

/-- The compact text of a document has no control character. -/
theorem not_control_of_mem_render (value : Json) : ∀ c ∈ value.render.toList, 0x20 ≤ c.toNat := by
  induction value using induction with
  | null => simp [render]
  | bool b => cases b <;> simp [render]
  | number n =>
    obtain ⟨numeral, htext⟩ := n.exists_numeral
    intro c hc
    have hmark := numeral.isMark_of_mem_text c (htext ▸ hc)
    simp only [Numeral.isMark, Bool.or_eq_true, decide_eq_true_eq] at hmark
    rcases hmark with (((hdigit | rfl) | rfl) | rfl) | rfl
    · exact Nat.le_trans (by decide) (Char.isDigit_iff_toNat.mp hdigit).1
    iterate 4 decide
  | string text => exact not_control_of_mem_renderString
  | array items ih =>
    rw [toList_render_array]
    exact not_control_of_mem_intercalate (by decide) (by decide) ih
  | object members ih =>
    rw [toList_render_object]
    refine not_control_of_mem_intercalate (by decide) (by decide) fun entry hentry => ?_
    exact List.forall_mem_append.mpr ⟨not_control_of_mem_renderString,
      List.forall_mem_cons.mpr ⟨by decide, ih entry hentry⟩⟩

/-- The compact text of a document is one line. -/
theorem newline_not_mem_render (value : Json) : '\n' ∉ value.render.toList :=
  fun h => absurd (value.not_control_of_mem_render _ h) (by decide)

end Siteworks.Json
