import Mathlib
import Siteworks.Proofs.Schema.Reports

/-!
# The order of the report

Violations are reported in the order of the places of their rules. Places that differ stand in one
order only, and violations of one rule have one place, so that no rule is reported twice.
-/

namespace Siteworks

namespace Violation

open Schema

/-- Reports in the order of the document, all of them on what has a number from `low` to below
`high` behind a common beginning. -/
def Ordered (start : List Nat) (low high : Nat) (vs : List Violation) : Prop :=
  vs.Pairwise (fun v w => v.place < w.place) ∧
    ∀ v ∈ vs, ∃ i rest, low ≤ i ∧ i < high ∧ v.place = start ++ i :: rest

/-- Behind a common beginning the smaller number comes first. -/
theorem branch_lt (start : List Nat) {i j : Nat} (h : i < j) (rest rest' : List Nat) :
    start ++ i :: rest < start ++ j :: rest' := by
  induction start with
  | nil => exact List.cons_lt_cons_iff.mpr (Or.inl h)
  | cons first start ih => exact List.cons_lt_cons_iff.mpr (Or.inr ⟨rfl, ih⟩)

namespace Ordered

variable {start : List Nat} {low middle high : Nat} {vs ws : List Violation}

/-- No report is in order. -/
theorem nil : Ordered start low high [] := ⟨.nil, nofun⟩

/-- One report is in order. -/
theorem singleton {v : Violation} {i : Nat} (rest : List Nat)
    (hplace : v.place = start ++ i :: rest) (hlow : low ≤ i) (hhigh : i < high) :
    Ordered start low high [v] := by
  refine ⟨List.pairwise_singleton _ v, fun w hw => ?_⟩
  obtain rfl := List.mem_singleton.mp hw
  exact ⟨i, rest, hlow, hhigh, hplace⟩

/-- Reports on later parts follow those on earlier ones. -/
theorem append (hv : Ordered start low middle vs) (hw : Ordered start middle high ws)
    (hlow : low ≤ middle) (hhigh : middle ≤ high) : Ordered start low high (vs ++ ws) := by
  refine ⟨List.pairwise_append.mpr ⟨hv.1, hw.1, fun v hv' w hw' => ?_⟩, fun v hmem => ?_⟩
  · obtain ⟨i, rest, -, hi, hplace⟩ := hv.2 v hv'
    obtain ⟨j, rest', hj, -, hplace'⟩ := hw.2 w hw'
    rw [hplace, hplace']
    exact branch_lt start (by omega) rest rest'
  · rcases List.mem_append.mp hmem with hmem | hmem
    · obtain ⟨i, rest, hi, hi', hplace⟩ := hv.2 v hmem
      exact ⟨i, rest, hi, by omega, hplace⟩
    · obtain ⟨i, rest, hi, hi', hplace⟩ := hw.2 v hmem
      exact ⟨i, rest, by omega, hi', hplace⟩

/-- Reports on the parts of a part are reports on that part. -/
theorem within {i : Nat} (h : Ordered (start ++ [i]) low high vs) :
    Ordered start i (i + 1) vs := by
  refine ⟨h.1, fun v hmem => ?_⟩
  obtain ⟨j, rest, -, -, hplace⟩ := h.2 v hmem
  exact ⟨i, j :: rest, le_rfl, by omega, by simp [hplace]⟩

/-- Reports on the items of a list are in order if those on each item are. -/
theorem ofItems (start : List Nat) {missing : Nat → Violation}
    {ofMembers : Nat → List String → List (String × Json) → List Violation}
    (hitem : ∀ i seen item, Ordered start i (i + 1) (ofItem missing ofMembers i seen item))
    (index : Nat) (seen : List String) (items : List Json) :
    Ordered start index (index + items.length) (ofItems missing ofMembers index seen items) := by
  induction items generalizing index seen with
  | nil => exact nil
  | cons item rest ih =>
    have hrest := ih (index + 1) (seen ++ (itemId? item).toList)
    rw [Nat.add_assoc, Nat.add_comm 1] at hrest
    exact (hitem index seen item).append hrest (by omega) (by simp)

end Ordered

/-- The report on a required text. -/
theorem ordered_ofRequired {position : Position} {field : String} (i : Nat)
    (hi : (required position).idxOf field = i) (members : List (String × Json)) :
    Ordered position.place i (i + 1) (ofRequired position field members) := by
  unfold ofRequired
  split
  · exact .nil
  · exact .singleton [] (by rw [← hi]; rfl) le_rfl (by omega)

/-- The report on an identifier. -/
theorem ordered_ofId {position : Position} {duplicate : String → Violation}
    (hrequired : (required position).idxOf "id" = 0)
    (hduplicate : ∀ id, (duplicate id).place = position.place ++ [0]) (seen : List String)
    (members : List (String × Json)) :
    Ordered position.place 0 1 (ofId position duplicate seen members) := by
  unfold ofId
  split
  · exact .singleton [] (by rw [← hrequired]; rfl) le_rfl (by omega)
  · split
    · exact .singleton [] (hduplicate _) le_rfl (by omega)
    · exact .nil

/-- The report on a section. -/
theorem ordered_ofSectionMembers (page index : Nat) (seen : List String)
    (members : List (String × Json)) :
    Ordered (Position.inPage page index).place 0 4 (ofSectionMembers page index seen members) := by
  have hvariant :
      Ordered (Position.inPage page index).place 2 3 (ofVariant page index members) := by
    unfold ofVariant
    split
    · exact .nil
    · split
      · exact .singleton [] rfl le_rfl (by omega)
      · exact .nil
    · exact .singleton [] rfl le_rfl (by omega)
  have hcontent :
      Ordered (Position.inPage page index).place 3 4 (ofContent page index members) := by
    unfold ofContent
    split
    · exact .nil
    · exact .nil
    · exact .singleton [] rfl le_rfl (by omega)
  rw [ofSectionMembers_eq]
  exact (((ordered_ofId rfl (fun _ => rfl) seen members).append
    (ordered_ofRequired 1 rfl members) (by omega) (by omega)).append hvariant (by omega)
      (by omega)).append hcontent (by omega) (by omega)

/-- The report on a page. -/
theorem ordered_ofPageMembers (index : Nat) (seen : List String)
    (members : List (String × Json)) :
    Ordered (Position.page index).place 0 4 (ofPageMembers index seen members) := by
  have hsections : Ordered (Position.page index).place 3 4 (ofSectionList index members) := by
    unfold ofSectionList
    split
    · exact .singleton [] rfl le_rfl (by omega)
    next items _ =>
      rw [ofSections_eq]
      refine (Ordered.ofItems [4, index, 3] (fun i seen item => ?_) 0 [] items).within
      unfold ofItem
      split
      · exact .singleton [] rfl le_rfl (by omega)
      next members _ => exact (ordered_ofSectionMembers index i seen members).within
    · exact .singleton [] rfl le_rfl (by omega)
  rw [ofPageMembers_eq]
  exact (((ordered_ofId rfl (fun _ => rfl) seen members).append
    (ordered_ofRequired 1 rfl members) (by omega) (by omega)).append
      (ordered_ofRequired 2 rfl members) (by omega) (by omega)).append hsections
        (by omega) (by omega)

/-- The report on the pages. -/
theorem ordered_ofPageList (root : List (String × Json)) : Ordered [] 4 5 (ofPageList root) := by
  unfold ofPageList
  split
  · exact .singleton [] rfl le_rfl (by omega)
  · exact .singleton [] rfl le_rfl (by omega)
  next items _ _ =>
    rw [ofPages_eq]
    refine (Ordered.ofItems [4] (fun i seen item => ?_) 0 [] items).within
    unfold ofItem
    split
    · exact .singleton [] rfl le_rfl (by omega)
    next members _ => exact (ordered_ofPageMembers i seen members).within
  · exact .singleton [] rfl le_rfl (by omega)

/-- The report on the project. -/
theorem ordered_ofProject (root : List (String × Json)) : Ordered [] 1 2 (ofProject root) := by
  unfold ofProject
  split
  · exact .singleton [] rfl le_rfl (by omega)
  next members _ =>
    refine ((ordered_ofRequired 0 rfl members).append
      (?_ : Ordered Position.project.place 1 2 _) (by omega) (by omega)).within
    split
    · exact .nil
    · split
      · exact .nil
      · exact .singleton [] rfl le_rfl (by omega)
    · exact .singleton [] rfl le_rfl (by omega)
  · exact .singleton [] rfl le_rfl (by omega)

/-- The report on the architecture. -/
theorem ordered_ofArchitecture (root : List (String × Json)) :
    Ordered [] 2 3 (ofArchitecture root) := by
  unfold ofArchitecture
  split
  · exact .nil
  · split
    · exact .nil
    · exact .singleton [] rfl le_rfl (by omega)

/-- The report on the theme. -/
theorem ordered_ofTheme (root : List (String × Json)) : Ordered [] 3 4 (ofTheme root) := by
  unfold ofTheme
  split
  · exact .nil
  next members _ =>
    have hcolor : Ordered [3] 0 1 (ofColor members) := by
      unfold ofColor
      split
      · exact .nil
      · split
        · exact .nil
        · exact .singleton [] rfl le_rfl (by omega)
    have hfont : Ordered [3] 1 2 (ofFont members) := by
      unfold ofFont
      split
      · exact .nil
      · split
        · exact .nil
        · exact .singleton [] rfl le_rfl (by omega)
    exact (hcolor.append hfont (by omega) (by omega)).within
  · exact .singleton [] rfl le_rfl (by omega)

/-- Violations are reported in the order of the document, each rule once. -/
theorem pairwise_violations (document : Json) :
    (Spec.violations document).Pairwise fun v w => v.place < w.place := by
  unfold Spec.violations
  split
  · exact List.pairwise_singleton _ _
  next root _ =>
    exact ((((ordered_ofProject root).append (ordered_ofArchitecture root) (by omega)
      (by omega)).append (ordered_ofTheme root) (by omega) (by omega)).append
        (ordered_ofPageList root) (by omega) (by omega)).1

end Violation

end Siteworks
