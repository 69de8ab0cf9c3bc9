import Mathlib
import Siteworks.Proofs.Layout.Restyling

/-!
# The place where a font is named

A font is named in one class attribute of a layout: the first one on the lines from the one on that
opens the body element. Its place says what stands around it. If the attribute stands on a plain
line, it is written anew and everything around it stays; otherwise there is no place and naming a
font fails.
-/

namespace Siteworks.Layout

/-- A class attribute of a layout, with what stands around it. -/
structure ClassPlace where
  /-- The blocks above the line that opens the body element. -/
  top : List Block
  /-- The blocks from that line on, above the line of the attribute. -/
  between : List Block
  /-- The line of the attribute. -/
  line : List Char
  /-- What stands before the attribute on its line. -/
  before : List Char
  /-- The value of the attribute. -/
  value : List Char
  /-- What follows the attribute on its line. -/
  follow : List Char
  /-- The blocks below the line. -/
  below : List Block

namespace ClassPlace

/-- The blocks from the line on that opens the body element. -/
def fromBody (place : ClassPlace) : List Block := place.between ++ .plain place.line :: place.below

/-- The blocks of the layout. -/
def blocks (place : ClassPlace) : List Block := place.top ++ place.fromBody

/-- The line with a font named in the attribute. -/
def newLine (binding : List Char) (place : ClassPlace) : List Char :=
  place.before ++ classAttribute (rootClasses binding place.value) ++ place.follow

/-- The blocks with a font named in the attribute. -/
def named (binding : List Char) (place : ClassPlace) : List Block :=
  place.top ++ (place.between ++ .plain (place.newLine binding) :: place.below)

/-- The attribute is the first one from the line on that opens the body element. -/
structure IsRoot (place : ClassPlace) : Prop where
  /-- The body element is not opened above. -/
  not_opened : ∀ block ∈ place.top, block.isPlain opensBody = false
  /-- It is opened here. -/
  opens : ∃ block ∈ place.fromBody.head?, block.isPlain opensBody = true
  /-- There is no attribute on the lines above. -/
  unstyled : ∀ block ∈ place.between, attribute? block = none
  /-- It is the first one on its line. -/
  found : classAttribute? place.line = some (place.before, place.value, place.follow)

end ClassPlace

variable {binding : List Char}

/-- Behind blocks without class attributes a font is named in the first one. -/
theorem restyle_append_plain {between below : List Block} {line before value follow : List Char}
    (hbetween : ∀ block ∈ between, attribute? block = none)
    (hfound : classAttribute? line = some (before, value, follow)) :
    restyle binding (between ++ .plain line :: below) =
      .ok (between ++
        .plain (before ++ classAttribute (rootClasses binding value) ++ follow) :: below) := by
  induction between with
  | nil =>
    have hline : attribute? (.plain line) = some (before, value, follow) := hfound
    rw [List.nil_append, restyle, hline]
    rfl
  | cons block between ih =>
    obtain ⟨hblock, hbetween⟩ := List.forall_mem_cons.mp hbetween
    rw [List.cons_append, restyle, hblock]
    simp only [ih hbetween, Except.map, List.cons_append]

/-- A font is named in the first class attribute, or there is none on a plain line. -/
theorem restyle_cases (blocks : List Block) :
    (∃ fault, ∀ binding, restyle binding blocks = lacks fault) ∨
      ∃ between line below before value follow, blocks = between ++ .plain line :: below ∧
        (∀ block ∈ between, attribute? block = none) ∧
          classAttribute? line = some (before, value, follow) := by
  induction blocks with
  | nil => exact Or.inl ⟨.noClassAttribute, fun _ => rfl⟩
  | cons block rest ih =>
    cases hblock : attribute? block with
    | none =>
      rcases ih with ⟨fault, hfault⟩ | ⟨between, line, below, before, value, follow, rfl, hnone, hline⟩
      · refine Or.inl ⟨fault, fun binding => ?_⟩
        rw [restyle, hblock]
        simp only [hfault binding]
        rfl
      · exact Or.inr ⟨block :: between, line, below, before, value, follow, rfl,
          List.forall_mem_cons.mpr ⟨hblock, hnone⟩, hline⟩
    | some found =>
      obtain ⟨before, value, follow⟩ := found
      cases block with
      | plain line => exact Or.inr ⟨[], line, rest, before, value, follow, rfl, by simp, hblock⟩
      | typeImport line =>
        exact Or.inl ⟨.classAttributeOnImport, fun binding => by rw [restyle, hblock]⟩
      | fontImport line =>
        exact Or.inl ⟨.classAttributeOnImport, fun binding => by rw [restyle, hblock]⟩
      | fontFactory name lines => cases hblock

/-- A font is named at its place. -/
theorem ClassPlace.IsRoot.restyleBody_eq {place : ClassPlace} (h : place.IsRoot)
    (binding : List Char) : restyleBody binding place.blocks = .ok (place.named binding) := by
  obtain ⟨top, between, line, before, value, follow, below⟩ := place
  obtain ⟨hnot, ⟨first, hfirst, hopens⟩, hunstyled, hfound⟩ := h
  simp only [blocks, named, fromBody, newLine] at hnot hfirst hunstyled hfound ⊢
  induction top with
  | nil =>
    obtain ⟨rest, hrest⟩ : ∃ rest, between ++ .plain line :: below = first :: rest :=
      List.head?_eq_some_iff.mp hfirst
    rw [List.nil_append, List.nil_append, ← restyle_append_plain hunstyled hfound, hrest,
      restyleBody, hopens, if_pos rfl]
  | cons block top ih =>
    obtain ⟨hblock, hnot⟩ := List.forall_mem_cons.mp hnot
    rw [List.cons_append, restyleBody, hblock, ih hnot]
    rfl

/-- A font is named at some place, or there is none where it could be. -/
theorem restyleBody_cases (blocks : List Block) :
    (∃ fault, ∀ binding, restyleBody binding blocks = lacks fault) ∨
      ∃ place : ClassPlace, place.IsRoot ∧ place.blocks = blocks := by
  induction blocks with
  | nil => exact Or.inl ⟨.noBody, fun _ => rfl⟩
  | cons block rest ih =>
    cases hopens : block.isPlain opensBody with
    | true =>
      rcases restyle_cases (block :: rest) with
        ⟨fault, hfault⟩ | ⟨between, line, below, before, value, follow, hcut, hnone, hfound⟩
      · exact Or.inl ⟨fault, fun binding => by rw [restyleBody, hopens, if_pos rfl, hfault]⟩
      · refine Or.inr ⟨⟨[], between, line, before, value, follow, below⟩,
          ⟨List.forall_mem_nil _, ⟨block, ?_, hopens⟩, hnone, hfound⟩, hcut.symm⟩
        rw [ClassPlace.fromBody, ← hcut]
        rfl
    | false =>
      rcases ih with ⟨fault, hfault⟩ | ⟨place, hplace, rfl⟩
      · refine Or.inl ⟨fault, fun binding => ?_⟩
        rw [restyleBody, hopens, hfault]
        rfl
      · exact Or.inr ⟨{ place with top := block :: place.top },
          ⟨List.forall_mem_cons.mpr ⟨hopens, hplace.not_opened⟩, hplace.opens, hplace.unstyled,
            hplace.found⟩, rfl⟩

/-- Naming a font changes the attribute at its place. Where there is no such place, the layout lacks
something. -/
theorem setRootClasses_cases (layout : Layout) :
    (∃ fault, ∀ binding, layout.setRootClasses binding = .error (.template file fault)) ∨
      ∃ place : ClassPlace, place.IsRoot ∧ place.blocks = layout.blocks ∧ ∀ binding,
        layout.setRootClasses binding = .ok { layout with blocks := place.named binding } := by
  rcases restyleBody_cases layout.blocks with ⟨fault, hfault⟩ | ⟨place, hplace, hblocks⟩
  · refine Or.inl ⟨fault, fun binding => ?_⟩
    rw [setRootClasses_eq, hfault]
    rfl
  · refine Or.inr ⟨place, hplace, hblocks, fun binding => ?_⟩
    rw [setRootClasses_eq, ← hblocks, hplace.restyleBody_eq]
    rfl

end Siteworks.Layout
