import Mathlib
import Siteworks.Page.Source

/-!
# The imports of a page

Each component that a page uses is imported once, in the order of the bytes of the identifiers.
Adding a component to a list in this order keeps the order and all other components; so the list
that a page makes of its components, one by one, has exactly these.
-/

namespace Siteworks

namespace Component

/-- Components are told apart by their identifiers. -/
theorem eq_of_ident_eq : ∀ component ∈ registered, ∀ other ∈ registered,
    component.ident = other.ident → component = other := by
  decide +kernel

/-- A component is before another one if the bytes of its identifier are. -/
def Precedes (component other : Component) : Prop :=
  (Data.ofText component.ident).bytes < (Data.ofText other.ident).bytes

instance (component other : Component) : Decidable (component.Precedes other) :=
  inferInstanceAs (Decidable (_ < _))

/-- No two components are before each other. -/
theorem Precedes.asymm {component other : Component} (h : component.Precedes other) :
    ¬ other.Precedes component := List.lt_asymm h

/-- Identifiers have the order of their bytes. -/
theorem precedes_iff : ∀ component ∈ registered, ∀ other ∈ registered,
    component.Precedes other ↔ component.ident < other.ident := by
  decide +kernel

/-- Adding a component to a list adds no other one. -/
theorem mem_of_mem_insertByIdent {component added : Component} {components : List Component}
    (h : component ∈ insertByIdent added components) : component = added ∨ component ∈ components := by
  induction components with
  | nil => simpa [insertByIdent] using h
  | cons first rest ih =>
    unfold insertByIdent at h
    split at h
    · simpa using h
    · split at h
      · simp only [List.mem_cons] at h ⊢
        tauto
      · simp only [List.mem_cons] at h ⊢
        tauto

/-- A component that is added to a list of others is in it, and so is each of them. -/
theorem mem_insertByIdent {component added : Component} {components : List Component}
    (hadded : added ∈ registered) (hcomponents : ∀ other ∈ components, other ∈ registered)
    (h : component = added ∨ component ∈ components) : component ∈ insertByIdent added components := by
  induction components with
  | nil => simpa [insertByIdent] using h
  | cons first rest ih =>
    obtain ⟨hfirst, hrest⟩ := List.forall_mem_cons.mp hcomponents
    unfold insertByIdent
    split
    · simpa using h
    · split
      next hident =>
        -- the component that is replaced is the one that is added
        obtain rfl := eq_of_ident_eq _ hadded _ hfirst hident
        simpa using h
      · simp only [List.mem_cons] at h ⊢
        tauto

/-- Adding a component to a list keeps it in order. -/
theorem pairwise_insertByIdent {added : Component} {components : List Component}
    (h : components.Pairwise fun a b => a.ident < b.ident) :
    (insertByIdent added components).Pairwise fun a b => a.ident < b.ident := by
  induction components with
  | nil => simp [insertByIdent]
  | cons first rest ih =>
    obtain ⟨hfirst, hrest⟩ := List.pairwise_cons.mp h
    unfold insertByIdent
    split
    next hbefore =>
      refine List.pairwise_cons.mpr ⟨fun other hother => ?_, h⟩
      rcases List.mem_cons.mp hother with rfl | hother
      · exact hbefore
      · exact hbefore.trans (hfirst other hother)
    next hbefore =>
      split
      next hident => exact List.pairwise_cons.mpr ⟨fun other hother => hident ▸ hfirst other hother, hrest⟩
      next hident =>
        have hbehind : first.ident < added.ident := lt_of_le_of_ne (not_lt.mp hbefore) (Ne.symm hident)
        refine List.pairwise_cons.mpr ⟨fun other hother => ?_, ih hrest⟩
        rcases mem_of_mem_insertByIdent hother with rfl | hother
        · exact hbehind
        · exact hfirst other hother

/-- The list without repetitions is in order and has exactly the components of the other one. -/
theorem distinct_spec {components : List Component}
    (h : ∀ component ∈ components, component ∈ registered) :
    (distinct components).Pairwise (fun a b => a.ident < b.ident) ∧
      ∀ component, component ∈ distinct components ↔ component ∈ components := by
  suffices hfold : ∀ sorted : List Component, (∀ component ∈ sorted, component ∈ registered) →
      sorted.Pairwise (fun a b => a.ident < b.ident) →
      (components.foldl (fun sorted component => insertByIdent component sorted) sorted).Pairwise
          (fun a b => a.ident < b.ident) ∧
        ∀ component, component ∈ components.foldl
            (fun sorted component => insertByIdent component sorted) sorted ↔
          component ∈ sorted ∨ component ∈ components by
    simpa [distinct] using hfold [] nofun List.Pairwise.nil
  induction components with
  | nil => exact fun sorted _ hsorted => ⟨hsorted, by simp⟩
  | cons first rest ih =>
    intro sorted hregistered hsorted
    obtain ⟨hfirst, hrest⟩ := List.forall_mem_cons.mp h
    have hmem : ∀ component, component ∈ insertByIdent first sorted ↔
        component = first ∨ component ∈ sorted := fun _ =>
      ⟨mem_of_mem_insertByIdent, mem_insertByIdent hfirst hregistered⟩
    have hadded : ∀ component ∈ insertByIdent first sorted, component ∈ registered := by
      intro component hcomponent
      rcases (hmem component).mp hcomponent with rfl | hcomponent
      · exact hfirst
      · exact hregistered component hcomponent
    obtain ⟨hpairwise, hboth⟩ := ih hrest _ hadded (pairwise_insertByIdent hsorted)
    refine ⟨hpairwise, fun component => ?_⟩
    rw [List.foldl_cons, hboth, hmem, List.mem_cons]
    tauto

/-- The list without repetitions has exactly the components of the other one. -/
theorem mem_distinct_iff {component : Component} {components : List Component}
    (h : ∀ component ∈ components, component ∈ registered) :
    component ∈ distinct components ↔ component ∈ components :=
  (distinct_spec h).2 component

/-- The list without repetitions is in the order of the identifiers' bytes. -/
theorem pairwise_distinct {components : List Component}
    (h : ∀ component ∈ components, component ∈ registered) :
    (distinct components).Pairwise Precedes := by
  refine (distinct_spec h).1.imp_of_mem fun ha hb hbefore => ?_
  exact (precedes_iff _ (h _ ((mem_distinct_iff h).mp ha)) _ (h _ ((mem_distinct_iff h).mp hb))).mpr hbefore

/-- The components of sections are those that are registered for them, in order. -/
theorem ofSections_eq_ok_iff {parts : List Section} {components : List Component} :
    ofSections parts = .ok components ↔
      List.Forall₂ (fun part component => find? part.kind part.variantOrDefault = some component)
        parts components := by
  constructor
  · intro h
    induction parts generalizing components with
    | nil =>
      cases h
      exact .nil
    | cons part rest ih =>
      unfold ofSections at h
      split at h
      · cases h
      next component hfound =>
        split at h
        · cases h
        next others hothers =>
          cases h
          exact .cons hfound (ih hothers)
  · intro h
    induction h with
    | nil => rfl
    | cons hfound _ ih => simp [ofSections, hfound, ih]

/-- The components of sections are those that are registered for one of them. -/
theorem mem_iff_of_forall₂ {parts : List Section} {components : List Component}
    (h : List.Forall₂ (fun part component => find? part.kind part.variantOrDefault = some component)
      parts components) {component : Component} :
    component ∈ components ↔ ∃ part ∈ parts, find? part.kind part.variantOrDefault = some component := by
  induction h with
  | nil => simp
  | cons hfound _ ih => simp [hfound, ih, eq_comm]

/-- The components of sections are registered. -/
theorem registered_of_ofSections {parts : List Section} {components : List Component}
    (h : ofSections parts = .ok components) :
    ∀ component ∈ components, component ∈ registered := by
  have hall := ofSections_eq_ok_iff.mp h
  clear h
  induction hall with
  | nil => exact nofun
  | cons hfound _ ih => exact List.forall_mem_cons.mpr ⟨List.mem_of_find?_eq_some hfound, ih⟩

end Component

end Siteworks
