import Mathlib
import Siteworks.Archive.Pack
import Siteworks.Proofs.FileSystem.Following

/-!
# Listings

What a directory holds, and what is below a place, as lists: everything that is there, each once, in
the order of the names that lead to it. So a listing depends on nothing but what is there.
-/

namespace Siteworks

/-- The node is a link. -/
def Node.isLink : Node → Bool
  | .link _ => true
  | _ => false

namespace FileSystem

/-- The entries of a file system are what is where. -/
theorem mem_toList_nodes {fs : FileSystem} {place : Place} {node : Node} :
    (place, node) ∈ fs.nodes.toList ↔ fs.get? place = some node :=
  Std.ExtTreeMap.mem_toList_iff_getElem?_eq_some

/-- Where no entry is a link, no links are. -/
theorem bare_of_toList_nodes {fs : FileSystem}
    (h : ∀ entry ∈ fs.nodes.toList, entry.2.isLink = false) : fs.Bare [] := by
  intro names target hlink
  cases h _ (mem_toList_nodes.mpr hlink)

/-- No place comes twice among the entries of a file system. -/
theorem nodup_map_fst_toList_nodes (fs : FileSystem) : (fs.nodes.toList.map Prod.fst).Nodup := by
  rw [Std.ExtTreeMap.map_fst_toList_eq_keys]
  exact Std.ExtTreeMap.nodup_keys

/-- A directory lists what has a name in it. -/
theorem mem_children {fs : FileSystem} {place : Place} {name : String} {node : Node} :
    (name, node) ∈ fs.children place ↔ fs.get? (place ++ [name]) = some node := by
  simp only [children, List.mem_filterMap]
  constructor
  · rintro ⟨⟨other, node'⟩, hmem, hchild⟩
    simp only at hchild
    split at hchild
    next last hlast =>
      split at hchild
      next hparent =>
        cases hchild
        obtain ⟨front, rfl⟩ := List.getLast?_eq_some_iff.mp hlast
        rw [List.dropLast_concat] at hparent
        rw [← hparent]
        exact mem_toList_nodes.mp hmem
      · cases hchild
    · cases hchild
  · intro h
    refine ⟨(place ++ [name], node), mem_toList_nodes.mpr h, ?_⟩
    simp

/-- Keys of picked items, in order, are among the keys of the items. -/
theorem map_filterMap_sublist {α β γ : Type} {pick : α → Option β} {key : α → γ} {key' : β → γ}
    (h : ∀ a b, pick a = some b → key' b = key a) (items : List α) :
    ((items.filterMap pick).map key').Sublist (items.map key) := by
  induction items with
  | nil => exact List.Sublist.slnil
  | cons first rest ih =>
    rw [List.filterMap_cons, List.map_cons]
    cases hpick : pick first with
    | none => exact ih.cons _
    | some b =>
      rw [List.map_cons, h first b hpick]
      exact ih.cons_cons _

/-- The entries of a file system are in the order of their places. -/
theorem pairwise_toList_nodes (fs : FileSystem) :
    (fs.nodes.toList.map Prod.fst).Pairwise fun a b => compare a b = .lt :=
  List.pairwise_map.mpr Std.ExtTreeMap.ordered_keys_toList

/-- Listings in the order of places are the same if they list the same. -/
theorem eq_of_pairwise_compare {α : Type} {key : α → Place} {items others : List α}
    (hitems : (items.map key).Pairwise fun a b => compare a b = .lt)
    (hothers : (others.map key).Pairwise fun a b => compare a b = .lt)
    (h : ∀ item, item ∈ items ↔ item ∈ others) : items = others := by
  have hnodup : ∀ items : List α, (items.map key).Pairwise (fun a b => compare a b = .lt) →
      items.Nodup := by
    intro items hsorted
    refine (List.pairwise_map.mp hsorted).imp fun {a b} hlt hsame => ?_
    have hself : compare (key b) (key b) = .eq := Std.ReflCmp.compare_self
    rw [hsame, hself] at hlt
    cases hlt
  have hperm := (List.perm_ext_iff_of_nodup (hnodup items hitems) (hnodup others hothers)).mpr h
  refine hperm.eq_of_pairwise (fun x y _ _ hxy hyx => ?_) (List.pairwise_map.mp hitems)
    (List.pairwise_map.mp hothers)
  have hswap : compare (key x) (key y) = (compare (key y) (key x)).swap := Std.OrientedCmp.eq_swap
  rw [hswap, hyx] at hxy
  cases hxy

/-- The places that a directory lists come from the entries of the file system, in order. -/
theorem children_sublist (fs : FileSystem) (place : Place) :
    ((fs.children place).map fun child => place ++ [child.1]).Sublist
      (fs.nodes.toList.map Prod.fst) := by
  refine map_filterMap_sublist (fun entry child hchild => ?_) _
  obtain ⟨other, node⟩ := entry
  simp only at hchild
  split at hchild
  next last hlast =>
    split at hchild
    next hparent =>
      cases hchild
      obtain ⟨front, rfl⟩ := List.getLast?_eq_some_iff.mp hlast
      rw [← hparent, List.dropLast_concat]
    · cases hchild
  · cases hchild

/-- No name comes twice in a directory. -/
theorem nodup_map_fst_children (fs : FileSystem) (place : Place) :
    ((fs.children place).map Prod.fst).Nodup := by
  have hnodup := fs.nodup_map_fst_toList_nodes.sublist (fs.children_sublist place)
  have hmap : ((fs.children place).map fun child => place ++ [child.1]) =
      ((fs.children place).map Prod.fst).map fun name => place ++ [name] := by simp
  rw [hmap] at hnodup
  exact hnodup.of_map _

/-- File systems that agree in a directory list the same there. -/
theorem children_eq {a b : FileSystem} {place : Place}
    (h : ∀ name, a.get? (place ++ [name]) = b.get? (place ++ [name])) :
    a.children place = b.children place := by
  refine eq_of_pairwise_compare (a.pairwise_toList_nodes.sublist (a.children_sublist place))
    (b.pairwise_toList_nodes.sublist (b.children_sublist place)) fun entry => ?_
  obtain ⟨name, node⟩ := entry
  rw [mem_children, mem_children, h name]

/-- What is left of a list behind another. -/
theorem isPrefixOf?_eq_some_iff {front whole rest : Place} :
    front.isPrefixOf? whole = some rest ↔ whole = front ++ rest := by
  induction front generalizing whole with
  | nil => simp [List.isPrefixOf?, eq_comm]
  | cons first front ih =>
    cases whole with
    | nil => simp [List.isPrefixOf?]
    | cons other whole =>
      by_cases h : first = other
      · simp [List.isPrefixOf?, h, ih]
      · simp [List.isPrefixOf?, h, Ne.symm h]

/-- A place lists what is there and below it. -/
theorem mem_below {fs : FileSystem} {place names : Place} {node : Node} :
    (names, node) ∈ fs.below place ↔ fs.get? (place ++ names) = some node := by
  simp only [below, List.mem_filterMap, Option.map_eq_some_iff, Prod.mk.injEq]
  constructor
  · rintro ⟨⟨other, node'⟩, hmem, rest, hrest, rfl, rfl⟩
    rw [← isPrefixOf?_eq_some_iff.mp hrest]
    exact mem_toList_nodes.mp hmem
  · intro h
    exact ⟨(place ++ names, node), mem_toList_nodes.mpr h, names,
      isPrefixOf?_eq_some_iff.mpr rfl, rfl, rfl⟩

/-- What is below a place comes from the entries of the file system, in order. -/
theorem below_sublist (fs : FileSystem) (place : Place) :
    ((fs.below place).map fun entry => place ++ entry.1).Sublist (fs.nodes.toList.map Prod.fst) := by
  refine map_filterMap_sublist (fun entry found hfound => ?_) _
  obtain ⟨rest, hrest, rfl⟩ := Option.map_eq_some_iff.mp hfound
  exact (isPrefixOf?_eq_some_iff.mp hrest).symm

/-- No names come twice below a place. -/
theorem nodup_map_fst_below (fs : FileSystem) (place : Place) :
    ((fs.below place).map Prod.fst).Nodup := by
  have hnodup := fs.nodup_map_fst_toList_nodes.sublist (fs.below_sublist place)
  have hmap : ((fs.below place).map fun entry => place ++ entry.1) =
      ((fs.below place).map Prod.fst).map fun names => place ++ names := by simp
  rw [hmap] at hnodup
  exact hnodup.of_map _

/-- No more is below a place than there is at all. -/
theorem length_below_le (fs : FileSystem) (place : Place) :
    (fs.below place).length ≤ fs.nodes.size := by
  rw [← Std.ExtTreeMap.length_toList]
  exact List.length_filterMap_le _ _

/-- File systems that agree at a place and below it list the same there. -/
theorem below_eq {a b : FileSystem} {place : Place}
    (h : ∀ names, a.get? (place ++ names) = b.get? (place ++ names)) :
    a.below place = b.below place := by
  refine eq_of_pairwise_compare (a.pairwise_toList_nodes.sublist (a.below_sublist place))
    (b.pairwise_toList_nodes.sublist (b.below_sublist place)) fun entry => ?_
  obtain ⟨names, node⟩ := entry
  rw [mem_below, mem_below, h names]

end FileSystem

end Siteworks
