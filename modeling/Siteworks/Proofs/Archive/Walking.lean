import Mathlib
import Siteworks.Archive.Pack
import Siteworks.Proofs.Scaffold.Completion

/-!
# What a walk finds

A walk through a tree lists each directory when it reaches it and leaves out what is left behind. It
finds the files whose way from the root is not left behind at any place, each once, and in the order
of the names that lead to them.
-/

namespace Siteworks.Archive

/-- The entries for the files at a place and below it. -/
def entriesBelow (fs : FileSystem) (root : Place) : List ArchiveEntry :=
  (fs.below root).filterMap fun (names, node) =>
    match node with
    | .file content => if Scaffold.isExcluded names then none else some (entryOf names content)
    | _ => none

/-- The files at a place and below it that are packed, by the names that lead there. -/
def packed (fs : FileSystem) (root : Place) : List (Place × Content) :=
  (fs.below root).filterMap fun (names, node) =>
    match node with
    | .file content => if Scaffold.isExcluded names then none else some (names, content)
    | _ => none

/-- The entries of an archive are those of the files that are packed. -/
theorem entriesBelow_eq_map (fs : FileSystem) (root : Place) :
    entriesBelow fs root = (packed fs root).map fun file => entryOf file.1 file.2 := by
  rw [entriesBelow, packed, List.map_filterMap]
  refine List.filterMap_congr fun entry _ => ?_
  obtain ⟨names, node⟩ := entry
  cases node with
  | directory => rfl
  | link target => rfl
  | file content => cases h : Scaffold.isExcluded names <;> simp [h]

/-- Every file is packed that is not left behind, and nothing else. -/
theorem mem_packed {fs : FileSystem} {root names : Place} {content : Content} :
    (names, content) ∈ packed fs root ↔
      fs.get? (root ++ names) = some (.file content) ∧ Scaffold.isExcluded names = false := by
  rw [← FileSystem.mem_below, packed, List.mem_filterMap]
  constructor
  · rintro ⟨⟨other, node⟩, hmem, hpick⟩
    cases node with
    | directory => cases hpick
    | link target => cases hpick
    | file content' =>
      simp only at hpick
      split at hpick
      · cases hpick
      next hkept =>
        cases hpick
        exact ⟨hmem, by simpa using hkept⟩
  · rintro ⟨hmem, hkept⟩
    exact ⟨(names, .file content), hmem, by simp [hkept]⟩

/-- No file is packed twice. -/
theorem nodup_map_fst_packed (fs : FileSystem) (root : Place) :
    ((packed fs root).map Prod.fst).Nodup := by
  refine (fs.nodup_map_fst_below root).sublist (FileSystem.map_filterMap_sublist ?_ _)
  rintro ⟨names, node⟩ file hpick
  cases node with
  | directory => cases hpick
  | link target => cases hpick
  | file content =>
    simp only at hpick
    split at hpick
    · cases hpick
    · cases hpick
      rfl

/-- What is packed depends on nothing but what is below the root. -/
theorem packed_congr {fs after : FileSystem} {root : Place}
    (h : ∀ names, after.get? (root ++ names) = fs.get? (root ++ names)) :
    packed after root = packed fs root := by
  rw [packed, packed, FileSystem.below_eq h]

/-- The entries depend on nothing but what is below the root. -/
theorem entriesBelow_congr {fs after : FileSystem} {root : Place}
    (h : ∀ names, after.get? (root ++ names) = fs.get? (root ++ names)) :
    entriesBelow after root = entriesBelow fs root := by
  rw [entriesBelow_eq_map, entriesBelow_eq_map, packed_congr h]

/-- Names behind the same front are in the order that they are in without it. -/
private theorem compare_append_left (front a b : Place) :
    compare (front ++ a) (front ++ b) = compare a b := by
  induction front with
  | nil => rfl
  | cons name rest ih => simp [ih]

/-- What is packed below a place is in the order of the names that lead there. -/
theorem pairwise_packed (fs : FileSystem) (root : Place) :
    ((packed fs root).map Prod.fst).Pairwise fun a b => compare a b = .lt := by
  have hbelow : ((fs.below root).map fun entry => root ++ entry.1).Pairwise
      fun a b => compare a b = .lt := fs.pairwise_toList_nodes.sublist (fs.below_sublist root)
  have hsub : ((packed fs root).map fun file => root ++ file.1).Sublist
      ((fs.below root).map fun entry => root ++ entry.1) := by
    refine FileSystem.map_filterMap_sublist ?_ _
    rintro ⟨names, node⟩ file hpick
    cases node with
    | directory => cases hpick
    | link target => cases hpick
    | file content =>
      simp only at hpick
      split at hpick <;> cases hpick
      rfl
  have hpacked := hbelow.sublist hsub
  rw [List.pairwise_map] at hpacked ⊢
  exact hpacked.imp fun {a b} hlt => by rwa [compare_append_left] at hlt

/-- A directory lists its entries in the order of their names. -/
theorem pairwise_children (fs : FileSystem) (place : Place) :
    (fs.children place).Pairwise fun a b => compare a.1 b.1 = .lt := by
  have hchildren := fs.pairwise_toList_nodes.sublist (fs.children_sublist place)
  rw [List.pairwise_map] at hchildren
  exact hchildren.imp fun {a b} hlt => by
    simpa [compare_append_left, List.compare_cons_cons] using hlt

/-- What is packed of something that a root holds, by the names that lead there from the root. -/
def packedFrom (fs : FileSystem) (root names : Place) : List (Place × Content) :=
  (packed fs (root ++ names)).map fun file => (names ++ file.1, file.2)

/-- It depends on nothing but what is below the root. -/
theorem packedFrom_congr {fs after : FileSystem} {root : Place}
    (h : ∀ names, after.get? (root ++ names) = fs.get? (root ++ names)) (names : Place) :
    packedFrom after root names = packedFrom fs root names := by
  have hpacked : packed after (root ++ names) = packed fs (root ++ names) :=
    packed_congr fun more => by rw [List.append_assoc, h]
  rw [packedFrom, packedFrom, hpacked]

/-- Of a file it is the file itself. -/
theorem packed_of_file {fs : FileSystem} {place : Place} {content : Content}
    (h : fs.get? place = some (.file content)) : packed fs place = [([], content)] := by
  refine FileSystem.eq_of_pairwise_compare (pairwise_packed fs place) (by simp) ?_
  rintro ⟨names, other⟩
  rw [mem_packed, List.mem_singleton, Prod.mk.injEq]
  constructor
  · rintro ⟨hfile, -⟩
    have hnil : names = [] := by
      by_contra hne
      cases h.symm.trans (FileSystem.get?_eq_directory (by rw [hfile]; rfl) hne)
    subst hnil
    rw [List.append_nil, h] at hfile
    cases hfile
    exact ⟨rfl, rfl⟩
  · rintro ⟨rfl, rfl⟩
    exact ⟨by rwa [List.append_nil], rfl⟩

/-- Where nothing is, or a link, nothing is packed. -/
theorem packed_eq_nil {fs : FileSystem} {place : Place}
    (hdirectory : fs.get? place ≠ some .directory)
    (hfile : ∀ content, fs.get? place ≠ some (.file content)) : packed fs place = [] := by
  refine List.eq_nil_iff_forall_not_mem.mpr fun file hmem => ?_
  obtain ⟨hnode, -⟩ := mem_packed.mp hmem
  by_cases hnil : file.1 = []
  · rw [hnil, List.append_nil] at hnode
    exact hfile _ hnode
  · exact hdirectory (FileSystem.get?_eq_directory (by rw [hnode]; rfl) hnil)

/-- Of a directory it is what is packed of its entries, in their order. -/
theorem packed_of_directory {fs : FileSystem} {place : Place}
    (h : fs.get? place = some .directory) :
    packed fs place =
      (Scaffold.entriesIn fs place []).flatMap fun entry => packedFrom fs place entry.1 := by
  refine FileSystem.eq_of_pairwise_compare (pairwise_packed fs place) ?_ ?_
  · rw [List.map_flatMap, List.pairwise_flatMap]
    constructor
    · intro entry _
      have hpacked := pairwise_packed fs (place ++ entry.1)
      rw [packedFrom, List.map_map]
      rw [List.pairwise_map] at hpacked ⊢
      exact hpacked.imp fun {a b} hlt => by
        simpa only [Function.comp_apply, compare_append_left] using hlt
    · -- entries of different names: the names decide the order
      rw [Scaffold.entriesIn, List.append_nil, List.pairwise_map]
      refine ((pairwise_children fs place).filter _).imp fun {a b} hlt x hx y hy => ?_
      simp only [packedFrom, List.map_map, List.mem_map, Function.comp_apply] at hx hy
      obtain ⟨file, -, rfl⟩ := hx
      obtain ⟨file', -, rfl⟩ := hy
      simp [List.compare_cons_cons, hlt]
  · rintro ⟨names, content⟩
    simp only [List.mem_flatMap, Scaffold.mem_entriesIn, List.append_nil, List.nil_append,
      packedFrom, List.mem_map, Prod.mk.injEq, Prod.exists, mem_packed]
    constructor
    · rintro ⟨hfile, hkept⟩
      cases names with
      | nil =>
        rw [List.append_nil] at hfile
        cases h.symm.trans hfile
      | cons name more =>
        simp only [Scaffold.isExcluded, List.any_cons, Bool.or_eq_false_iff] at hkept
        have hplace : place ++ name :: more = place ++ [name] ++ more := by simp
        rw [hplace] at hfile
        obtain ⟨node, hnode⟩ : ∃ node, fs.get? (place ++ [name]) = some node := by
          cases more with
          | nil => exact ⟨_, by simpa using hfile⟩
          | cons second rest =>
            exact ⟨_, FileSystem.get?_eq_directory (by rw [hfile]; rfl) (List.cons_ne_nil _ _)⟩
        exact ⟨[name], node, ⟨name, rfl, hnode, by simpa using hkept.1⟩, more, content,
          ⟨hfile, hkept.2⟩, rfl, rfl⟩
    · rintro ⟨_, node, ⟨name, rfl, -, hname⟩, more, _, ⟨hfile, hkept⟩, rfl, rfl⟩
      refine ⟨by simpa using hfile, ?_⟩
      simp only [Scaffold.isExcluded, List.singleton_append, List.any_cons, Bool.or_eq_false_iff]
      exact ⟨by simpa using hname, hkept⟩

/-- Of a directory below a root it is what is packed of its entries, in their order. -/
theorem packedFrom_of_directory {fs : FileSystem} {root names : Place}
    (h : fs.get? (root ++ names) = some .directory) :
    packedFrom fs root names =
      (Scaffold.entriesIn fs root names).flatMap fun entry => packedFrom fs root entry.1 := by
  have hentries : Scaffold.entriesIn fs root names =
      (Scaffold.entriesIn fs (root ++ names) []).map fun entry => (names ++ entry.1, entry.2) := by
    simp [Scaffold.entriesIn]
  rw [hentries, packedFrom, packed_of_directory h, List.map_flatMap, List.flatMap_map]
  simp [packedFrom, Function.comp_def]

/-- A walk that has enough steps finds what is packed of the entries on its list, in their order. -/
theorem walk_eq {fs : FileSystem} {root : Place} {steps : Nat} {todo : List (Place × Node)}
    (hlisted : Scaffold.Listed fs root todo)
    (hsteps : Scaffold.outstanding fs root todo ≤ steps) :
    walk fs root steps todo = todo.flatMap fun entry => packedFrom fs root entry.1 := by
  induction steps generalizing todo with
  | zero =>
    rcases todo with _ | ⟨⟨names, node⟩, rest⟩
    · rfl
    · have hnode : fs.get? (root ++ names) = some node := hlisted _ List.mem_cons_self
      have hless := Scaffold.outstanding_lt_cons hnode rest
      omega
  | succ steps ih =>
    rcases todo with _ | ⟨⟨names, node⟩, rest⟩
    · rfl
    · have hnode : fs.get? (root ++ names) = some node := hlisted _ List.mem_cons_self
      have hrest : Scaffold.Listed fs root rest :=
        fun entry he => hlisted entry (List.mem_cons_of_mem _ he)
      have hless := Scaffold.outstanding_lt_cons hnode rest
      rw [List.flatMap_cons]
      cases node with
      | link target =>
        rw [walk, ih hrest (by omega), packedFrom, packed_eq_nil (by simp [hnode]) (by simp [hnode])]
        rfl
      | file content =>
        rw [walk, ih hrest (by omega), packedFrom, packed_of_file hnode]
        simp
      | directory =>
        have hinside := Scaffold.outstanding_entriesIn_lt hnode rest
        rw [walk, ih (hrest.entriesIn_append names) (by omega), List.flatMap_append,
          packedFrom_of_directory hnode]

/-- The entries for a tree are those for the files at its root and below it that are packed. -/
theorem entriesOf_eq (fs : FileSystem) (source : Path) (root : Place) :
    entriesOf fs source root =
      if fs.isLink source && fs.get? root ≠ some .directory then [] else entriesBelow fs root := by
  unfold entriesOf
  cases hnode : fs.get? root with
  | none =>
    rw [entriesBelow_eq_map, packed_eq_nil (by simp [hnode]) (by simp [hnode])]
    simp
  | some node =>
    have hlisted : Scaffold.Listed fs root [([], node)] := by simpa [Scaffold.Listed] using hnode
    have hsteps : Scaffold.outstanding fs root [([], node)] ≤ fs.nodes.size := by
      simpa [Scaffold.outstanding] using fs.length_below_le root
    have hwalk : walk fs root fs.nodes.size [([], node)] = packed fs root := by
      rw [walk_eq hlisted hsteps]
      simp [packedFrom]
    simp only [hwalk, entriesBelow_eq_map, ne_eq, Option.some.injEq]

end Siteworks.Archive
