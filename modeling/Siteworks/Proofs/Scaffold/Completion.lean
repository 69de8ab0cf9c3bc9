import Mathlib
import Siteworks.Proofs.Scaffold.Copying

/-!
# When a copy succeeds

A copy into a base succeeds if what it lays down fits what is there: no file where a directory is
due, and no directory where a file is due. The steps that it may take are enough, since each of them
is spent on another place below the root.
-/

namespace Siteworks

namespace FileSystem

/-- What is below the entries of a directory is, together with the directory, below it. -/
theorem sum_length_below_lt (fs : FileSystem) (place : Place) (h : (fs.get? place).isSome)
    {names : List String} (hnodup : names.Nodup) :
    (names.map fun name => (fs.below (place ++ [name])).length).sum < (fs.below place).length := by
  obtain ⟨node, hnode⟩ := Option.isSome_iff_exists.mp h
  have hinside : (names.flatMap fun name =>
      (fs.below (place ++ [name])).map fun entry => name :: entry.1).Nodup := by
    rw [List.nodup_flatMap]
    refine ⟨fun name _ => ?_, hnodup.imp fun {a b} hne => ?_⟩
    · have hmap : ((fs.below (place ++ [name])).map fun entry => name :: entry.1) =
          ((fs.below (place ++ [name])).map Prod.fst).map (List.cons name) := by simp
      rw [hmap]
      exact (fs.nodup_map_fst_below _).map (List.cons_injective)
    · intro other ha hb
      obtain ⟨entry, -, rfl⟩ := List.mem_map.mp ha
      obtain ⟨entry', -, hsame⟩ := List.mem_map.mp hb
      exact hne (List.cons.inj hsame).1.symm
  have hall : ([] :: names.flatMap fun name =>
      (fs.below (place ++ [name])).map fun entry => name :: entry.1).Nodup := by
    refine List.nodup_cons.mpr ⟨?_, hinside⟩
    simp
  have hsub : ([] :: names.flatMap fun name =>
      (fs.below (place ++ [name])).map fun entry => name :: entry.1) ⊆
        (fs.below place).map Prod.fst := by
    intro other hother
    rcases List.mem_cons.mp hother with rfl | hother
    · exact List.mem_map.mpr ⟨([], node), mem_below.mpr (by simpa using hnode), rfl⟩
    · obtain ⟨name, -, hname⟩ := List.mem_flatMap.mp hother
      obtain ⟨⟨rest, node'⟩, hentry, rfl⟩ := List.mem_map.mp hname
      refine List.mem_map.mpr ⟨(name :: rest, node'), mem_below.mpr ?_, rfl⟩
      rw [← mem_below.mp hentry]
      simp
  have hlength := (hall.subperm hsub).length_le
  simp only [List.length_cons, List.length_flatMap, List.length_map] at hlength
  omega

end FileSystem

namespace Scaffold

open FileSystem (Edits)

/-- What is due at a place of a tree fits what is there. -/
def Fits (due there : Option Node) : Prop :=
  (due = some .directory → ∀ content, there ≠ some (.file content)) ∧
    (∀ content, due = some (.file content) → there ≠ some .directory)

/-- Anything fits where nothing is. -/
theorem Fits.of_none (due : Option Node) : Fits due none := ⟨fun _ _ => nofun, fun _ _ => nofun⟩

/-- What is there fits itself. -/
theorem Fits.refl (node : Option Node) : Fits node node := by
  refine ⟨?_, ?_⟩
  · rintro rfl content
    exact nofun
  · rintro content rfl
    exact nofun

namespace Course

variable {fs after : FileSystem} {source target : Path} {root base front : Place}

/-- A directory can be copied if it and the way to it fit. -/
theorem createDirectories_ok (h : Course fs source target root base front) {path : Path}
    {names slashes : List String} (hne : front ++ names ≠ [])
    (hleads : fs.Leads path base (front ++ names) slashes)
    (hdirectory : fs.get? (root ++ names) = some .directory)
    (hfits : ∀ m, m <+: names → Fits (fs.get? (root ++ m)) (fs.get? (base ++ front ++ m))) :
    (fs.createDirectories path).1 = .ok () := by
  refine hleads.createDirectories_ok hne h.bare fun init hinit content => ?_
  rcases List.prefix_or_prefix_of_prefix (List.prefix_append front names) hinit with
    ⟨m, rfl⟩ | hpre
  · obtain ⟨more, rfl⟩ := (List.prefix_append_right_inj front).mp hinit
    rw [← List.append_assoc] at hdirectory
    have hm := FileSystem.get?_eq_directory_of_append hdirectory
    rw [← List.append_assoc]
    exact (hfits m (List.prefix_append m more)).1 hm content
  · -- in front of the tree there is the base only, or the tree is meant
    by_cases hinitNe : init = []
    · rw [hinitNe, List.append_nil, h.directory]
      exact nofun
    · have hlength := h.short
      have hpos := List.length_pos_of_ne_nil hinitNe
      obtain rfl := hpre.eq_of_length_le (by omega)
      have hm := FileSystem.get?_eq_directory_of_append hdirectory
      rw [← List.append_nil root] at hm
      rw [← List.append_nil (base ++ init)]
      exact (hfits [] List.nil_prefix).1 hm content

/-- A file can be copied if it and the way to it fit. -/
theorem copyEntry_ok (h : Course fs source target root base front) {names : List String}
    {content : Content} (hne : names ≠ [])
    (hfile : fs.get? (root ++ names) = some (.file content))
    (hfits : ∀ m, m <+: names → Fits (fs.get? (root ++ m)) (fs.get? (base ++ front ++ m))) :
    (copyEntry fs (source.join (.ofNames names)) (target.join (.ofNames names))).1 = .ok () := by
  have hsome : (fs.get? (root ++ names)).isSome := by rw [hfile]; rfl
  have hnames := FileSystem.isName_of_get? hsome
  have hway : fs.get? (root ++ names.dropLast) = some .directory := by
    rw [← List.dropLast_concat_getLast hne, ← List.append_assoc] at hsome
    exact FileSystem.get?_eq_directory hsome (List.cons_ne_nil _ _)
  obtain ⟨parent, hparent, hcases⟩ := h.parent names hne hnames
  have hmake : (fs.createDirectories parent).1 = .ok () := by
    rcases hcases with ⟨hdeep, hleads⟩ | ⟨-, hthere⟩
    · exact h.createDirectories_ok hdeep hleads hway
        fun m hm => hfits m (hm.trans (List.dropLast_prefix names))
    · rw [FileSystem.createDirectories, FileSystem.createWithin_eq_self _ hthere]
  obtain ⟨parent', hparent', hmakes⟩ := h.createParent hne hnames
  obtain rfl : parent = parent' := Option.some.inj (hparent.symm.trans hparent')
  unfold copyEntry
  simp only [hparent]
  split
  next hstep =>
    rw [hstep] at hmake
    cases hmake
  next middle hstep =>
    obtain ⟨hedits, hmade⟩ := hmakes hstep
    have hsame : middle.get? (base ++ front ++ names) = fs.get? (base ++ front ++ names) := by
      refine (hmade rfl names).2 fun hpre => ?_
      have hlength := hpre.length_le
      have hpos := List.length_pos_of_ne_nil hne
      rw [List.length_dropLast] at hlength
      omega
    obtain ⟨hdeep, hleads⟩ := h.join hne hnames
    have hjoin := hleads.edits hedits
    have hadmits : middle.Admits (base ++ (front ++ names)) := by
      rw [hjoin.admits_iff hdeep, List.dropLast_append_of_ne_nil hne, ← List.append_assoc,
        ← List.append_assoc, hsame]
      exact ⟨(hmade rfl _).1 List.prefix_rfl, (hfits names List.prefix_rfl).2 content hfile⟩
    have hfile' : middle.get? (root ++ names) = some (.file content) := by
      rw [h.get?_root hedits, hfile]
    have hwrite : middle.write (target.join (.ofNames names)) content =
        .ok (middle.put (base ++ (front ++ names)) (.file content)) :=
      (hjoin.write_eq_ok_iff hdeep (h.bare.edits hedits)).mpr ⟨hadmits, rfl⟩
    rw [(h.edits hedits).copyFile_eq hne hfile', hwrite]

end Course

/-- What is at and below the entries on a list, counted. -/
def outstanding (fs : FileSystem) (root : Place) (todo : List (Place × Node)) : Nat :=
  (todo.map fun entry => (fs.below (root ++ entry.1)).length).sum

/-- What is outstanding depends on the root only. -/
theorem outstanding_congr {fs after : FileSystem} {root : Place}
    (h : ∀ m, after.get? (root ++ m) = fs.get? (root ++ m)) (todo : List (Place × Node)) :
    outstanding after root todo = outstanding fs root todo := by
  have hbelow : ∀ m, after.below (root ++ m) = fs.below (root ++ m) := by
    intro m
    refine FileSystem.below_eq fun names => ?_
    rw [List.append_assoc]
    exact h _
  simp only [outstanding, hbelow]

/-- An entry that is there is outstanding itself. -/
theorem outstanding_lt_cons {fs : FileSystem} {root names : Place} {node : Node}
    (hnode : fs.get? (root ++ names) = some node) (rest : List (Place × Node)) :
    outstanding fs root rest < outstanding fs root ((names, node) :: rest) := by
  have hself : ([], node) ∈ fs.below (root ++ names) := FileSystem.mem_below.mpr (by simpa)
  have hpos := List.length_pos_of_mem hself
  simp only [outstanding, List.map_cons, List.sum_cons]
  omega

/-- Less is outstanding when a directory has made way for its entries. -/
theorem outstanding_entriesIn_lt {fs : FileSystem} {root names : Place} {node : Node}
    (hnode : fs.get? (root ++ names) = some node) (rest : List (Place × Node)) :
    outstanding fs root (entriesIn fs root names ++ rest) <
      outstanding fs root ((names, node) :: rest) := by
  have hnodup : (((fs.children (root ++ names)).filter
      fun child => !excludedNames.contains child.1).map Prod.fst).Nodup :=
    (fs.nodup_map_fst_children _).sublist (List.filter_sublist.map _)
  have hless := fs.sum_length_below_lt (root ++ names) (by rw [hnode]; rfl) hnodup
  simp only [List.map_map, List.append_assoc] at hless
  simp only [outstanding, entriesIn, List.map_append, List.sum_append, List.map_cons,
    List.sum_cons, List.map_map]
  exact Nat.add_lt_add_right hless _

/-- Laying something over a tree that fits leaves what is due elsewhere fitting. -/
theorem Lays.fits {fs after : FileSystem} {root tree names m : Place}
    (h : Lays root tree names fs after) (hroot : after.get? (root ++ m) = fs.get? (root ++ m))
    (hfits : Fits (fs.get? (root ++ m)) (fs.get? (tree ++ m))) :
    Fits (after.get? (root ++ m)) (after.get? (tree ++ m)) := by
  obtain ⟨hlaid, hkept⟩ := h m
  by_cases hm : m <+: names
  · rw [hlaid hm, hroot]
    exact Fits.refl _
  · rw [hkept hm, hroot]
    exact hfits

/-- Entries that fit what is there can be copied in as many steps as are outstanding. -/
theorem Course.copyEntries_ok {source target : Path} {root base front : Place} {steps count : Nat}
    {fs : FileSystem} {todo : List (Place × Node)}
    (h : Course fs source target root base front) (hlisted : Listed fs root todo)
    (hdeep : ∀ entry ∈ todo, front ++ entry.1 ≠ [])
    (hfits : ∀ m, Makes fs root todo m →
      Fits (fs.get? (root ++ m)) (fs.get? (base ++ front ++ m)))
    (hsteps : outstanding fs root todo ≤ steps) :
    ∃ n, (copyEntries root source target steps fs todo count).1 = .ok n := by
  induction steps generalizing fs todo count with
  | zero =>
    rcases todo with _ | ⟨⟨names, node⟩, rest⟩
    · exact ⟨count, rfl⟩
    · have hnode : fs.get? (root ++ names) = some node := hlisted _ List.mem_cons_self
      have hless := outstanding_lt_cons hnode rest
      omega
  | succ steps ih =>
    rcases todo with _ | ⟨⟨names, node⟩, rest⟩
    · exact ⟨count, rfl⟩
    · have hnode : fs.get? (root ++ names) = some node := hlisted _ List.mem_cons_self
      have hrest : Listed fs root rest := fun entry he => hlisted entry (List.mem_cons_of_mem _ he)
      have hless := outstanding_lt_cons hnode rest
      have hself : front ++ names ≠ [] := hdeep _ List.mem_cons_self
      have hothers : ∀ entry ∈ rest, front ++ entry.1 ≠ [] :=
        fun entry he => hdeep entry (List.mem_cons_of_mem _ he)
      cases node with
      | link linked =>
        simp only [makes_cons_link] at hfits
        exact ih h hrest hothers hfits (by omega)
      | file content =>
        have hne : names ≠ [] := by
          rintro rfl
          rw [List.append_nil, h.source.directory] at hnode
          cases hnode
        simp only [makes_cons_file hnode] at hfits
        have hok := h.copyEntry_ok hne hnode fun m hm => hfits m (Or.inl hm)
        simp only [copyEntries]
        split
        next hentry =>
          rw [hentry] at hok
          cases hok
        next middle hentry =>
          obtain ⟨hedits, hlaid⟩ := h.lays_file hne hnode hentry
          have hroot := h.get?_root hedits
          refine ih (h.edits hedits) (fun entry he => by rw [hroot, hrest entry he]) hothers
            (fun m hm => ?_) ?_
          · exact (hlaid rfl).fits (hroot m) (hfits m (Or.inr ((makes_congr hroot).mp hm)))
          · rw [outstanding_congr hroot]
            omega
      | directory =>
        simp only [makes_cons_directory] at hfits
        obtain ⟨slashes, hleads, -⟩ :=
          h.leads names hself (FileSystem.isName_of_get? (by rw [hnode]; rfl))
        have hok := h.createDirectories_ok hself hleads hnode fun m hm => hfits m (Or.inl hm)
        have hinside := outstanding_entriesIn_lt hnode rest
        simp only [copyEntries]
        split
        next hmake =>
          rw [hmake] at hok
          cases hok
        next middle hmake =>
          obtain ⟨hedits, hlaid⟩ := h.lays_directory hself hnode hmake
          have hroot := h.get?_root hedits
          refine ih (h.edits hedits)
            (fun entry he => by rw [hroot, hrest.entriesIn_append names entry he])
            (append_ne_nil_of_entriesIn hothers names) (fun m hm => ?_) ?_
          · exact (hlaid rfl).fits (hroot m) (hfits m (Or.inr ((makes_congr hroot).mp hm)))
          · rw [outstanding_congr hroot]
            omega

/-- No more is outstanding at the start than the file system holds. -/
theorem outstanding_initialEntries_le {fs : FileSystem} {root : Place} (source : Path)
    (hdirectory : fs.get? root = some .directory) :
    outstanding fs root (initialEntries fs source root) ≤ fs.nodes.size := by
  have hwhole := fs.length_below_le root
  have hroot : fs.get? (root ++ []) = some .directory := by rwa [List.append_nil]
  unfold initialEntries
  split
  · have hless := outstanding_entriesIn_lt hroot []
    simp only [List.append_nil, outstanding, List.map_cons, List.map_nil, List.sum_cons,
      List.sum_nil, Nat.add_zero] at hless ⊢
    omega
  · simpa [outstanding] using hwhole

/-- A directory can be copied to a target apart from it if what is due fits what is there. -/
theorem Target.copyTree_ok {fs : FileSystem} {source target : Path} {root base : Place}
    {name : String} (h : Target fs target base name) (hlocate : fs.locate source = .ok root)
    (hdirectory : fs.get? root = some .directory) (hapart : Apart root (base ++ [name]))
    (hfits : ∀ m, Copied fs root [] m →
      Fits (fs.get? (root ++ m)) (fs.get? (base ++ [name] ++ m))) :
    ∃ count, (copyTree fs source target).1 = .ok count := by
  have hcourse : Course fs source target root base [name] :=
    ⟨h.landing, FileSystem.enters_of_locate hlocate hdirectory, hapart⟩
  have hself : Copied fs root [] [] := ⟨rfl, .directory, by simpa using hdirectory, nofun⟩
  rw [copyTree_eq hlocate hdirectory]
  refine hcourse.copyEntries_ok (listed_initialEntries source hdirectory)
    (fun _ _ => List.cons_ne_nil _ _) (fun m hm => ?_) ?_
  · by_cases hnil : m = []
    · exact hfits m (hnil ▸ hself)
    · exact hfits m ((makes_initialEntries source hdirectory hnil).mp hm)
  · refine (outstanding_initialEntries_le source hdirectory).trans ?_
    nlinarith

end Scaffold

end Siteworks
