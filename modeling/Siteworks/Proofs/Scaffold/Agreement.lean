import Mathlib
import Siteworks.Proofs.FileSystem.Agreement
import Siteworks.Proofs.Scaffold.Completion

/-!
# Copies in file systems that agree

A copy sees nothing but its root and its target. So copies in file systems that agree there answer
the same and leave the same, however many steps each of them may take.
-/

namespace Siteworks

namespace FileSystem

/-- Without links no path names one. -/
theorem Bare.isLink_eq {fs : FileSystem} (hlinks : fs.Bare []) (path : Path) :
    fs.isLink path = false := by
  unfold isLink
  split
  · rfl
  · split
    next hlink => exact absurd hlink (hlinks _ _)
    · rfl

end FileSystem

namespace Scaffold

open FileSystem (Agree AgreeOn Edits LeadsAlike)

/-- What is written at a target is written at the same places of two file systems without links,
which agree there. -/
structure TargetAlike (places : Place → Prop) (a b : FileSystem) (target : Path) (base : Place)
    (name : String) : Prop where
  /-- Where the one is written. -/
  one : Target a target base name
  /-- Where the other is written. -/
  other : Target b target base name
  /-- There are no links in the one. -/
  bareOne : a.Bare []
  /-- There are no links in the other. -/
  bareOther : b.Bare []
  /-- The file systems agree. -/
  agree : AgreeOn places a b
  /-- They agree at the base. -/
  atBase : places base
  /-- They agree at the target. -/
  inTarget : ∀ names, places (base ++ name :: names)

namespace TargetAlike

variable {places : Place → Prop} {a b after after' : FileSystem} {target : Path} {base : Place}
  {name : String}

/-- They agree along names in the target. -/
theorem along (h : TargetAlike places a b target base name) {names : List String} :
    ∀ init, init <+: name :: names → places (base ++ init) := by
  intro init hinit
  cases init with
  | nil =>
    rw [List.append_nil]
    exact h.atBase
  | cons first rest =>
    obtain rfl := (List.cons_prefix_cons.mp hinit).1
    exact h.inTarget rest

/-- A path along names in the target leads alike. -/
theorem leads (h : TargetAlike places a b target base name) {path : Path}
    {names slashes : List String} (hone : a.Leads path base (name :: names) slashes)
    (hother : b.Leads path base (name :: names) slashes) :
    LeadsAlike a b path base (name :: names) slashes :=
  ⟨hone, hother, h.bareOne, h.bareOther, fun init hinit => h.agree _ (h.along init hinit)⟩

/-- Names behind the target lead alike. -/
theorem join (h : TargetAlike places a b target base name) {names : List String} (hne : names ≠ [])
    (hnames : ∀ other ∈ names, IsName other) :
    LeadsAlike a b (target.join (.ofNames names)) base (name :: names) [] :=
  h.leads (h.one.join hne hnames) (h.other.join hne hnames)

/-- Names behind the target lead alike, and so does a slash behind it. -/
theorem exists_join (h : TargetAlike places a b target base name) {names : List String}
    (hnames : ∀ other ∈ names, IsName other) :
    ∃ slashes, LeadsAlike a b (target.join (.ofNames names)) base (name :: names) slashes := by
  cases names with
  | nil =>
    exact ⟨[""], h.leads (h.one.leads.join_nil (List.cons_ne_nil _ _))
      (h.other.leads.join_nil (List.cons_ne_nil _ _))⟩
  | cons first rest => exact ⟨[], h.join (List.cons_ne_nil _ _) hnames⟩

/-- The target is written at the same places after edits that leave the file systems agreeing. -/
theorem edits {dirs files dirs' files' : Place → Prop}
    (h : TargetAlike places a b target base name) (hedits : Edits dirs files a after)
    (hedits' : Edits dirs' files' b after') (hagree : AgreeOn places after after') :
    TargetAlike places after after' target base name :=
  ⟨h.one.edits hedits, h.other.edits hedits', h.bareOne.edits hedits, h.bareOther.edits hedits',
    hagree, h.atBase, h.inTarget⟩

end TargetAlike

/-- Copies read and write at the same places of two file systems without links, which agree there. -/
structure SettingAlike (places : Place → Prop) (a b : FileSystem) (source target : Path)
    (root base : Place) (name : String) : Prop extends TargetAlike places a b target base name where
  /-- Names behind the source start at the root in the one. -/
  sourceOne : a.Enters source root
  /-- Names behind the source start at the root in the other. -/
  sourceOther : b.Enters source root
  /-- The root and the target are apart. -/
  apart : Apart root (base ++ [name])
  /-- The file systems agree at the root. -/
  inRoot : ∀ names, places (root ++ names)

namespace SettingAlike

variable {places : Place → Prop} {a b after after' : FileSystem} {source target : Path}
  {root base : Place} {name : String}

/-- Where a copy reads and writes in the one. -/
theorem courseOne (h : SettingAlike places a b source target root base name) :
    Course a source target root base [name] := ⟨h.one.landing, h.sourceOne, h.apart⟩

/-- Where a copy reads and writes in the other. -/
theorem courseOther (h : SettingAlike places a b source target root base name) :
    Course b source target root base [name] := ⟨h.other.landing, h.sourceOther, h.apart⟩

/-- Copies read and write at the same places after edits that leave the file systems agreeing. -/
theorem edits {dirs files dirs' files' : Place → Prop}
    (h : SettingAlike places a b source target root base name) (hedits : Edits dirs files a after)
    (hedits' : Edits dirs' files' b after') (hagree : AgreeOn places after after') :
    SettingAlike places after after' source target root base name :=
  ⟨h.toTargetAlike.edits hedits hedits' hagree, h.sourceOne.edits hedits,
    h.sourceOther.edits hedits', h.apart, h.inRoot⟩

/-- What the one has below the root, the other has. -/
theorem get?_root (h : SettingAlike places a b source target root base name) (names : Place) :
    a.get? (root ++ names) = b.get? (root ++ names) := h.agree _ (h.inRoot names)

/-- A file is copied alike. -/
theorem agree_copyEntry (h : SettingAlike places a b source target root base name)
    {names : List String} {content : Content} (hne : names ≠ [])
    (hfile : a.get? (root ++ names) = some (.file content)) :
    Agree places (copyEntry a (source.join (.ofNames names)) (target.join (.ofNames names)))
      (copyEntry b (source.join (.ofNames names)) (target.join (.ofNames names))) := by
  have hfile' : b.get? (root ++ names) = some (.file content) := by rw [← h.get?_root, hfile]
  have hsome : (a.get? (root ++ names)).isSome := by rw [hfile]; rfl
  have hnames := FileSystem.isName_of_get? hsome
  obtain ⟨parent, hparent, hone⟩ := h.one.parent hne hnames
  obtain ⟨parent', hparent', hother⟩ := h.other.parent hne hnames
  obtain rfl : parent = parent' := Option.some.inj (hparent.symm.trans hparent')
  have hmade := (h.leads hone hother).agree_createDirectories (List.cons_ne_nil _ _) h.agree h.along
  unfold copyEntry
  simp only [hparent]
  rcases hmade.cases with ⟨fault, fs, fs', hmake, hmake', hleft⟩ | ⟨u, fs, fs', hmake, hmake', hleft⟩
  · rw [hmake, hmake']
    exact ⟨rfl, hleft⟩
  · have hedits := (h.one.landing.createDirectories (List.cons_ne_nil _ _) hone hmake).1
    have hedits' := (h.other.landing.createDirectories (List.cons_ne_nil _ _) hother hmake').1
    have hafter := h.edits hedits hedits' hleft
    have hread : fs.get? (root ++ names) = some (.file content) := by
      rw [h.courseOne.get?_root hedits, hfile]
    have hread' : fs'.get? (root ++ names) = some (.file content) := by
      rw [h.courseOther.get?_root hedits', hfile']
    rw [hmake, hmake']
    simp only [hafter.courseOne.copyFile_eq hne hread, hafter.courseOther.copyFile_eq hne hread']
    rcases (hafter.join hne hnames).write_cases (List.cons_ne_nil _ _) content with
      ⟨fault, hwrite, hwrite'⟩ | ⟨hadmits, hadmits', hwrite, hwrite'⟩
    · rw [hwrite, hwrite']
      exact ⟨rfl, hleft⟩
    · rw [hwrite, hwrite']
      exact ⟨rfl, hleft.put hadmits hadmits' _⟩

/-- Entries are copied alike if the steps are enough in both. -/
theorem agree_copyEntries {steps steps' count : Nat} {todo : List (Place × Node)}
    (h : SettingAlike places a b source target root base name) (hlisted : Listed a root todo)
    (hsteps : outstanding a root todo ≤ steps) (hsteps' : outstanding a root todo ≤ steps') :
    Agree places (copyEntries root source target steps a todo count)
      (copyEntries root source target steps' b todo count) := by
  induction steps generalizing steps' a b todo count with
  | zero =>
    cases todo with
    | nil => exact ⟨by simp [copyEntries], by simpa [copyEntries] using h.agree⟩
    | cons entry rest =>
      have hless : outstanding a root rest < outstanding a root (entry :: rest) :=
        outstanding_lt_cons (hlisted entry List.mem_cons_self) rest
      omega
  | succ steps ih =>
    rcases todo with _ | ⟨⟨names, node⟩, rest⟩
    · exact ⟨by simp [copyEntries], by simpa [copyEntries] using h.agree⟩
    · have hnode : a.get? (root ++ names) = some node := hlisted _ List.mem_cons_self
      have hnode' : b.get? (root ++ names) = some node := by rw [← h.get?_root, hnode]
      have hrest : Listed a root rest := fun entry he => hlisted entry (List.mem_cons_of_mem _ he)
      have hless := outstanding_lt_cons hnode rest
      obtain ⟨steps', rfl⟩ : ∃ left, steps' = left + 1 := ⟨steps' - 1, by omega⟩
      cases node with
      | link linked => exact ih h hrest (by omega) (by omega)
      | file content =>
        have hne : names ≠ [] := by
          rintro rfl
          rw [List.append_nil, h.sourceOne.directory] at hnode
          cases hnode
        simp only [copyEntries]
        rcases (h.agree_copyEntry hne hnode).cases with
          ⟨e, fs, fs', hcopy, hcopy', hleft⟩ | ⟨u, fs, fs', hcopy, hcopy', hleft⟩
        · rw [hcopy, hcopy']
          exact ⟨rfl, hleft⟩
        · have hedits := (h.courseOne.lays_file hne hnode hcopy).1
          have hedits' := (h.courseOther.lays_file hne hnode' hcopy').1
          have hroot := h.courseOne.get?_root hedits
          rw [hcopy, hcopy']
          refine ih (h.edits hedits hedits' hleft) (fun entry he => by rw [hroot, hrest entry he]) ?_ ?_
          all_goals
            rw [outstanding_congr hroot]
            omega
      | directory =>
        have hinside : entriesIn a root names = entriesIn b root names := by
          unfold entriesIn
          rw [FileSystem.children_eq fun name => ?_]
          rw [List.append_assoc]
          exact h.get?_root _
        have hsome : (a.get? (root ++ names)).isSome := by rw [hnode]; rfl
        have hnames := FileSystem.isName_of_get? hsome
        have hdue := outstanding_entriesIn_lt hnode rest
        obtain ⟨slashes, hleads⟩ := h.exists_join hnames
        have hmade := hleads.agree_createDirectories (List.cons_ne_nil _ _) h.agree h.along
        simp only [copyEntries]
        rcases hmade.cases with
          ⟨fault, fs, fs', hmake, hmake', hleft⟩ | ⟨u, fs, fs', hmake, hmake', hleft⟩
        · rw [hmake, hmake']
          exact ⟨rfl, hleft⟩
        · have hedits := (h.courseOne.lays_directory (List.cons_ne_nil _ _) hnode hmake).1
          have hedits' := (h.courseOther.lays_directory (List.cons_ne_nil _ _) hnode' hmake').1
          have hroot := h.courseOne.get?_root hedits
          rw [hmake, hmake']
          simp only [← hinside]
          refine ih (h.edits hedits hedits' hleft)
            (fun entry he => by rw [hroot, hrest.entriesIn_append names entry he]) ?_ ?_
          all_goals
            rw [outstanding_congr hroot]
            omega

end SettingAlike

/-- A directory is copied alike to targets of file systems that agree at both. -/
theorem TargetAlike.agree_copyTree {places : Place → Prop} {a b : FileSystem} {source target : Path}
    {root base : Place} {name : String} (h : TargetAlike places a b target base name)
    (hlocate : a.locate source = .ok root) (hlocate' : b.locate source = .ok root)
    (hapart : Apart root (base ++ [name])) (hroot : ∀ names, places (root ++ names)) :
    Agree places (copyTree a source target) (copyTree b source target) := by
  have hsame : a.get? root = b.get? root := by
    have hself := h.agree _ (hroot [])
    rwa [List.append_nil] at hself
  by_cases hdirectory : a.get? root = some .directory
  · have hdirectory' : b.get? root = some .directory := hsame.symm.trans hdirectory
    have hsetting : SettingAlike places a b source target root base name :=
      ⟨h, FileSystem.enters_of_locate hlocate hdirectory,
        FileSystem.enters_of_locate hlocate' hdirectory', hapart, hroot⟩
    have hinitial : ∀ {fs : FileSystem}, fs.Bare [] → initialEntries fs source root =
        [([], .directory)] := fun hlinks => by
      rw [initialEntries, hlinks.isLink_eq]
      rfl
    have hless := outstanding_initialEntries_le source hdirectory
    have hless' := outstanding_initialEntries_le source hdirectory'
    rw [hinitial h.bareOne] at hless
    rw [hinitial h.bareOther, outstanding_congr fun m => (h.agree _ (hroot m)).symm] at hless'
    rw [copyTree_eq hlocate hdirectory, copyTree_eq hlocate' hdirectory', hinitial h.bareOne,
      hinitial h.bareOther]
    refine hsetting.agree_copyEntries ?_ (hless.trans ?_) (hless'.trans ?_)
    · simpa [Listed] using hdirectory
    all_goals nlinarith
  · unfold copyTree
    rw [hlocate, hlocate']
    simp only [← hsame, hdirectory, if_false]
    exact ⟨rfl, h.agree⟩

end Scaffold

end Siteworks
