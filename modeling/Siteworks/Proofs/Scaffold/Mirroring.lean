import Mathlib
import Siteworks.Proofs.Archive.Walking
import Siteworks.Proofs.FileSystem.Ways

/-!
# Copies of trees

A copy of a directory to a place that is apart from it succeeds exactly if no file is where a
directory is due, on the way to the target or in it, and no directory where a file is due. Then it
counts the files that are not left behind, it lays them over the target with their directories, and
nothing else has changed but the directories that were missing on the way. A second copy does
nothing.
-/

namespace Siteworks

namespace FileSystem

/-- A path that leads somewhere and does not name a link names none after an edit. -/
theorem Edits.isLink_eq_false {dirs files : Place → Prop} {before after : FileSystem} {path : Path}
    {place : Place} (h : Edits dirs files before after) (hlocate : before.locate path = .ok place)
    (hplain : before.isLink path = false) : after.isLink path = false := by
  have hplace : ∀ q, after.placeOf path = .ok q → before.placeOf path = .ok q := by
    intro q hq
    unfold placeOf at hq ⊢
    split at hq
    · cases hq
    next name hname =>
      split at hq
      · cases hq
      next hnamed =>
        obtain ⟨front, hfront⟩ := List.getLast?_eq_some_iff.mp hname
        have hfound := (locate_eq_ok_iff.mp hlocate).2
        rw [hfront] at hfound
        obtain ⟨parent, hparent, hdirectory⟩ := followLinks_concat (before.get?_start path) hfound
        have hparent' := h.start_eq path ▸ h.followLinks_found hparent
        rw [hfront, List.dropLast_concat] at hq ⊢
        simpa [directoryOf, hparent, hparent', hdirectory, h.directory hdirectory, hnamed] using hq
  unfold isLink at hplain ⊢
  cases hafter : after.placeOf path with
  | error fault => rfl
  | ok q =>
    rw [hplace q hafter] at hplain
    simp only at hplain ⊢
    split
    next target hlink =>
      rw [h.link_iff.mp hlink] at hplain
      cases hplain
    · rfl

/-- Names behind a path to a directory land in it. -/
theorem Enters.landing {fs : FileSystem} {target : Path} {tree : Place}
    (h : fs.Enters target tree) (hbare : fs.Bare tree) : Scaffold.Landing fs target tree [] where
  short := Nat.zero_le 1
  directory := h.directory
  bare := hbare
  leads names hne hnames := by
    have hpath : Path.ofNames names = ⟨names⟩ := by
      have hfilled : names ≠ [] := hne
      simp [Path.ofNames, hfilled]
    rw [hpath]
    exact ⟨[], h.leads hne hnames, fun _ => rfl⟩
  parent names hne hnames := by
    have hpath : Path.ofNames names = ⟨names⟩ := by simp [Path.ofNames, hne]
    have hleads := h.leads hne hnames
    rw [hpath]
    by_cases hdeep : names.dropLast = []
    · -- the parent of a name behind the path is where the path leads
      have habsolute := Path.isAbsolute_of_isName hnames
      have hlast := hnames _ (List.getLast_mem hne)
      have hsegments : (target.join ⟨names⟩).segments = target.stem ++ [names.getLast hne] ++ [] := by
        rw [Path.segments_join _ habsolute, List.append_nil]
        conv_lhs => rw [← List.dropLast_concat_getLast hne, hdeep]
        rfl
      obtain ⟨parent, hparent, -⟩ := Path.exists_parent hsegments hlast.1 hlast.2.1 (by simp)
      have hstem : followLinks fs maxLinks (fs.start (target.join ⟨names⟩)) target.stem =
          .found tree := by
        rw [fs.start_join target habsolute hne]
        exact h.stem
      refine ⟨parent, hparent, Or.inr ⟨hdeep, isDirectory_of_prefix hparent hstem h.directory ?_⟩⟩
      rw [hsegments, Path.dropSilent_append hlast.1 hlast.2.1 (by simp), List.dropLast_concat]
    · obtain ⟨parent, hparent, hup⟩ := hleads.parent hdeep
      exact ⟨parent, hparent, Or.inl ⟨hdeep, hup⟩⟩

/-- A slash behind a path moves nothing. -/
theorem Heads.join_nil {fs : FileSystem} {target : Path} {base : Place} {way : List String}
    (h : fs.Heads target base way) :
    ∃ slashes, (∀ segment ∈ slashes, segment = "") ∧
      fs.Heads (target.join (.ofNames [])) base (way ++ slashes) ∧
      ((target.join (.ofNames [])).EndsInDot → target.EndsInDot) := by
  obtain ⟨⟨front, hsegments, hfront⟩, hdirectory, hclear⟩ := h
  have habsolute : (Path.ofNames []).isAbsolute = false := rfl
  have hstart := fs.start_join target habsolute (by simp [Path.ofNames])
  have hjoin : (target.join (.ofNames [])).segments = target.stem ++ [""] :=
    Path.segments_join target habsolute
  rw [← hstart] at hfront
  by_cases hlast : target.segments.getLast? = some ""
  · have hsame : (target.join (.ofNames [])).segments = target.segments := by
      obtain ⟨others, hothers⟩ := List.getLast?_eq_some_iff.mp hlast
      rw [hjoin, Path.stem, if_pos hlast, hothers, List.dropLast_concat]
    refine ⟨[], by simp, ⟨⟨front, ?_, hfront⟩, hdirectory, by rwa [List.append_nil]⟩, ?_⟩
    · rw [hsame, hsegments, List.append_nil]
    · rw [Path.EndsInDot, Path.EndsInDot, hsame]
      exact id
  · have hsilent : ∀ segment ∈ [""], segment = "" ∨ segment = "." := by simp
    have hlonger : (target.join (.ofNames [])).segments = target.segments ++ [""] := by
      rw [hjoin, Path.stem, if_neg hlast]
    refine ⟨[""], by simp, ⟨⟨front, ?_, hfront⟩, hdirectory, fun place hplace => ?_⟩, ?_⟩
    · rw [hlonger, hsegments, List.append_assoc]
    · exact hclear place ((passes_append_silent hsilent).mp hplace)
    · rw [Path.EndsInDot, Path.EndsInDot, hlonger]
      simp

end FileSystem

namespace Scaffold

open Archive (mem_packed packed packedFrom packedFrom_congr packedFrom_of_directory packed_eq_nil
  packed_of_directory packed_of_file)
open FileSystem (Edits Passes advance)

/-- A copy of entries that succeeds counts the files among them and below them that are not left
behind. -/
theorem Course.count_entries {source target : Path} {root base front : Place}
    {steps count total : Nat} {fs after : FileSystem} {todo : List (Place × Node)}
    (h : Course fs source target root base front) (hlisted : Listed fs root todo)
    (hdeep : ∀ entry ∈ todo, front ++ entry.1 ≠ [])
    (hcopy : copyEntries root source target steps fs todo count = (.ok total, after)) :
    total = count + (todo.flatMap fun entry => packedFrom fs root entry.1).length := by
  induction steps generalizing fs todo count with
  | zero =>
    cases todo with
    | nil =>
      cases hcopy
      rfl
    | cons entry rest => cases hcopy
  | succ steps ih =>
    rcases todo with _ | ⟨⟨names, node⟩, rest⟩
    · cases hcopy
      rfl
    · have hnode : fs.get? (root ++ names) = some node := hlisted _ List.mem_cons_self
      have hrest : Listed fs root rest := fun entry he => hlisted entry (List.mem_cons_of_mem _ he)
      have hself : front ++ names ≠ [] := hdeep _ List.mem_cons_self
      have hothers : ∀ entry ∈ rest, front ++ entry.1 ≠ [] :=
        fun entry he => hdeep entry (List.mem_cons_of_mem _ he)
      rw [List.flatMap_cons, List.length_append]
      change total = count + ((packedFrom fs root names).length + _)
      cases node with
      | link linked =>
        have hnone : packedFrom fs root names = [] := by
          rw [packedFrom, packed_eq_nil (by simp [hnode]) (by simp [hnode])]
          rfl
        rw [ih h hrest hothers hcopy, hnone, List.length_nil, Nat.zero_add]
      | file content =>
        have hne : names ≠ [] := by
          rintro rfl
          rw [List.append_nil, h.source.directory] at hnode
          cases hnode
        have hone : (packedFrom fs root names).length = 1 := by
          rw [packedFrom, packed_of_file hnode]
          rfl
        simp only [copyEntries] at hcopy
        split at hcopy
        · cases hcopy
        next middle hentry =>
          have hfirst := (h.lays_file hne hnode hentry).1
          have hroot := h.get?_root hfirst
          have hrest' : Listed middle root rest := fun entry he => by rw [hroot, hrest entry he]
          have hcount := ih (h.edits hfirst) hrest' hothers hcopy
          simp only [packedFrom_congr hroot] at hcount
          omega
      | directory =>
        simp only [copyEntries] at hcopy
        split at hcopy
        · cases hcopy
        next middle hmake =>
          have hfirst := (h.lays_directory hself hnode hmake).1
          have hroot := h.get?_root hfirst
          have hrest' : Listed middle root (entriesIn fs root names ++ rest) :=
            fun entry he => by rw [hroot, hrest.entriesIn_append names entry he]
          have hcount := ih (h.edits hfirst) hrest' (append_ne_nil_of_entriesIn hothers names) hcopy
          simp only [packedFrom_congr hroot, List.flatMap_append, List.length_append] at hcount
          rw [packedFrom_of_directory hnode]
          omega

/-- What a copy goes by: the target lies on a way from a base, apart from the source, and neither
the source nor the way nor the target has links. No directory of the source is made on the way, and
no dot ends the path of the target behind a directory that is missing. -/
structure Separate (fs : FileSystem) (source target : Path) (base : Place) (way : List String) :
    Prop where
  /-- The path of the target leads to the base, and on from there by its text. -/
  heads : fs.Heads target base way
  /-- There are no links in the target. -/
  bare : fs.Bare (way.foldl advance base)
  /-- The source is not a link. -/
  plain : fs.isLink source = false
  /-- The source and the target are apart. -/
  apart : ∀ root, fs.locate source = .ok root → Apart root (way.foldl advance base)
  /-- What is on the way and in the source is there. -/
  aside : ∀ root, fs.locate source = .ok root → ∀ place, Passes base way place →
    root <+: place → (fs.get? place).isSome
  /-- A target that ends in a dot is there. -/
  ends : target.EndsInDot → fs.get? (way.foldl advance base) = some .directory

section Separate

variable {fs after : FileSystem} {source target : Path} {root base : Place} {way : List String}

/-- A copy of a directory makes the target and then copies what the directory lists. -/
theorem copyTree_eq_copyEntries (hlocate : fs.locate source = .ok root)
    (hdirectory : fs.get? root = some .directory) (hplain : fs.isLink source = false) :
    copyTree fs source target =
      match fs.createDirectories (target.join (.ofNames [])) with
      | (.error fault, fs) => (.error (.io (target.join (.ofNames [])) fault), fs)
      | (.ok _, middle) =>
        copyEntries root source target ((fs.nodes.size + 2) * (fs.nodes.size + 2) - 1) middle
          (entriesIn fs root []) 0 := by
  obtain ⟨steps, hsteps⟩ : ∃ steps, (fs.nodes.size + 2) * (fs.nodes.size + 2) = steps + 1 :=
    ⟨_, (Nat.succ_pred_eq_of_pos (by positivity)).symm⟩
  rw [copyTree_eq hlocate hdirectory, initialEntries, hplain, hsteps]
  rcases hmake : fs.createDirectories (target.join (.ofNames [])) with ⟨result, middle⟩
  cases result <;> simp [copyEntries, hmake]

/-- Once the target is made, the source is as it was, and what is copied lands in the target. -/
theorem Separate.course (h : Separate fs source target base way)
    (hlocate : fs.locate source = .ok root) (hdirectory : fs.get? root = some .directory)
    {middle : FileSystem}
    (hmake : fs.createDirectories (target.join (.ofNames [])) = (.ok (), middle)) :
    Edits (Passes base way) (fun _ => False) fs middle ∧
      (∀ place, Passes base way place → middle.get? place = some .directory) ∧
      (∀ m, middle.get? (root ++ m) = fs.get? (root ++ m)) ∧
      Course middle source target root (way.foldl advance base) [] := by
  obtain ⟨slashes, hslashes, hheads, -⟩ := h.heads.join_nil
  have hpass : ∀ {place}, Passes base (way ++ slashes) place ↔ Passes base way place :=
    FileSystem.passes_append_silent fun segment hsegment => Or.inl (hslashes segment hsegment)
  obtain ⟨hedits, hmade⟩ := hheads.edits_createDirectories hmake
  replace hedits := hedits.mono (fun _ => hpass.mp) fun _ => id
  have hall : ∀ place, Passes base way place → middle.get? place = some .directory :=
    fun place hplace => hmade rfl place (hpass.mpr hplace)
  refine ⟨hedits, hall, fun m => ?_, ?_, ?_, ?_⟩
  · rcases hedits.changed (root ++ m) with hsame | ⟨hplace, hfree, -⟩ | ⟨hfalse, -⟩
    · exact hsame
    · have hthere := h.aside root hlocate _ hplace (List.prefix_append root m)
      rw [hfree] at hthere
      cases hthere
    · exact hfalse.elim
  · exact ((h.heads.edits hedits).enters hall).landing (h.bare.edits hedits)
  · exact (FileSystem.enters_of_locate hlocate hdirectory).edits hedits
  · rw [List.append_nil]
    exact h.apart root hlocate

/-- No file is where a copy needs a directory, on the way or in the target, and no directory is, or
is needed, where it needs a file. -/
structure Unobstructed (fs : FileSystem) (root base : Place) (way : List String) : Prop where
  /-- No file is on the way. -/
  passed : ∀ place, Passes base way place → ∀ content, fs.get? place ≠ some (.file content)
  /-- What is copied fits what is in the target. -/
  fits : ∀ names, isExcluded names = false →
    Fits (fs.get? (root ++ names)) (fs.get? (way.foldl advance base ++ names))
  /-- No file is copied to a place on the way. -/
  off : ∀ names content, isExcluded names = false →
    fs.get? (root ++ names) = some (.file content) →
      ¬ Passes base way (way.foldl advance base ++ names)

/-- What a copy of a tree has made of a file system. -/
structure Mirrors (root base : Place) (way : List String) (fs after : FileSystem) : Prop where
  /-- Relative paths start where they did. -/
  workingDirectory : after.workingDirectory = fs.workingDirectory
  /-- The directories and the files of the source are in the target, but for what is left behind. -/
  copied : ∀ names, Copied fs root [] names →
    after.get? (way.foldl advance base ++ names) = fs.get? (root ++ names)
  /-- The directories on the way are there. -/
  made : ∀ place, Passes base way place → after.get? place = some .directory
  /-- Everything else is as it was. -/
  kept : ∀ place, ¬ Passes base way place →
    (∀ names, Copied fs root [] names → place ≠ way.foldl advance base ++ names) →
      after.get? place = fs.get? place

/-- What a root has, neither left behind nor a link, is copied. -/
theorem copied_of_get? {names : Place} {node : Node} (hkept : isExcluded names = false)
    (hnode : fs.get? (root ++ names) = some node) (hlink : ∀ target, node ≠ .link target) :
    Copied fs root [] names := ⟨hkept, node, by simpa using hnode, hlink⟩

/-- What an edit has mirrored was unobstructed. -/
theorem Mirrors.unobstructed_before {dirs files : Place → Prop} (h : Mirrors root base way fs after)
    (hedits : Edits dirs files fs after) : Unobstructed fs root base way := by
  refine ⟨fun place hplace content hfile => ?_, fun names hkept => ⟨fun hdue content hfile => ?_,
    fun content hdue hthere => ?_⟩, fun names content hkept hdue hplace => ?_⟩
  · obtain ⟨content', hafter⟩ := hedits.file hfile
    cases hafter.symm.trans (h.made place hplace)
  · obtain ⟨content', hafter⟩ := hedits.file hfile
    have hlaid := h.copied names (copied_of_get? hkept hdue nofun)
    rw [hafter, hdue] at hlaid
    cases hlaid
  · have hlaid := h.copied names (copied_of_get? hkept hdue nofun)
    rw [hedits.directory hthere, hdue] at hlaid
    cases hlaid
  · have hlaid := h.copied names (copied_of_get? hkept hdue nofun)
    rw [h.made _ hplace, hdue] at hlaid
    cases hlaid

/-- What is left to copy once the target is made is in the source, and below its root. -/
theorem entriesIn_spec (hroot : ∀ m, after.get? (root ++ m) = fs.get? (root ++ m)) :
    Listed after root (entriesIn fs root []) ∧
      ∀ entry ∈ entriesIn fs root [], [] ++ entry.1 ≠ [] := by
  refine ⟨fun entry he => by rw [hroot, listed_entriesIn fs root [] entry he], ?_⟩
  intro entry he
  obtain ⟨first, hplace, -⟩ := mem_entriesIn.mp he
  simp [hplace]

/-- A copy that succeeds mirrors the source in the target, and counts its files. -/
theorem Separate.mirrors_of_copyTree (h : Separate fs source target base way)
    (hlocate : fs.locate source = .ok root) (hdirectory : fs.get? root = some .directory)
    {count : Nat} (hcopy : copyTree fs source target = (.ok count, after)) :
    Mirrors root base way fs after ∧ (∀ m, after.get? (root ++ m) = fs.get? (root ++ m)) ∧
      (∃ dirs files, Edits dirs files fs after) ∧ count = (packed fs root).length := by
  rw [copyTree_eq_copyEntries hlocate hdirectory h.plain] at hcopy
  split at hcopy
  · cases hcopy
  next middle hmake =>
    obtain ⟨hfirst, hall, hroot, hcourse⟩ := h.course hlocate hdirectory hmake
    obtain ⟨hlisted, hdeep⟩ := entriesIn_spec hroot
    have hlays := hcourse.lays_entries hlisted hdeep hcopy
    have hcount := hcourse.count_entries hlisted hdeep hcopy
    have hsecond := hcourse.edits_copyEntries (fun entry he => ⟨FileSystem.isName_of_get?
      (by rw [hlisted entry he]; rfl), hdeep entry he, fun hnil => absurd hnil (hdeep entry he)⟩) hcopy
    rw [List.append_nil] at hlays hsecond
    have hgoal := FileSystem.passes_goal base way
    have hcopied : ∀ names, Copied fs root [] names →
        after.get? (way.foldl advance base ++ names) = fs.get? (root ++ names) := by
      intro names hnames
      by_cases hne : names = []
      · rw [hne, List.append_nil, List.append_nil, hdirectory]
        exact hsecond.directory (hall _ hgoal)
      · rw [(hlays names).1 ((makes_congr hroot).mpr ((makes_entriesIn hdirectory hne).mpr hnames)),
          hroot]
    have hmade : ∀ place, Passes base way place → after.get? place = some .directory :=
      fun place hplace => hsecond.directory (hall place hplace)
    have hboth : Edits (fun place => Passes base way place ∨ way.foldl advance base <+: place)
        (way.foldl advance base <+: ·) fs after :=
      (hfirst.mono (fun _ => Or.inl) fun _ => False.elim).trans
        (hsecond.mono (fun _ => Or.inr) fun _ => id)
    refine ⟨⟨hboth.workingDirectory, hcopied, hmade, fun place hnot hother => ?_⟩, fun m => ?_,
      ⟨_, _, hboth⟩, ?_⟩
    · rw [← hfirst.get?_eq hnot not_false]
      by_cases hinside : way.foldl advance base <+: place
      · obtain ⟨m, rfl⟩ := hinside
        have hnotCopied : ¬ Copied fs root [] m := fun hm => hother m hm rfl
        have hne : m ≠ [] := by
          rintro rfl
          have hself : fs.get? (root ++ []) = some .directory := by rwa [List.append_nil]
          exact hnotCopied (copied_of_get? rfl hself nofun)
        exact (hlays m).2 fun hmakes =>
          hnotCopied ((makes_entriesIn hdirectory hne).mp ((makes_congr hroot).mp hmakes))
      · exact hsecond.get?_eq hinside hinside
    · rw [← List.append_nil (way.foldl advance base)] at hsecond
      rw [hcourse.get?_root hsecond, hroot]
    · rw [hcount, Nat.zero_add, packed_of_directory hdirectory]
      simp only [packedFrom_congr hroot]

/-- The steps that a copy may take are enough for what its source lists. -/
theorem outstanding_entriesIn_le (hdirectory : fs.get? root = some .directory)
    (hplain : fs.isLink source = false) : outstanding fs root (entriesIn fs root []) ≤
      (fs.nodes.size + 2) * (fs.nodes.size + 2) - 1 := by
  have hself : fs.get? (root ++ []) = some .directory := by rwa [List.append_nil]
  have hless := outstanding_entriesIn_lt hself []
  have hwhole := outstanding_initialEntries_le source hdirectory
  rw [initialEntries, hplain] at hwhole
  rw [List.append_nil] at hless
  refine (hless.le.trans hwhole).trans (Nat.le_sub_one_of_lt ?_)
  nlinarith

/-- An unobstructed copy of a directory succeeds. -/
theorem Separate.copyTree_ok (h : Separate fs source target base way)
    (hlocate : fs.locate source = .ok root) (hdirectory : fs.get? root = some .directory)
    (hfree : Unobstructed fs root base way) :
    ∃ count after, copyTree fs source target = (.ok count, after) := by
  have hok : (fs.createDirectories (target.join (.ofNames []))).1 = .ok () := by
    obtain ⟨slashes, hslashes, hheads, hends⟩ := h.heads.join_nil
    have hsilent : ∀ segment ∈ slashes, segment = "" ∨ segment = "." :=
      fun segment hsegment => Or.inl (hslashes segment hsegment)
    refine hheads.createDirectories_ok (fun place hplace => ?_) fun hdot => ?_
    · exact hfree.passed place ((FileSystem.passes_append_silent hsilent).mp hplace)
    · rw [List.foldl_append, (FileSystem.passes_silent hsilent).mp (FileSystem.passes_goal _ slashes)]
      exact h.ends (hends hdot)
  rw [copyTree_eq_copyEntries hlocate hdirectory h.plain]
  rcases hmake : fs.createDirectories (target.join (.ofNames [])) with ⟨result, middle⟩
  rw [hmake] at hok
  obtain rfl : result = .ok () := hok
  obtain ⟨hfirst, hall, hroot, hcourse⟩ := h.course hlocate hdirectory hmake
  obtain ⟨hlisted, hdeep⟩ := entriesIn_spec hroot
  have hfits : ∀ m, Makes middle root (entriesIn fs root []) m →
      Fits (middle.get? (root ++ m)) (middle.get? (way.foldl advance base ++ [] ++ m)) := by
    intro m hm
    rw [hroot, List.append_nil]
    by_cases hne : m = []
    · rw [hne, List.append_nil, List.append_nil, hdirectory, hall _ (FileSystem.passes_goal base way)]
      exact Fits.refl _
    · have hcopied := (makes_entriesIn hdirectory hne).mp ((makes_congr hroot).mp hm)
      rcases hfirst.changed (way.foldl advance base ++ m) with hsame | ⟨hplace, -, hmade⟩ | ⟨hfalse, -⟩
      · rw [hsame]
        exact hfree.fits m hcopied.1
      · rw [hmade]
        exact ⟨fun _ content => nofun,
          fun content hdue => absurd hplace (hfree.off m content hcopied.1 hdue)⟩
      · exact hfalse.elim
  have hsteps : outstanding middle root (entriesIn fs root []) ≤
      (fs.nodes.size + 2) * (fs.nodes.size + 2) - 1 := by
    rw [outstanding_congr hroot]
    exact outstanding_entriesIn_le hdirectory h.plain
  obtain ⟨count, hcount⟩ : ∃ count, (copyEntries root source target _ middle
      (entriesIn fs root []) 0).1 = .ok count := hcourse.copyEntries_ok hlisted hdeep hfits hsteps
  exact ⟨count, _, Prod.ext hcount rfl⟩

/-- Source and target are as separate after a copy as before it. -/
theorem Separate.edits {dirs files : Place → Prop} (h : Separate fs source target base way)
    (hlocate : fs.locate source = .ok root) (hedits : Edits dirs files fs after)
    (hmade : ∀ place, Passes base way place → after.get? place = some .directory) :
    Separate after source target base way := by
  have hsame : ∀ other, after.locate source = .ok other → other = root := fun other hother =>
    Except.ok.inj (hother.symm.trans (hedits.locate_ok hlocate))
  refine ⟨h.heads.edits hedits, h.bare.edits hedits, hedits.isLink_eq_false hlocate h.plain,
    fun other hother => ?_, fun other hother place hplace _ => ?_, fun _ => ?_⟩
  · exact hsame other hother ▸ h.apart root hlocate
  · rw [hmade place hplace]
    rfl
  · exact hmade _ (FileSystem.passes_goal base way)

/-- What is mirrored mirrors itself. -/
theorem Mirrors.again (h : Mirrors root base way fs after)
    (hroot : ∀ m, after.get? (root ++ m) = fs.get? (root ++ m)) :
    Mirrors root base way after after := by
  refine ⟨rfl, fun names hnames => ?_, h.made, fun _ _ _ => rfl⟩
  simp only [Copied, List.append_nil, hroot] at hnames
  rw [hroot]
  exact h.copied names (by simpa only [Copied, List.append_nil] using hnames)

/-- There is one way to mirror a source. -/
theorem Mirrors.unique {other : FileSystem} (h : Mirrors root base way fs after)
    (hother : Mirrors root base way fs other) : other = after := by
  refine FileSystem.ext_get? (hother.workingDirectory.trans h.workingDirectory.symm) fun place => ?_
  by_cases hpass : Passes base way place
  · rw [hother.made place hpass, h.made place hpass]
  · by_cases haway : ∀ names, Copied fs root [] names → place ≠ way.foldl advance base ++ names
    · rw [hother.kept place hpass haway, h.kept place hpass haway]
    · simp only [not_forall, not_not] at haway
      obtain ⟨names, hnames, rfl⟩ := haway
      rw [hother.copied names hnames, h.copied names hnames]

/-- A copy to a place apart from its source succeeds exactly if the source is a directory and nothing
obstructs the copy. Then it mirrors the source in the target, byte for byte, counts the files of the
source that are not left behind, and changes nothing when it is made again. -/
theorem copyTree_mirrors (h : Separate fs source target base way) :
    ((∃ count after, copyTree fs source target = (.ok count, after)) ↔
      ∃ root, fs.locate source = .ok root ∧ fs.get? root = some .directory ∧
        Unobstructed fs root base way) ∧
    ∀ count after, copyTree fs source target = (.ok count, after) →
      ∃ root, fs.locate source = .ok root ∧ Mirrors root base way fs after ∧
        (∃ files : List Place, files.Nodup ∧ files.length = count ∧
          ∀ names, names ∈ files ↔ isExcluded names = false ∧
            ∃ content, fs.get? (root ++ names) = some (.file content)) ∧
        copyTree after source target = (.ok count, after) := by
  refine ⟨⟨?_, ?_⟩, fun count after hcopy => ?_⟩
  · rintro ⟨count, after, hcopy⟩
    obtain ⟨root, hlocate, hdirectory⟩ := exists_of_copyTree hcopy
    obtain ⟨hmirrors, -, ⟨dirs, files, hedits⟩, -⟩ := h.mirrors_of_copyTree hlocate hdirectory hcopy
    exact ⟨root, hlocate, hdirectory, hmirrors.unobstructed_before hedits⟩
  · rintro ⟨root, hlocate, hdirectory, hfree⟩
    exact h.copyTree_ok hlocate hdirectory hfree
  · obtain ⟨root, hlocate, hdirectory⟩ := exists_of_copyTree hcopy
    obtain ⟨hmirrors, hroot, ⟨dirs, files, hedits⟩, hcount⟩ :=
      h.mirrors_of_copyTree hlocate hdirectory hcopy
    refine ⟨root, hlocate, hmirrors, ⟨(packed fs root).map Prod.fst,
      Archive.nodup_map_fst_packed fs root, by rw [List.length_map, hcount], fun names => ?_⟩, ?_⟩
    · simp only [List.mem_map, Prod.exists, mem_packed, exists_and_right, exists_eq_right]
      exact and_comm
    · have hdirectory' : after.get? root = some .directory := hedits.directory hdirectory
      have hlocate' := hedits.locate_ok hlocate
      have h' := h.edits hlocate hedits hmirrors.made
      have hsame := hmirrors.again hroot
      have hnothing : Edits dirs files after after := Edits.refl after
      obtain ⟨count', again, hagain⟩ :=
        h'.copyTree_ok hlocate' hdirectory' (hsame.unobstructed_before hnothing)
      obtain ⟨hmirrors', -, -, hcount'⟩ := h'.mirrors_of_copyTree hlocate' hdirectory' hagain
      rw [hagain, hsame.unique hmirrors', hcount', Archive.packed_congr hroot, hcount]

end Separate

/-- Where the target is missing, a copy is unobstructed if no file is on a straight way to it. -/
theorem unobstructed_of_missing {fs : FileSystem} {root base : Place} {way : List String}
    (hroot : fs.get? root = some .directory) (hmissing : fs.get? (way.foldl advance base) = none)
    (hpassed : ∀ place, Passes base way place → place <+: way.foldl advance base ∧
      ∀ content, fs.get? place ≠ some (.file content)) : Unobstructed fs root base way := by
  refine ⟨fun place hplace => (hpassed place hplace).2, fun names _ => ?_,
    fun names content _ hfile hplace => ?_⟩
  · have hnone : fs.get? (way.foldl advance base ++ names) = none := by
      by_contra hsome
      by_cases hnil : names = []
      · exact hsome (by rw [hnil, List.append_nil, hmissing])
      · cases hmissing.symm.trans
          (FileSystem.get?_eq_directory (Option.isSome_iff_ne_none.mpr hsome) hnil)
    rw [hnone]
    exact Fits.of_none _
  · have hlength := (hpassed _ hplace).1.length_le
    rw [List.length_append] at hlength
    obtain rfl : names = [] := List.eq_nil_of_length_eq_zero (by omega)
    rw [List.append_nil] at hfile
    cases hroot.symm.trans hfile

/-- A directory with a file. -/
def single : FileSystem :=
  [(["src"], Node.directory), (["src", "a"], .file (.ofText "x"))].foldl
    (fun fs (place, node) => fs.put place node) .empty

/-- There are no links beside it. -/
theorem bare_single : single.Bare [] := FileSystem.bare_of_toList_nodes (by decide)

/-- A target in a directory that is missing is separate from it. -/
theorem separate_single : Separate single ⟨["src"]⟩ ⟨["new", "x"]⟩ [] ["new", "x"] := by
  have hlocate : single.locate ⟨["src"]⟩ = .ok ["src"] := rfl
  have hroot : ∀ root, single.locate ⟨["src"]⟩ = .ok root → root = ["src"] := fun root h =>
    Except.ok.inj (h.symm.trans hlocate)
  refine ⟨⟨⟨[], rfl, rfl⟩, rfl, fun place _ => bare_single place⟩,
    fun names => bare_single _, rfl, fun root h => ?_, fun root h place hplace hin => ?_,
    by decide⟩
  · rw [hroot root h]
    exact ⟨by decide, by decide⟩
  · have haway : ∀ place ∈ ["new", "x"].inits.map fun init => init.foldl advance [],
        ¬ ["src"] <+: place := by decide
    exact absurd (hroot root h ▸ hin) (haway place (FileSystem.passes_iff_mem.mp hplace))

/-- A copy to such a target is unobstructed. -/
theorem unobstructed_single {way : List String} (hmissing : single.get? (way.foldl advance []) = none)
    (hpassed : ∀ place ∈ way.inits.map fun init => init.foldl advance [],
      place <+: way.foldl advance [] ∧ (single.get? place = none ∨ single.get? place = some .directory)) :
    Unobstructed single ["src"] [] way := by
  refine unobstructed_of_missing rfl hmissing fun place hplace => ?_
  obtain ⟨hpre, hnode⟩ := hpassed place (FileSystem.passes_iff_mem.mp hplace)
  exact ⟨hpre, fun content hfile => by rcases hnode with hnode | hnode <;> cases hnode.symm.trans hfile⟩

/-- The file is copied there, and copied again to no effect. -/
theorem copyTree_mirrors_single :
    ∃ count after, copyTree single ⟨["src"]⟩ ⟨["new", "x"]⟩ = (.ok count, after) ∧
      after.get? ["new", "x", "a"] = some (.file (.ofText "x")) ∧
      copyTree after ⟨["src"]⟩ ⟨["new", "x"]⟩ = (.ok count, after) := by
  obtain ⟨hiff, hcopies⟩ := copyTree_mirrors separate_single
  obtain ⟨count, after, hcopy⟩ := hiff.mpr ⟨["src"], rfl, rfl,
    unobstructed_single rfl (by decide)⟩
  obtain ⟨root, hlocate, hmirrors, -, hagain⟩ := hcopies count after hcopy
  obtain rfl : root = ["src"] := Except.ok.inj (hlocate.symm.trans rfl)
  have hfile : single.get? (["src"] ++ ["a"]) = some (.file (.ofText "x")) := rfl
  refine ⟨count, after, hcopy, ?_, hagain⟩
  rw [← hfile]
  exact hmirrors.copied ["a"] (copied_of_get? (by decide) hfile nofun)

/-- A target that ends in a dot is not made where it is missing, though nothing obstructs the copy. -/
theorem not_copyTree_single_dot :
    single.Bare [] ∧ Apart ["src"] (["new", "."].foldl advance []) ∧
      ¬ ((∃ count after, copyTree single ⟨["src"]⟩ ⟨["new", "."]⟩ = (.ok count, after)) ↔
        single.get? ["src"] = some .directory ∧ Unobstructed single ["src"] [] ["new", "."]) := by
  refine ⟨bare_single, ⟨by decide, by decide⟩, fun hiff => ?_⟩
  obtain ⟨count, after, hcopy⟩ := hiff.mpr ⟨rfl,
    unobstructed_single rfl (by decide)⟩
  have hfails : (copyTree single ⟨["src"]⟩ ⟨["new", "."]⟩).1.isOk = false := rfl
  rw [hcopy] at hfails
  cases hfails

end Scaffold

end Siteworks
