import Mathlib
import Siteworks.FileSystem.Operations

/-!
# Edits

What runs do to a file system: they make directories at free places and give files a content. They
take nothing away, and they neither make nor touch links. So a path that leads somewhere leads there
after any edit.
-/

namespace Siteworks.FileSystem

/-- What contains something is a directory. -/
theorem get?_eq_directory {fs : FileSystem} {place names : Place}
    (h : (fs.get? (place ++ names)).isSome) (hne : names ≠ []) :
    fs.get? place = some .directory := by
  induction names using List.reverseRecOn with
  | nil => exact absurd rfl hne
  | append_singleton front name ih =>
    rw [← List.append_assoc] at h
    have hfront := fs.closed _ _ h
    cases front with
    | nil => simpa [get?] using hfront
    | cons first rest => exact ih (by simp [get?, hfront]) nofun

/-- The names that lead to something are names. -/
theorem isName_of_get? {fs : FileSystem} {place names : Place}
    (h : (fs.get? (place ++ names)).isSome) : ∀ name ∈ names, IsName name := by
  induction names using List.reverseRecOn with
  | nil => nofun
  | append_singleton front name ih =>
    rw [← List.append_assoc] at h
    have hfront := fs.closed _ _ h
    intro other hother
    rcases List.mem_append.mp hother with hother | hother
    · exact ih (by simp [get?, hfront]) other hother
    · exact List.mem_singleton.mp hother ▸ fs.named _ _ h

/-- A segment stays where it is, leads up, or is a name. -/
theorem segment_cases (segment : String) :
    (segment = "" ∨ segment = ".") ∨ segment = ".." ∨ IsName segment := by
  by_cases hempty : segment = ""
  · exact Or.inl (Or.inl hempty)
  · by_cases hdot : segment = "."
    · exact Or.inl (Or.inr hdot)
    · by_cases hup : segment = ".."
      · exact Or.inr (Or.inl hup)
      · exact Or.inr (Or.inr ⟨hempty, hdot, hup⟩)

/-- Something with an ending of some length is a name. -/
theorem isName_append (stem : String) {ending : String} (h : 2 < ending.length) :
    IsName (stem ++ ending) := by
  have hlength : 2 < (stem ++ ending).length := by
    rw [String.length_append]
    omega
  refine ⟨?_, ?_, ?_⟩ <;>
  · intro heq
    rw [heq] at hlength
    exact absurd hlength (by decide)

/-- A segment that names nothing is passed over. -/
theorem follow_silent (fs : FileSystem) (place : Place) {segment : String}
    (h : segment = "" ∨ segment = ".") (rest : List String) :
    follow fs place (segment :: rest) = follow fs place rest := by
  rw [follow, if_pos h]

/-- Two dots lead up. -/
theorem follow_up (fs : FileSystem) (place : Place) (rest : List String) :
    follow fs place (".." :: rest) = follow fs place.dropLast rest := by
  rw [follow, if_neg (by decide), if_pos rfl]

/-- A name leads to what has it. -/
theorem follow_name (fs : FileSystem) (place : Place) {name : String} (h : IsName name)
    (rest : List String) :
    follow fs place (name :: rest) =
      match fs.get? (place ++ [name]) with
      | none =>
        if rest.all (· = "") then .free place name (!rest.isEmpty) else .blocked .notFound
      | some .directory => follow fs (place ++ [name]) rest
      | some (.file _) =>
        if rest.isEmpty then .found (place ++ [name]) else .blocked .notDirectory
      | some (.link target) => .linked place target rest := by
  have hnamed : ¬ (name = "" ∨ name = ".") := by simp [h.1, h.2.1]
  exact (if_neg hnamed).trans (if_neg h.2.2)

/-- A path leads to a place if it is not empty and its segments do. -/
theorem locate_eq_ok_iff {fs : FileSystem} {path : Path} {place : Place} :
    fs.locate path = .ok place ↔
      path.isEmpty = false ∧
        followLinks fs maxLinks (fs.start path) path.segments = .found place := by
  unfold locate reach
  cases path.isEmpty with
  | true => simp
  | false => cases followLinks fs maxLinks (fs.start path) path.segments <;> simp

/-- The second file system comes from the first by directories made at free places of one class and
contents given to files, new ones or old ones, at places of another. -/
structure Edits (dirs files : Place → Prop) (before after : FileSystem) : Prop where
  /-- Relative paths start where they did. -/
  workingDirectory : after.workingDirectory = before.workingDirectory
  /-- A place that has changed was free or had a file. -/
  changed : ∀ place, after.get? place = before.get? place ∨
    (dirs place ∧ before.get? place = none ∧ after.get? place = some .directory) ∨
    (files place ∧ (∀ node ∈ before.get? place, ∃ content, node = .file content) ∧
      ∃ content, after.get? place = some (.file content))

namespace Edits

variable {dirs files dirs' files' : Place → Prop} {before middle after : FileSystem}

/-- To do nothing is an edit. -/
theorem refl (fs : FileSystem) : Edits dirs files fs fs := ⟨rfl, fun _ => Or.inl rfl⟩

/-- An edit at some places is an edit at more places. -/
theorem mono (h : Edits dirs files before after) (hdirs : ∀ place, dirs place → dirs' place)
    (hfiles : ∀ place, files place → files' place) : Edits dirs' files' before after := by
  refine ⟨h.workingDirectory, fun place => ?_⟩
  rcases h.changed place with hsame | ⟨hd, hrest⟩ | ⟨hf, hrest⟩
  · exact Or.inl hsame
  · exact Or.inr (Or.inl ⟨hdirs place hd, hrest⟩)
  · exact Or.inr (Or.inr ⟨hfiles place hf, hrest⟩)

/-- One edit after another is an edit. -/
theorem trans (h : Edits dirs files before middle) (h' : Edits dirs files middle after) :
    Edits dirs files before after := by
  refine ⟨h'.workingDirectory.trans h.workingDirectory, fun place => ?_⟩
  rcases h'.changed place with hsame' | ⟨hd', hfree', hafter⟩ | ⟨hf', hwas', hafter⟩
  · rw [hsame']
    exact h.changed place
  · rcases h.changed place with hsame | ⟨-, -, hmiddle⟩ | ⟨-, -, content, hmiddle⟩
    · exact Or.inr (Or.inl ⟨hd', hsame ▸ hfree', hafter⟩)
    · exact absurd (hfree'.symm.trans hmiddle) nofun
    · exact absurd (hfree'.symm.trans hmiddle) nofun
  · rcases h.changed place with hsame | ⟨-, -, hmiddle⟩ | ⟨-, hwas, -⟩
    · exact Or.inr (Or.inr ⟨hf', hsame ▸ hwas', hafter⟩)
    · obtain ⟨content, hcontent⟩ := hwas' _ hmiddle
      exact absurd hcontent nofun
    · exact Or.inr (Or.inr ⟨hf', hwas, hafter⟩)

/-- To make a directory at a free place is an edit. -/
theorem put_directory {fs : FileSystem} {place : Place} (h : fs.get? place = none)
    (hdirs : dirs place) : Edits dirs files fs (fs.put place .directory) := by
  by_cases hadmits : fs.Admits place
  · refine ⟨fs.workingDirectory_put _ _, fun other => ?_⟩
    rw [get?_put hadmits]
    by_cases he : place = other
    · subst he
      exact Or.inr (Or.inl ⟨hdirs, h, if_pos rfl⟩)
    · exact Or.inl (if_neg he)
  · rw [put, dif_neg hadmits]
    exact refl fs

/-- To give a place a file is an edit, unless there is a link. -/
theorem put_file {fs : FileSystem} {place : Place} (content : Content)
    (h : ∀ target, fs.get? place ≠ some (.link target)) (hfiles : files place) :
    Edits dirs files fs (fs.put place (.file content)) := by
  by_cases hadmits : fs.Admits place
  · refine ⟨fs.workingDirectory_put _ _, fun other => ?_⟩
    rw [get?_put hadmits]
    by_cases he : place = other
    · subst he
      refine Or.inr (Or.inr ⟨hfiles, fun node hnode => ?_, content, if_pos rfl⟩)
      cases node with
      | directory => exact absurd hnode hadmits.2.2
      | file old => exact ⟨old, rfl⟩
      | link target => exact absurd hnode (h target)
    · exact Or.inl (if_neg he)
  · rw [put, dif_neg hadmits]
    exact refl fs

/-- Nothing changes at a place that is not edited. -/
theorem get?_eq (h : Edits dirs files before after) {place : Place} (hdirs : ¬ dirs place)
    (hfiles : ¬ files place) : after.get? place = before.get? place := by
  rcases h.changed place with hsame | ⟨hd, -⟩ | ⟨hf, -⟩
  · exact hsame
  · exact absurd hd hdirs
  · exact absurd hf hfiles

/-- Directories stay. -/
theorem directory (h : Edits dirs files before after) {place : Place}
    (hbefore : before.get? place = some .directory) : after.get? place = some .directory := by
  rcases h.changed place with hsame | ⟨-, hfree, -⟩ | ⟨-, hwas, -⟩
  · exact hsame.trans hbefore
  · exact absurd (hfree.symm.trans hbefore) nofun
  · obtain ⟨content, hcontent⟩ := hwas _ hbefore
    exact absurd hcontent nofun

/-- Files stay files. -/
theorem file (h : Edits dirs files before after) {place : Place} {content : Content}
    (hbefore : before.get? place = some (.file content)) :
    ∃ content', after.get? place = some (.file content') := by
  rcases h.changed place with hsame | ⟨-, hfree, -⟩ | ⟨-, -, hafter⟩
  · exact ⟨content, hsame.trans hbefore⟩
  · exact absurd (hfree.symm.trans hbefore) nofun
  · exact hafter

/-- Links stay, and no new ones appear. -/
theorem link_iff (h : Edits dirs files before after) {place : Place} {target : Path} :
    after.get? place = some (.link target) ↔ before.get? place = some (.link target) := by
  rcases h.changed place with hsame | ⟨-, hfree, hafter⟩ | ⟨-, hwas, content, hafter⟩
  · rw [hsame]
  · rw [hfree, hafter]
    exact ⟨nofun, nofun⟩
  · rw [hafter]
    refine ⟨nofun, fun hbefore => ?_⟩
    obtain ⟨old, hold⟩ := hwas _ hbefore
    exact absurd hold nofun

/-- What is there is not taken away. -/
theorem isSome (h : Edits dirs files before after) {place : Place}
    (hbefore : (before.get? place).isSome) : (after.get? place).isSome := by
  rcases h.changed place with hsame | ⟨-, hfree, -⟩ | ⟨-, -, content, hafter⟩
  · rwa [hsame]
  · rw [hfree] at hbefore
    cases hbefore
  · rw [hafter]
    rfl

/-- Segments that end at something, or at a link, end there after an edit. -/
theorem follow_eq (h : Edits dirs files before after) {place : Place} {segments : List String}
    {reach : Reach} (hfollow : follow before place segments = reach)
    (hreach : (∃ q, reach = .found q) ∨ ∃ parent target rest, reach = .linked parent target rest) :
    follow after place segments = reach := by
  induction segments generalizing place with
  | nil => exact hfollow
  | cons segment rest ih =>
    rcases segment_cases segment with hsilent | rfl | hname
    · rw [follow_silent _ _ hsilent] at hfollow ⊢
      exact ih hfollow
    · rw [follow_up] at hfollow ⊢
      exact ih hfollow
    · rw [follow_name _ _ hname] at hfollow ⊢
      cases hnode : before.get? (place ++ [segment]) with
      | none =>
        rw [hnode] at hfollow
        simp only at hfollow
        split at hfollow <;>
        · subst hfollow
          simp at hreach
      | some node =>
        rw [hnode] at hfollow
        cases node with
        | directory =>
          rw [h.directory hnode]
          exact ih hfollow
        | file content =>
          obtain ⟨content', hafter⟩ := h.file hnode
          rw [hafter]
          exact hfollow
        | link target =>
          rw [h.link_iff.mpr hnode]
          exact hfollow

/-- A way that ends at something ends there after an edit. -/
theorem followLinks_found (h : Edits dirs files before after) {links : Nat} {place q : Place}
    {segments : List String} (hfollow : followLinks before links place segments = .found q) :
    followLinks after links place segments = .found q := by
  induction links generalizing place segments with
  | zero =>
    unfold followLinks at hfollow ⊢
    split at hfollow
    · cases hfollow
    next hne => rw [h.follow_eq hfollow (Or.inl ⟨q, rfl⟩)]
  | succ links ih =>
    unfold followLinks at hfollow ⊢
    split at hfollow
    next parent target rest hlinked =>
      rw [h.follow_eq hlinked (Or.inr ⟨parent, target, rest, rfl⟩)]
      exact ih hfollow
    next hne => rw [h.follow_eq hfollow (Or.inl ⟨q, rfl⟩)]

/-- A path that leads to something leads there after an edit. -/
theorem locate_ok (h : Edits dirs files before after) {path : Path} {place : Place}
    (hlocate : before.locate path = .ok place) : after.locate path = .ok place := by
  obtain ⟨hne, hfound⟩ := locate_eq_ok_iff.mp hlocate
  have hstart : after.start path = before.start path := by
    unfold start
    rw [h.workingDirectory]
  exact locate_eq_ok_iff.mpr ⟨hne, hstart ▸ h.followLinks_found hfound⟩

/-- A path to a directory leads to one after an edit. -/
theorem isDirectory (h : Edits dirs files before after) {path : Path}
    (hbefore : before.isDirectory path = true) : after.isDirectory path = true := by
  unfold FileSystem.isDirectory nodeAt? at hbefore ⊢
  cases hlocate : before.locate path with
  | error fault => simp [hlocate] at hbefore
  | ok place =>
    rw [hlocate] at hbefore
    rw [h.locate_ok hlocate]
    simpa using h.directory (by simpa using hbefore)

end Edits

end Siteworks.FileSystem
