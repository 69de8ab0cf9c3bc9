import Mathlib
import Siteworks.Proofs.FileSystem.Contents

/-!
# Reading back what was written

A write that succeeds stores the content where a read by the same path finds it, also through
symbolic links, and where the file is made under a name that was free.
-/

namespace Siteworks.FileSystem

/-- What is known of where a way ends: it ends at a directory or a file, at a name that is free in a
directory, or at a link in a directory. -/
def Reach.Sound (fs : FileSystem) : Reach → Prop
  | .found place =>
    fs.get? place = some .directory ∨ ∃ content, fs.get? place = some (.file content)
  | .free parent name _ =>
    IsName name ∧ fs.get? parent = some .directory ∧ fs.get? (parent ++ [name]) = none
  | .blocked _ => True
  | .linked parent _ _ => fs.get? parent = some .directory

/-- Segments lead from a directory to such an end. -/
theorem sound_follow {fs : FileSystem} {place : Place} (hplace : fs.get? place = some .directory)
    (segments : List String) : (follow fs place segments).Sound fs := by
  induction segments generalizing place with
  | nil => exact Or.inl hplace
  | cons segment rest ih =>
    rcases segment_cases segment with hsilent | rfl | hname
    · rw [follow_silent _ _ hsilent]
      exact ih hplace
    · rw [follow_up]
      exact ih (get?_dropLast hplace)
    · rw [follow_name _ _ hname]
      cases hnode : fs.get? (place ++ [segment]) with
      | none =>
        simp only
        split
        · exact ⟨hname, hplace, hnode⟩
        · trivial
      | some node =>
        cases node with
        | directory => exact ih hnode
        | file content =>
          simp only
          split
          · exact Or.inr ⟨content, hnode⟩
          · trivial
        | link target => exact hplace

/-- A way through links leads from a directory to such an end. -/
theorem sound_followLinks {fs : FileSystem} {place : Place}
    (hplace : fs.get? place = some .directory) (links : Nat) (segments : List String) :
    (followLinks fs links place segments).Sound fs := by
  induction links generalizing place segments with
  | zero =>
    unfold followLinks
    split
    · trivial
    · exact sound_follow hplace segments
  | succ links ih =>
    unfold followLinks
    split
    next parent target rest hlinked =>
      have hparent : fs.get? parent = some .directory := by
        have hsound := sound_follow hplace segments
        rwa [hlinked] at hsound
      refine ih ?_ _
      split
      · exact fs.root
      · exact hparent
    · exact sound_follow hplace segments

/-- A path leads to such an end. -/
theorem sound_reach (fs : FileSystem) (path : Path) : (fs.reach path).Sound fs := by
  rw [reach]
  split
  · trivial
  · exact sound_followLinks (fs.get?_start path) _ _

namespace Edits

variable {dirs files : Place → Prop} {before after : FileSystem} {parent place : Place}
  {name : String} {content : Content} {segments : List String}

/-- Segments to a free name lead to the file that is made there. -/
theorem follow_free (h : Edits dirs files before after)
    (hfile : after.get? (parent ++ [name]) = some (.file content))
    (hfollow : follow before place segments = .free parent name false) :
    follow after place segments = .found (parent ++ [name]) := by
  induction segments generalizing place with
  | nil => cases hfollow
  | cons segment rest ih =>
    rcases segment_cases segment with hsilent | rfl | hname
    · rw [follow_silent _ _ hsilent] at hfollow ⊢
      exact ih hfollow
    · rw [follow_up] at hfollow ⊢
      exact ih hfollow
    · rw [follow_name _ _ hname] at hfollow ⊢
      cases hnode : before.get? (place ++ [segment]) with
      | none =>
        rw [hnode] at hfollow
        simp only at hfollow
        split at hfollow
        · obtain ⟨rfl, rfl, hslashed⟩ := Reach.free.inj hfollow
          rw [hfile]
          simpa using hslashed
        · cases hfollow
      | some node =>
        rw [hnode] at hfollow
        cases node with
        | directory =>
          rw [h.directory hnode]
          exact ih hfollow
        | file old =>
          simp only at hfollow
          split at hfollow <;> cases hfollow
        | link target => cases hfollow

/-- A way through links to a free name leads to the file that is made there. -/
theorem followLinks_free (h : Edits dirs files before after)
    (hfile : after.get? (parent ++ [name]) = some (.file content)) {links : Nat}
    (hfollow : followLinks before links place segments = .free parent name false) :
    followLinks after links place segments = .found (parent ++ [name]) := by
  induction links generalizing place segments with
  | zero =>
    unfold followLinks at hfollow ⊢
    split at hfollow
    · cases hfollow
    · rw [h.follow_free hfile hfollow]
  | succ links ih =>
    unfold followLinks at hfollow ⊢
    split at hfollow
    next linked target rest hlinked =>
      rw [h.follow_eq hlinked (Or.inr ⟨linked, target, rest, rfl⟩)]
      exact ih hfollow
    · rw [h.follow_free hfile hfollow]

/-- A path to a free name leads to the file that is made there. -/
theorem locate_free (h : Edits dirs files before after)
    (hfile : after.get? (parent ++ [name]) = some (.file content)) {path : Path}
    (hreach : before.reach path = .free parent name false) :
    after.locate path = .ok (parent ++ [name]) := by
  unfold reach at hreach
  split at hreach
  · cases hreach
  next hfilled =>
    rw [locate_eq_ok_iff, h.start_eq]
    exact ⟨by simpa using hfilled, h.followLinks_free hfile hreach⟩

end Edits

/-- What a write that succeeds makes of a file system: the path leads to the content, in a file that
is new or was there, and nothing has changed anywhere else. -/
structure Stores (fs : FileSystem) (path : Path) (content : Content) (place : Place)
    (after : FileSystem) : Prop where
  /-- The path leads to the place. -/
  locate : after.locate path = .ok place
  /-- The content is there. -/
  stored : after.get? place = some (.file content)
  /-- The place was free or had a file. -/
  was : ∀ node ∈ fs.get? place, ∃ old, node = .file old
  /-- All other places are as they were. -/
  get?_eq : ∀ other, other ≠ place → after.get? other = fs.get? other
  /-- Relative paths start where they did. -/
  workingDirectory : after.workingDirectory = fs.workingDirectory

namespace Stores

variable {fs after : FileSystem} {path : Path} {content : Content} {base place : Place}
  {names : List String}

/-- To store a content is an edit at its place. -/
theorem edits (h : fs.Stores path content place after) :
    Edits (fun _ => False) (· = place) fs after := by
  refine ⟨h.workingDirectory, fun other => ?_⟩
  by_cases hother : other = place
  · subst hother
    exact Or.inr (Or.inr ⟨rfl, h.was, content, h.stored⟩)
  · exact Or.inl (h.get?_eq other hother)

/-- Where no links are, the content is where the names lead. -/
theorem place_eq (h : fs.Stores path content place after) (hleads : fs.Leads path base names [])
    (hne : names ≠ []) (hbare : fs.Bare base) : place = base ++ names :=
  (hleads.edits h.edits).eq_of_locate hne (hbare.edits h.edits) h.locate

end Stores

/-- A write that succeeds stores the content. -/
theorem exists_stores_of_write {fs after : FileSystem} {path : Path} {content : Content}
    (h : fs.write path content = .ok after) : ∃ place, fs.Stores path content place after := by
  have hputs : ∀ {place : Place}, fs.Admits place →
      (∀ node ∈ fs.get? place, ∃ old, node = .file old) →
      (fs.put place (.file content)).locate path = .ok place →
        fs.Stores path content place (fs.put place (.file content)) := by
    intro place hadmits hwas hlocate
    refine ⟨hlocate, get?_put_self hadmits _, hwas, fun other hother => ?_,
      fs.workingDirectory_put _ _⟩
    rw [get?_put hadmits, if_neg (Ne.symm hother)]
  have hsound := fs.sound_reach path
  unfold write at h
  split at h
  next place hreach =>
    rw [hreach] at hsound
    split at h
    · cases h
    next hdirectory =>
      cases h
      obtain ⟨old, hold⟩ := hsound.resolve_left hdirectory
      have hedits : Edits (fun _ => False) (· = place) fs (fs.put place (.file content)) :=
        Edits.put_file content (by simp [hold]) rfl
      have hlocate : fs.locate path = .ok place := by rw [locate, hreach]
      exact ⟨place, hputs (admits_of_file hold) (by simp [hold]) (hedits.locate_ok hlocate)⟩
  next parent name slashed hreach =>
    rw [hreach] at hsound
    obtain ⟨hname, hparent, hfree⟩ := hsound
    split at h
    · cases h
    next hslashed =>
      cases h
      obtain rfl : slashed = false := by simpa using hslashed
      have hadmits : fs.Admits (parent ++ [name]) :=
        ⟨⟨name, by simp, hname⟩, by simpa using hparent, by simp [hfree]⟩
      have hedits : Edits (fun _ => False) (· = parent ++ [name]) fs
          (fs.put (parent ++ [name]) (.file content)) :=
        Edits.put_file content (by simp [hfree]) rfl
      exact ⟨parent ++ [name], hputs hadmits (by simp [hfree])
        (hedits.locate_free (get?_put_self hadmits _) hreach)⟩
  · cases h
  · cases h

/-- A file that was written is read back. -/
theorem read_of_write {fs after : FileSystem} {path : Path} {content : Content}
    (h : fs.write path content = .ok after) : after.read path = .ok content := by
  obtain ⟨place, hstores⟩ := exists_stores_of_write h
  simp [read, hstores.locate, hstores.stored]

end Siteworks.FileSystem
