import Mathlib
import Siteworks.Proofs.FileSystem.Directories

/-!
# Directories on the way to a path

The directories that are made for a path are those that the path and its parents lead to: a directory
that is made for a path is the one at its end, or one that was made for its parent.
-/

namespace Siteworks

/-- The path is another one, or the parent of its parent, and so on. -/
def Path.IsAncestor (ancestor path : Path) : Prop :=
  Relation.ReflTransGen (fun path parent => path.parent? = some parent) path ancestor

namespace FileSystem

/-- A path or one of its parents leads to the place. -/
def OnPath (fs : FileSystem) (path : Path) (place : Place) : Prop :=
  ∃ ancestor, ancestor.IsAncestor path ∧ fs.locate ancestor = .ok place

variable {fs : FileSystem} {path : Path}

/-- What the parent of a path leads through, the path leads through. -/
theorem OnPath.of_parent {parent : Path} (hparent : path.parent? = some parent) {place : Place}
    (h : fs.OnPath parent place) : fs.OnPath path place := by
  obtain ⟨ancestor, habove, hlocate⟩ := h
  exact ⟨ancestor, Relation.ReflTransGen.head hparent habove, hlocate⟩

/-- What a path leads through stays on the path after an edit. -/
theorem OnPath.edits {dirs files : Place → Prop} {after : FileSystem}
    (hedits : Edits dirs files fs after) {place : Place} (h : fs.OnPath path place) :
    after.OnPath path place := by
  obtain ⟨ancestor, habove, hlocate⟩ := h
  exact ⟨ancestor, habove, hedits.locate_ok hlocate⟩

/-- No directory is made but the one that the path leads to. -/
theorem edits_ensureDirectory_onPath (fs : FileSystem) (path : Path) :
    Edits ((fs.ensureDirectory path).2.OnPath path) (fun _ => False) fs
      (fs.ensureDirectory path).2 := by
  unfold ensureDirectory
  split
  next hmake =>
    obtain ⟨parent, name, slashes, hleads, hfree, rfl⟩ := makeDirectory_eq_ok hmake
    have hedits : Edits (fun _ => True) (fun _ => False) fs (fs.put (parent ++ [name]) .directory) :=
      Edits.put_directory hfree trivial
    have hmade := hleads.get?_put_directory (List.cons_ne_nil _ _) (by simpa using hleads.directory)
      hfree
    exact Edits.put_directory hfree
      ⟨path, .refl, (hleads.edits hedits).locate_directory (List.cons_ne_nil _ _) hmade⟩
  next => exact Edits.refl fs

/-- No directory is made but those on the path. -/
theorem edits_createWithin_onPath (steps : Nat) (fs : FileSystem) (path : Path) :
    Edits ((createWithin steps fs path).2.OnPath path) (fun _ => False) fs
      (createWithin steps fs path).2 := by
  induction steps generalizing fs path with
  | zero => exact Edits.refl fs
  | succ steps ih =>
    cases hempty : path.isEmpty with
    | true =>
      rw [createWithin, if_pos hempty]
      exact Edits.refl fs
    | false =>
      rcases createWithin_succ steps fs hempty with heq | ⟨parent, hparent, -, heq⟩
      · rw [heq]
        exact edits_ensureDirectory_onPath fs path
      · have hway := ih fs parent
        rw [heq]
        split
        next hstep =>
          rw [hstep] at hway
          exact hway.mono (fun _ => OnPath.of_parent hparent) fun _ => id
        next middle hstep =>
          rw [hstep] at hway
          have hlast := edits_ensureDirectory_onPath middle path
          refine (hway.mono (fun place hplace => ?_) fun _ => id).trans hlast
          exact (hplace.of_parent hparent).edits hlast

/-- No directory is made but those on the path. -/
theorem edits_createDirectories_onPath (fs : FileSystem) (path : Path) :
    Edits ((fs.createDirectories path).2.OnPath path) (fun _ => False) fs
      (fs.createDirectories path).2 :=
  edits_createWithin_onPath _ fs path

end FileSystem

end Siteworks
