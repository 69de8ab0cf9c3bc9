import Mathlib
import Siteworks.Proofs.FileSystem.Following

/-!
# Where paths lead without links

In a file system without links a path can lead to one place only, which its text tells.
-/

namespace Siteworks.FileSystem

/-- Where a segment leads from a place if it leads anywhere. -/
def advance (place : Place) (segment : String) : Place :=
  if segment = "" ∨ segment = "." then place
  else if segment = ".." then place.dropLast
  else place ++ [segment]

/-- Where a path leads by its text alone. -/
def goal (fs : FileSystem) (path : Path) : Place := path.segments.foldl advance (fs.start path)

/-- Names lead on by themselves. -/
theorem foldl_advance_names {names : List String} (h : ∀ name ∈ names, IsName name)
    (place : Place) : names.foldl advance place = place ++ names := by
  induction names generalizing place with
  | nil => simp
  | cons name rest ih =>
    have hname : IsName name := h name List.mem_cons_self
    have hstep : advance place name = place ++ [name] := by
      simp [advance, hname.1, hname.2.1, hname.2.2]
    rw [List.foldl_cons, hstep, ih fun other ho => h other (List.mem_cons_of_mem _ ho)]
    simp

/-- A slash at the end of a path leads nowhere else. -/
theorem foldl_advance_stem (path : Path) (place : Place) :
    path.stem.foldl advance place = path.segments.foldl advance place := by
  rw [Path.stem]
  split
  next hlast =>
    obtain ⟨front, hfront⟩ := List.getLast?_eq_some_iff.mp hlast
    rw [hfront, List.dropLast_concat, List.foldl_concat]
    rfl
  · rfl

/-- A path continued by names leads on by them. -/
theorem goal_join (fs : FileSystem) (path : Path) {names : List String} (hne : names ≠ [])
    (hnames : ∀ name ∈ names, IsName name) : fs.goal (path.join ⟨names⟩) = fs.goal path ++ names := by
  have habsolute := Path.isAbsolute_of_isName hnames
  rw [goal, Path.segments_join _ habsolute, fs.start_join path habsolute hne, List.foldl_append,
    foldl_advance_stem]
  exact foldl_advance_names hnames _

/-- An edit moves no goal. -/
theorem Edits.goal_eq {dirs files : Place → Prop} {before after : FileSystem}
    (h : Edits dirs files before after) (path : Path) : after.goal path = before.goal path := by
  rw [goal, goal, h.start_eq]

/-- What is followed without a link leads by its text. -/
theorem eq_foldl_of_follow {fs : FileSystem} {place q : Place} {segments : List String}
    (h : follow fs place segments = .found q) : q = segments.foldl advance place := by
  induction segments generalizing place with
  | nil =>
    cases h
    rfl
  | cons segment rest ih =>
    rw [List.foldl_cons]
    rcases segment_cases segment with hsilent | rfl | hname
    · rw [follow_silent _ _ hsilent] at h
      rw [advance, if_pos hsilent]
      exact ih h
    · rw [follow_up] at h
      exact ih h
    · rw [follow_name _ _ hname] at h
      have hstep : advance place segment = place ++ [segment] := by
        simp [advance, hname.1, hname.2.1, hname.2.2]
      rw [hstep]
      cases hnode : fs.get? (place ++ [segment]) with
      | none =>
        simp only [hnode] at h
        split at h <;> cases h
      | some node =>
        rw [hnode] at h
        cases node with
        | directory => exact ih h
        | file content =>
          simp only at h
          split at h
          next hrest =>
            cases h
            rw [List.isEmpty_iff.mp hrest]
            rfl
          · cases h
        | link target => cases h

/-- Where no links are none is met. -/
theorem Bare.follow_ne_linked {fs : FileSystem} (h : fs.Bare []) {place parent : Place}
    {target : Path} {segments rest : List String} :
    follow fs place segments ≠ .linked parent target rest := by
  induction segments generalizing place with
  | nil => exact nofun
  | cons segment segments ih =>
    rcases segment_cases segment with hsilent | rfl | hname
    · rw [follow_silent _ _ hsilent]
      exact ih
    · rw [follow_up]
      exact ih
    · rw [follow_name _ _ hname]
      cases hnode : fs.get? (place ++ [segment]) with
      | none =>
        simp only
        split <;> exact nofun
      | some node =>
        cases node with
        | directory => exact ih
        | file content =>
          simp only
          split <;> exact nofun
        | link target => exact absurd hnode (h _ target)

/-- Where no links are, what is found is found by its text. -/
theorem Bare.eq_foldl_of_followLinks {fs : FileSystem} (h : fs.Bare []) {links : Nat}
    {place q : Place} {segments : List String}
    (hfound : followLinks fs links place segments = .found q) :
    q = segments.foldl advance place := by
  cases links <;>
  · unfold followLinks at hfound
    split at hfound
    next hlinked => exact absurd hlinked h.follow_ne_linked
    · exact eq_foldl_of_follow hfound

/-- Where no links are, a path leads to its goal or nowhere. -/
theorem Bare.eq_goal_of_locate {fs : FileSystem} (h : fs.Bare []) {path : Path} {place : Place}
    (hlocate : fs.locate path = .ok place) : place = fs.goal path :=
  h.eq_foldl_of_followLinks (locate_eq_ok_iff.mp hlocate).2

/-- Where no links are, a path is continued from its goal. -/
theorem Bare.eq_goal_of_enters {fs : FileSystem} (h : fs.Bare []) {path : Path} {base : Place}
    (henters : fs.Enters path base) : base = fs.goal path := by
  rw [h.eq_foldl_of_followLinks henters.stem, foldl_advance_stem]
  rfl

end Siteworks.FileSystem
