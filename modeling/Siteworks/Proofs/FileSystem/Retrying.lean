import Mathlib
import Siteworks.Proofs.FileSystem.Directories

/-!
# Trying to make directories again

Directories that could not be made cannot be made at a second attempt, and the second attempt makes
none: what the first one made on the way is there, and what stopped it still does.
-/

namespace Siteworks

namespace Path

/-- What is left when segments are dropped from the end is in front. -/
theorem dropSilent_prefix (segments : List String) : dropSilent segments <+: segments := by
  cases segments with
  | nil => exact List.prefix_rfl
  | cons first rest =>
    have hrest : (rest.reverse.dropWhile fun s => s = "" || s = ".").reverse <+: rest := by
      rw [← List.reverse_suffix, List.reverse_reverse]
      exact List.dropWhile_suffix _
    rw [dropSilent]
    split
    · exact List.nil_prefix
    · exact List.cons_prefix_cons.mpr ⟨rfl, hrest⟩

/-- No empty segment is left alone. -/
theorem dropSilent_ne (segments : List String) : dropSilent segments ≠ [""] := by
  cases segments with
  | nil => simp [dropSilent]
  | cons first rest =>
    rw [dropSilent]
    split
    · simp
    next hkept =>
      intro heq
      obtain ⟨hfirst, hnil⟩ := List.cons.inj heq
      exact hkept (by simp only [hfirst, hnil, List.isEmpty_nil, decide_true, Bool.and_self])

/-- The parent of a path is the root, the empty path, or a front of what is left without the last
name. -/
theorem parent?_cases {path parent : Path} (h : path.parent? = some parent) :
    parent = ⟨["", ""]⟩ ∨ parent = ⟨[""]⟩ ∨
      (parent.segments ≠ [] ∧ parent.segments ≠ [""] ∧
        parent.segments <+: (dropSilent path.segments).dropLast ∧
        dropSilent path.segments ≠ []) := by
  unfold parent? at h
  split at h
  · cases h
  next hne =>
    simp only at h
    split at h
    · cases h
      exact Or.inl rfl
    · split at h
      · cases h
        exact Or.inr (Or.inl rfl)
      next hfront =>
        cases h
        refine Or.inr (Or.inr ⟨?_, dropSilent_ne _, dropSilent_prefix _, hne⟩)
        simpa using hfront

/-- A front of a path that is more than a slash starts where the path starts. -/
theorem isAbsolute_of_prefix {front path : Path} (hpre : front.segments <+: path.segments)
    (hne : front.segments ≠ []) (hslash : front.segments ≠ [""]) :
    front.isAbsolute = path.isAbsolute := by
  obtain ⟨segments⟩ := front
  obtain ⟨whole⟩ := path
  obtain ⟨rest, rfl⟩ := hpre
  rcases segments with _ | ⟨first, _ | ⟨second, others⟩⟩
  · exact absurd rfl hne
  · have hfirst : first ≠ "" := fun h => hslash (h ▸ rfl)
    simp [isAbsolute, hfirst]
  · by_cases hfirst : first = "" <;> simp [isAbsolute, hfirst]

/-- A path of more than a slash is not empty. -/
theorem isEmpty_eq_false {path : Path} (hne : path.segments ≠ []) (hslash : path.segments ≠ [""]) :
    path.isEmpty = false := by
  obtain ⟨segments⟩ := path
  rcases segments with _ | ⟨first, _ | ⟨second, others⟩⟩
  · exact absurd rfl hne
  · have hfirst : first ≠ "" := fun h => hslash (h ▸ rfl)
    simp [isEmpty, hfirst]
  · simp [isEmpty]

end Path

namespace FileSystem

variable {fs : FileSystem} {path parent : Path}

/-- The root is a directory. -/
theorem isDirectory_slash (fs : FileSystem) : fs.isDirectory ⟨["", ""]⟩ = true := by
  refine isDirectory_eq_true_iff.mpr ⟨[], locate_eq_ok_iff.mpr ⟨rfl, rfl⟩, fs.root⟩

/-- A path whose segments are in front of others that lead to a directory leads to one. -/
theorem isDirectory_of_front (hne : parent.segments ≠ []) (hslash : parent.segments ≠ [""])
    (hwhole : parent.segments <+: path.segments) {front : List String} {q : Place}
    (hfront : followLinks fs maxLinks (fs.start path) front = .found q)
    (hq : fs.get? q = some .directory) (hpre : parent.segments <+: front) :
    fs.isDirectory parent = true := by
  have hstart : fs.start parent = fs.start path := by
    rw [start, start, Path.isAbsolute_of_prefix hwhole hne hslash]
  obtain ⟨middle, hmiddle, hdirectory⟩ : ∃ middle,
      followLinks fs maxLinks (fs.start path) parent.segments = .found middle ∧
        fs.get? middle = some .directory := by
    obtain ⟨rest, rfl⟩ := hpre
    by_cases hrest : rest = []
    · rw [hrest, List.append_nil] at hfront
      exact ⟨q, hfront, hq⟩
    · exact followLinks_of_append (fs.get?_start path) hrest hfront
  exact isDirectory_eq_true_iff.mpr ⟨middle,
    locate_eq_ok_iff.mpr ⟨Path.isEmpty_eq_false hne hslash, hstart ▸ hmiddle⟩, hdirectory⟩

/-- A parent whose segments are in front of others that lead to a directory leads to one. -/
theorem isDirectory_of_prefix (hparent : path.parent? = some parent) {front : List String} {q : Place}
    (hfront : followLinks fs maxLinks (fs.start path) front = .found q)
    (hq : fs.get? q = some .directory) (hpre : (Path.dropSilent path.segments).dropLast <+: front) :
    parent.isEmpty = true ∨ fs.isDirectory parent = true := by
  rcases Path.parent?_cases hparent with rfl | rfl | ⟨hne, hslash, hparentPre, -⟩
  · exact Or.inr fs.isDirectory_slash
  · exact Or.inl rfl
  · have hwhole : parent.segments <+: path.segments :=
      hparentPre.trans ((List.dropLast_prefix _).trans (Path.dropSilent_prefix _))
    exact Or.inr (isDirectory_of_front hne hslash hwhole hfront hq (hparentPre.trans hpre))

/-- Where a path leads to a directory, its parent does, unless it is empty. -/
theorem isDirectory_parent (hparent : path.parent? = some parent) (h : fs.isDirectory path = true) :
    parent.isEmpty = true ∨ fs.isDirectory parent = true := by
  obtain ⟨place, hlocate, hdirectory⟩ := isDirectory_eq_true_iff.mp h
  exact isDirectory_of_prefix hparent (locate_eq_ok_iff.mp hlocate).2 hdirectory
    ((List.dropLast_prefix _).trans (Path.dropSilent_prefix _))

/-- Where a directory is made, the parent of its path leads to one, unless it is empty. -/
theorem isDirectory_parent_of_makeDirectory {after : FileSystem}
    (hparent : path.parent? = some parent) (h : fs.makeDirectory path = .ok after) :
    parent.isEmpty = true ∨ fs.isDirectory parent = true := by
  obtain ⟨place, name, slashes, hleads, -⟩ := makeDirectory_eq_ok h
  obtain ⟨front, hsegments, hfront⟩ := hleads.front
  rw [← List.append_assoc] at hsegments
  refine isDirectory_of_prefix hparent hfront hleads.directory ?_
  have hname := hleads.named name List.mem_cons_self
  rw [hsegments, Path.dropSilent_append hname.1 hname.2.1
    fun segment hs => Or.inl (hleads.silent segment hs), List.dropLast_concat]

/-- A directory that could not be made sure of leaves everything as it was. -/
theorem eq_of_ensureDirectory_error {fault : IoFault} {after : FileSystem}
    (h : fs.ensureDirectory path = (.error fault, after)) : after = fs := by
  unfold ensureDirectory at h
  split at h
  · cases h
  · exact (Prod.mk.inj h).2.symm

/-- Where the parent of a path cannot be made, the path cannot. -/
theorem createWithin_eq_error {steps : Nat} {fault : IoFault} (hparent : path.parent? = some parent)
    (hempty : path.isEmpty = false)
    (h : createWithin (steps + 1) fs parent = (.error fault, fs)) :
    ∃ fault', createWithin (steps + 2) fs path = (.error fault', fs) := by
  have hmissing : ¬ (parent.isEmpty = true ∨ fs.isDirectory parent = true) := fun hthere => by
    rw [createWithin_eq_self steps hthere] at h
    cases h
  rcases createWithin_succ (steps + 1) fs hempty with heq | ⟨parent', hparent', -, heq⟩
  · rw [heq, ensureDirectory]
    split
    next hmake => exact absurd (isDirectory_parent_of_makeDirectory hparent hmake) hmissing
    next fault' _ =>
      rw [if_neg fun hthere => hmissing (isDirectory_parent hparent hthere)]
      exact ⟨fault', rfl⟩
  · obtain rfl : parent = parent' := Option.some.inj (hparent.symm.trans hparent')
    rw [heq, h]
    exact ⟨fault, rfl⟩

/-- Directories that could not be made are not made at a second attempt. -/
theorem createWithin_again {steps : Nat} {fault : IoFault} {after : FileSystem}
    (h : createWithin steps fs path = (.error fault, after)) :
    ∃ fault', createWithin steps after path = (.error fault', after) := by
  induction steps generalizing fs path fault after with
  | zero => exact ⟨.nameTooLong, rfl⟩
  | succ steps ih =>
    have hempty : path.isEmpty = false := by
      by_contra hyes
      rw [createWithin_eq_self steps (Or.inl (by simpa using hyes))] at h
      cases h
    rcases createWithin_succ steps fs hempty with heq | ⟨parent, hparent, -, heq⟩
    · have hsame := heq.symm.trans h
      obtain rfl := eq_of_ensureDirectory_error hsame
      exact ⟨fault, h⟩
    · have hway := heq.symm.trans h
      split at hway
      next fault' middle hstep =>
        obtain rfl : middle = after := (Prod.mk.inj hway).2
        cases steps with
        | zero =>
          -- no step was left for the parent, so that nothing was tried
          obtain rfl : fs = middle := (Prod.mk.inj hstep).2
          exact ⟨fault, h⟩
        | succ steps =>
          obtain ⟨fault'', hagain⟩ := ih hstep
          exact createWithin_eq_error hparent hempty hagain
      next u middle hstep =>
        obtain rfl := eq_of_ensureDirectory_error hway
        refine ⟨fault, ?_⟩
        rcases createWithin_succ steps after hempty with heq' | ⟨parent', hparent', -, heq'⟩
        · exact heq'.trans hway
        · obtain rfl : parent = parent' := Option.some.inj (hparent.symm.trans hparent')
          cases steps with
          | zero => cases hstep
          | succ steps =>
            have hthere : parent.isEmpty = true ∨ after.isDirectory parent = true := by
              by_cases hslash : parent.isEmpty = true
              · exact Or.inl hslash
              · exact Or.inr (isDirectory_of_createWithin hstep (by simpa using hslash))
            rw [heq', createWithin_eq_self steps hthere]
            exact hway

/-- Directories that could not be made are not made at a second attempt. -/
theorem createDirectories_again {fault : IoFault} {after : FileSystem}
    (h : fs.createDirectories path = (.error fault, after)) :
    ∃ fault', after.createDirectories path = (.error fault', after) := createWithin_again h

end FileSystem

end Siteworks
