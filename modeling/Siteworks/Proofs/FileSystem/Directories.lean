import Mathlib
import Siteworks.Proofs.FileSystem.Contents
import Siteworks.Proofs.Texts

/-!
# Making directories

A path whose directories were made leads to a directory. Nothing but directories at free places is
made for it, below a base without links only those that the names lead through, and none at all for
a path that leads to a directory already.
-/

namespace Siteworks

open Text (reverse_dropWhile_reverse)

namespace Path

/-- Nothing is dropped from a path but what is silent behind its last segment that is not. -/
theorem dropSilent_append {front silents : List String} {last : String} (hempty : last ≠ "")
    (hdot : last ≠ ".") (hsilents : ∀ segment ∈ silents, segment = "" ∨ segment = ".") :
    dropSilent (front ++ [last] ++ silents) = front ++ [last] := by
  have hkeep : (fun s : String => decide (s = "") || decide (s = ".")) last = false := by
    simp [hempty, hdot]
  have hdrop : ∀ s ∈ silents, (fun s : String => decide (s = "") || decide (s = ".")) s = true :=
    fun s hs => by simpa using hsilents s hs
  cases front with
  | nil =>
    have hnil : (silents.reverse.dropWhile
        fun s => decide (s = "") || decide (s = ".")).reverse = [] := by
      simpa using hdrop
    simp [dropSilent, hnil, hempty]
  | cons first rest =>
    have hrest : ((rest ++ [last] ++ silents).reverse.dropWhile
        fun s => decide (s = "") || decide (s = ".")).reverse = rest ++ [last] :=
      reverse_dropWhile_reverse (by simpa using hkeep) hdrop
    simp only [List.cons_append, dropSilent, hrest]
    simp

/-- Whether a path is absolute is decided before its first name ends. -/
theorem isAbsolute_append {front rest : List String} {name : String} (hname : IsName name) :
    (Path.mk (front ++ [name] ++ rest)).isAbsolute = (Path.mk (front ++ [name])).isAbsolute := by
  rcases front with _ | ⟨first, _ | ⟨second, others⟩⟩
  · simp [isAbsolute, hname.1]
  · by_cases hfirst : first = "" <;> simp [isAbsolute, hfirst]
  · by_cases hfirst : first = "" <;> simp [isAbsolute, hfirst]

/-- The parent of a path leads to where its segments lead in front of the last one that is not
silent, or it is the root or empty if these are all silent. -/
theorem exists_parent {path : Path} {front silents : List String} {last : String}
    (hsegments : path.segments = front ++ [last] ++ silents) (hempty : last ≠ "")
    (hdot : last ≠ ".") (hsilents : ∀ segment ∈ silents, segment = "" ∨ segment = ".") :
    ∃ parent, path.parent? = some parent ∧
      (dropSilent front = [] ∧ (parent = ⟨["", ""]⟩ ∨ parent = ⟨[""]⟩) ∨
        dropSilent front ≠ [] ∧ parent = ⟨dropSilent front⟩) := by
  have hpath : dropSilent path.segments = front ++ [last] := by
    rw [hsegments]
    exact dropSilent_append hempty hdot hsilents
  unfold parent?
  rw [hpath]
  split
  next hnil => simp at hnil
  next =>
    rw [List.dropLast_concat]
    by_cases hfront : dropSilent front = []
    · cases habsolute : path.isAbsolute <;> simp [hfront]
    · simp [hfront]

/-- The parent of names behind a front has the same front. -/
theorem parent?_append {path : Path} {front slashes : List String} {last name : String}
    (hsegments : path.segments = front ++ [last] ++ [name] ++ slashes) (hlast : IsName last)
    (hname : IsName name) (hslashes : ∀ segment ∈ slashes, segment = "") :
    path.parent? = some ⟨front ++ [last]⟩ := by
  have hfront : dropSilent (front ++ [last] ++ []) = front ++ [last] :=
    dropSilent_append hlast.1 hlast.2.1 (by simp)
  rw [List.append_nil] at hfront
  obtain ⟨parent, hparent, hcases⟩ :=
    exists_parent hsegments hname.1 hname.2.1 fun segment hs => Or.inl (hslashes segment hs)
  rw [hfront] at hcases
  rcases hcases with ⟨hnone, -⟩ | ⟨-, rfl⟩
  · simp at hnone
  · exact hparent

end Path

namespace FileSystem

/-- Slashes lead nowhere. -/
theorem follow_slashes (fs : FileSystem) (place : Place) {slashes : List String}
    (h : ∀ segment ∈ slashes, segment = "") : follow fs place slashes = .found place := by
  induction slashes with
  | nil => rfl
  | cons segment rest ih =>
    rw [follow_silent _ _ (Or.inl (h segment List.mem_cons_self))]
    exact ih fun other hother => h other (List.mem_cons_of_mem _ hother)

/-- The way to something leads through directories. -/
theorem followLinks_of_append {fs : FileSystem} {links : Nat} {place q : Place}
    (hplace : fs.get? place = some .directory) {front rest : List String} (hne : rest ≠ [])
    (h : followLinks fs links place (front ++ rest) = .found q) :
    ∃ middle, followLinks fs links place front = .found middle ∧
      fs.get? middle = some .directory := by
  induction rest using List.reverseRecOn generalizing q with
  | nil => exact absurd rfl hne
  | append_singleton rest segment ih =>
    rw [← List.append_assoc] at h
    obtain ⟨middle, hmiddle, hdirectory⟩ := followLinks_concat hplace h
    cases rest with
    | nil => exact ⟨middle, by simpa using hmiddle, hdirectory⟩
    | cons first others => exact ih (List.cons_ne_nil _ _) hmiddle

/-- A path is slashes only, or has a last segment with slashes behind it. -/
theorem segments_cases (path : Path) :
    (∀ segment ∈ path.segments, segment = "") ∨
      ∃ front name slashes, path.segments = front ++ [name] ++ slashes ∧ name ≠ "" ∧
        ∀ segment ∈ slashes, segment = "" := by
  obtain ⟨segments⟩ := path
  induction segments using List.reverseRecOn with
  | nil => exact Or.inl nofun
  | append_singleton segments last ih =>
    by_cases hlast : last = ""
    · subst hlast
      rcases ih with hall | ⟨front, name, slashes, hsegments, hname, hslashes⟩
      · left
        simpa [or_imp, forall_and] using hall
      · refine Or.inr ⟨front, name, slashes ++ [""], ?_, hname, ?_⟩
        · simp only at hsegments ⊢
          rw [hsegments, List.append_assoc]
        · simpa [or_imp, forall_and] using hslashes
    · exact Or.inr ⟨segments, last, [], by simp, hlast, nofun⟩

/-- How a directory is made for a path with a last segment. -/
theorem makeDirectory_eq {fs : FileSystem} {path : Path} {front slashes : List String}
    {name : String} (hsegments : path.segments = front ++ [name] ++ slashes) (hname : name ≠ "")
    (hslashes : ∀ segment ∈ slashes, segment = "") :
    fs.makeDirectory path = match fs.directoryOf path front with
      | .error fault => .error fault
      | .ok parent =>
        if name = "." ∨ name = ".." then .error .alreadyExists
        else if (fs.get? (parent ++ [name])).isSome then .error .alreadyExists
        else .ok (fs.put (parent ++ [name]) .directory) := by
  have hstripped : (path.segments.reverse.dropWhile (· = "")).reverse = front ++ [name] := by
    rw [hsegments]
    exact reverse_dropWhile_reverse (by simpa using hname) (by simpa using hslashes)
  cases hparent : fs.directoryOf path front with
  | error fault =>
    simp only [makeDirectory, hstripped, List.getLast?_concat, List.dropLast_concat, hparent]
  | ok parent =>
    simp only [makeDirectory, hstripped, List.getLast?_concat, List.dropLast_concat, hparent]

/-- Names to a directory lead to it, with or without slashes behind them. -/
theorem Leads.locate_directory {fs : FileSystem} {path : Path} {base : Place}
    {names slashes : List String} (h : fs.Leads path base names slashes) (hne : names ≠ [])
    (hdirectory : fs.get? (base ++ names) = some .directory) :
    fs.locate path = .ok (base ++ names) := by
  obtain ⟨front, hsegments, hfront⟩ := h.front
  obtain ⟨left, hleft⟩ := followLinks_append hfront h.directory (names ++ slashes)
  have hfollow : follow fs base (names ++ slashes) = .found (base ++ names) := by
    rw [follow_append (follow_names hdirectory nofun) hdirectory]
    exact fs.follow_slashes _ h.silent
  have hleft' : followLinks fs left base (names ++ slashes) = .found (base ++ names) := by
    rw [followLinks_eq_follow (by simp [hfollow]), hfollow]
  rw [hleft', ← hsegments] at hleft
  exact locate_eq_ok_iff.mpr ⟨h.isEmpty_eq hne, hleft⟩

/-- A path whose names lead to a directory is one to a directory. -/
theorem Leads.isDirectory {fs : FileSystem} {path : Path} {base : Place}
    {names slashes : List String} (h : fs.Leads path base names slashes) (hne : names ≠ [])
    (hdirectory : fs.get? (base ++ names) = some .directory) : fs.isDirectory path = true := by
  simp [FileSystem.isDirectory, nodeAt?, h.locate_directory hne hdirectory, hdirectory]

/-- A path to a directory is one that has been located. -/
theorem isDirectory_eq_true_iff {fs : FileSystem} {path : Path} :
    fs.isDirectory path = true ↔
      ∃ place, fs.locate path = .ok place ∧ fs.get? place = some .directory := by
  unfold FileSystem.isDirectory nodeAt?
  cases fs.locate path <;> simp

/-- A directory that is made is new, and the path leads to it. -/
theorem makeDirectory_eq_ok {fs after : FileSystem} {path : Path}
    (h : fs.makeDirectory path = .ok after) :
    ∃ parent name slashes, fs.Leads path parent [name] slashes ∧
      fs.get? (parent ++ [name]) = none ∧ after = fs.put (parent ++ [name]) .directory := by
  rcases segments_cases path with hall | ⟨front, name, slashes, hsegments, hname, hslashes⟩
  · have hstripped : (path.segments.reverse.dropWhile (· = "")).reverse = [] := by
      simpa using hall
    unfold makeDirectory at h
    simp only [hstripped, List.getLast?_nil] at h
    cases h
  · rw [makeDirectory_eq hsegments hname hslashes] at h
    unfold directoryOf at h
    cases hfollow : followLinks fs maxLinks (fs.start path) front with
    | found parent =>
      rw [hfollow] at h
      by_cases hparent : fs.get? parent = some .directory
      · simp only [hparent, ite_true] at h
        split_ifs at h with hdots hsome
        rw [not_or] at hdots
        refine ⟨parent, name, slashes, ⟨⟨front, ?_, hfollow⟩, hparent, ?_, hslashes⟩, ?_, ?_⟩
        · rw [hsegments, List.append_assoc]
        · simpa using ⟨hname, hdots⟩
        · simpa using hsome
        · exact (Except.ok.inj h).symm
      · simp [hparent] at h
    | free parent name slashed => simp [hfollow] at h
    | blocked fault => simp [hfollow] at h
    | linked parent target rest => simp [hfollow] at h

/-- A directory that was made is there. -/
theorem Leads.get?_put_directory {fs : FileSystem} {path : Path} {base : Place}
    {names slashes : List String} (h : fs.Leads path base names slashes) (hne : names ≠ [])
    (hparent : fs.get? (base ++ names.dropLast) = some .directory)
    (hfree : fs.get? (base ++ names) = none) :
    (fs.put (base ++ names) .directory).get? (base ++ names) = some .directory := by
  have hadmits : fs.Admits (base ++ names) := by
    refine ⟨⟨names.getLast hne, ?_, h.named _ (List.getLast_mem hne)⟩, ?_, by simp [hfree]⟩
    · rw [List.getLast?_append_of_ne_nil _ hne, List.getLast?_eq_getLast_of_ne_nil hne]
      exact Option.mem_some_self _
    · rwa [List.dropLast_append_of_ne_nil hne]
  rw [get?_put hadmits, if_pos rfl]

/-- To make a directory is an edit, and the path leads to it afterwards. -/
theorem edits_of_makeDirectory {fs after : FileSystem} {path : Path}
    (h : fs.makeDirectory path = .ok after) :
    Edits (fun _ => True) (fun _ => False) fs after ∧ after.isDirectory path = true := by
  obtain ⟨parent, name, slashes, hleads, hfree, rfl⟩ := makeDirectory_eq_ok h
  have hedits : Edits (fun _ => True) (fun _ => False) fs (fs.put (parent ++ [name]) .directory) :=
    Edits.put_directory hfree trivial
  refine ⟨hedits, (hleads.edits hedits).isDirectory (List.cons_ne_nil _ _) ?_⟩
  exact hleads.get?_put_directory (List.cons_ne_nil _ _) (by simpa using hleads.directory) hfree

/-- A directory is there or cannot be made, or its parent is made first. -/
theorem createWithin_succ (steps : Nat) (fs : FileSystem) {path : Path}
    (hempty : path.isEmpty = false) :
    createWithin (steps + 1) fs path = fs.ensureDirectory path ∨
      ∃ parent, path.parent? = some parent ∧ fs.makeDirectory path = .error .notFound ∧
        createWithin (steps + 1) fs path =
          match createWithin steps fs parent with
          | (.error fault, fs) => (.error fault, fs)
          | (.ok _, fs) => fs.ensureDirectory path := by
  rw [createWithin, if_neg (by simp [hempty])]
  split
  next parent hmake hparent => exact Or.inr ⟨parent, hparent, hmake, rfl⟩
  next => exact Or.inl rfl

/-- To make sure of a directory is an edit, and the path leads to it on success. -/
theorem edits_ensureDirectory (fs : FileSystem) (path : Path) :
    Edits (fun _ => True) (fun _ => False) fs (fs.ensureDirectory path).2 ∧
      ((fs.ensureDirectory path).1 = .ok () →
        (fs.ensureDirectory path).2.isDirectory path = true) := by
  unfold ensureDirectory
  split
  next hmake => exact ⟨(edits_of_makeDirectory hmake).1, fun _ => (edits_of_makeDirectory hmake).2⟩
  next =>
    refine ⟨Edits.refl fs, fun hok => ?_⟩
    by_contra hnot
    simp [hnot] at hok

/-- To make directories is an edit that makes directories only. -/
theorem edits_createWithin (steps : Nat) (fs : FileSystem) (path : Path) :
    Edits (fun _ => True) (fun _ => False) fs (createWithin steps fs path).2 := by
  induction steps generalizing fs path with
  | zero => exact Edits.refl fs
  | succ steps ih =>
    cases hempty : path.isEmpty with
    | true =>
      rw [createWithin, if_pos hempty]
      exact Edits.refl fs
    | false =>
      rcases createWithin_succ steps fs hempty with heq | ⟨parent, -, -, heq⟩
      · rw [heq]
        exact (edits_ensureDirectory fs path).1
      · have hway := ih fs parent
        rw [heq]
        split
        next hstep => rwa [hstep] at hway
        next hstep =>
          rw [hstep] at hway
          exact hway.trans (edits_ensureDirectory _ path).1

/-- To make directories is an edit that makes directories only. -/
theorem edits_createDirectories (fs : FileSystem) (path : Path) :
    Edits (fun _ => True) (fun _ => False) fs (fs.createDirectories path).2 :=
  edits_createWithin _ fs path

/-- A path to which directories were made leads to a directory, unless it is empty. -/
theorem isDirectory_of_createWithin {steps : Nat} {fs after : FileSystem} {path : Path}
    (h : createWithin (steps + 1) fs path = (.ok (), after)) (hne : path.isEmpty = false) :
    after.isDirectory path = true := by
  rcases createWithin_succ steps fs hne with heq | ⟨parent, -, -, heq⟩
  · have hmade := (edits_ensureDirectory fs path).2
    rw [← heq, h] at hmade
    exact hmade rfl
  · rw [heq] at h
    split at h
    · cases h
    next _ _ middle _ =>
      have hmade := (edits_ensureDirectory middle path).2
      rw [h] at hmade
      exact hmade rfl

/-- A path whose directories were made leads to a directory, unless it is empty. -/
theorem isDirectory_of_createDirectories {fs after : FileSystem} {path : Path}
    (h : fs.createDirectories path = (.ok (), after)) (hne : path.isEmpty = false) :
    after.isDirectory path = true := isDirectory_of_createWithin h hne

/-- Where a path leads to a directory, none is made. -/
theorem makeDirectory_of_isDirectory {fs : FileSystem} {path : Path}
    (h : fs.isDirectory path = true) : fs.makeDirectory path = .error .alreadyExists := by
  obtain ⟨place, hlocate, -⟩ := isDirectory_eq_true_iff.mp h
  obtain ⟨hne, hfound⟩ := locate_eq_ok_iff.mp hlocate
  rcases segments_cases path with hall | ⟨front, name, slashes, hsegments, hname, hslashes⟩
  · have hstripped : (path.segments.reverse.dropWhile (· = "")).reverse = [] := by
      simpa using hall
    have habsolute : path.isAbsolute = true := by
      obtain ⟨segments⟩ := path
      rcases segments with _ | ⟨first, _ | ⟨second, rest⟩⟩
      · simp [Path.isEmpty] at hne
      · simp [Path.isEmpty, hall first] at hne
      · obtain rfl := hall first List.mem_cons_self
        rfl
    unfold makeDirectory
    simp only [hstripped, List.getLast?_nil, habsolute, ite_true]
  · rw [hsegments, List.append_assoc] at hfound
    obtain ⟨parent, hparent, hdirectory⟩ :=
      followLinks_of_append (fs.get?_start path) (List.append_ne_nil_of_left_ne_nil
        (List.cons_ne_nil _ _) _) hfound
    obtain ⟨left, hleft⟩ := followLinks_append hparent hdirectory ([name] ++ slashes)
    have hdirectoryOf : fs.directoryOf path front = .ok parent := by
      simp [directoryOf, hparent, hdirectory]
    rw [makeDirectory_eq hsegments hname hslashes, hdirectoryOf]
    simp only
    split_ifs with hdots hsome
    · rfl
    · rfl
    · have hnone : fs.get? (parent ++ [name]) = none := by simpa using hsome
      rw [not_or] at hdots
      have hfollow : follow fs parent ([name] ++ slashes) =
          .free parent name (!slashes.isEmpty) := by
        rw [List.singleton_append, follow_name _ _ ⟨hname, hdots⟩, hnone]
        simpa using hslashes
      have hfree : ∀ left, followLinks fs left parent ([name] ++ slashes) =
          .free parent name (!slashes.isEmpty) := fun left => by
        rw [followLinks_eq_follow (by rw [hfollow]; simp), hfollow]
      rw [hfound, hfree] at hleft
      cases hleft

/-- Nothing is made for the empty path or for one that leads to a directory. -/
theorem createWithin_eq_self {fs : FileSystem} {path : Path} (steps : Nat)
    (h : path.isEmpty = true ∨ fs.isDirectory path = true) :
    createWithin (steps + 1) fs path = (.ok (), fs) := by
  rw [createWithin]
  split
  · rfl
  next hempty =>
    have hdirectory := h.resolve_left hempty
    rw [makeDirectory_of_isDirectory hdirectory]
    simp [ensureDirectory, makeDirectory_of_isDirectory hdirectory, hdirectory]

/-- Nothing is made for a path that leads to a directory. -/
theorem createDirectories_of_isDirectory {fs : FileSystem} {path : Path}
    (h : fs.isDirectory path = true) : fs.createDirectories path = (.ok (), fs) :=
  createWithin_eq_self _ (Or.inr h)

/-- Nothing is made for the empty path. -/
theorem createDirectories_of_isEmpty {fs : FileSystem} {path : Path} (h : path.isEmpty = true) :
    fs.createDirectories path = (.ok (), fs) := createWithin_eq_self _ (Or.inl h)

/-- Directories that were made need not be made again. -/
theorem Edits.createDirectories_eq {dirs files : Place → Prop} {fs made after : FileSystem}
    {path : Path} (h : Edits dirs files made after)
    (hmade : fs.createDirectories path = (.ok (), made)) :
    after.createDirectories path = (.ok (), after) := by
  cases hempty : path.isEmpty with
  | true => exact createDirectories_of_isEmpty hempty
  | false =>
    exact createDirectories_of_isDirectory
      (h.isDirectory (isDirectory_of_createDirectories hmade hempty))

/-- Paths behind one whose directories were made are continued from there. -/
theorem enters_of_createDirectories {fs after : FileSystem} {path : Path}
    (h : fs.createDirectories path = (.ok (), after)) : ∃ base, after.Enters path base := by
  cases hempty : path.isEmpty with
  | true =>
    rw [createDirectories_of_isEmpty hempty] at h
    cases h
    exact ⟨_, enters_of_isEmpty hempty⟩
  | false =>
    obtain ⟨place, hlocate, hdirectory⟩ :=
      isDirectory_eq_true_iff.mp (isDirectory_of_createDirectories h hempty)
    exact ⟨place, enters_of_locate hlocate hdirectory⟩

section Below

variable {fs : FileSystem} {path : Path} {base : Place} {names slashes : List String}

/-- Where the directory for a path is missing, more than one name leads to it from the base. -/
theorem Leads.dropLast_ne_nil (h : fs.Leads path base names slashes) (hne : names ≠ [])
    (hmake : fs.makeDirectory path = .error .notFound) : names.dropLast ≠ [] := by
  intro hflat
  obtain ⟨front, hsegments, hfront⟩ := h.front
  have hname : IsName (names.getLast hne) := h.named _ (List.getLast_mem hne)
  have hsplit : path.segments = front ++ [names.getLast hne] ++ slashes := by
    rw [hsegments, ← List.append_assoc]
    conv_lhs => rw [← List.dropLast_concat_getLast hne, hflat, List.nil_append]
  have hparent : fs.directoryOf path front = .ok base := by
    simp [directoryOf, hfront, h.directory]
  rw [makeDirectory_eq hsplit hname.1 h.silent, hparent] at hmake
  simp only [hname.2.1, hname.2.2, or_self, if_false] at hmake
  split at hmake <;> cases hmake

/-- The place is below the base on the way along names. -/
def OnWay (base : Place) (names : List String) (place : Place) : Prop :=
  ∃ init, init ≠ [] ∧ init <+: names ∧ place = base ++ init

/-- A path to a name below others has the path to these as its parent. -/
theorem Leads.parent (h : fs.Leads path base names slashes) (hdeep : names.dropLast ≠ []) :
    ∃ parent, path.parent? = some parent ∧ fs.Leads parent base names.dropLast [] := by
  have hne : names ≠ [] := by
    rintro rfl
    exact hdeep rfl
  obtain ⟨init, name, rfl⟩ : ∃ init name, names = init ++ [name] :=
    ⟨names.dropLast, names.getLast hne, (List.dropLast_concat_getLast hne).symm⟩
  rw [List.dropLast_concat] at hdeep ⊢
  obtain ⟨way, last, rfl⟩ : ∃ way last, init = way ++ [last] :=
    ⟨init.dropLast, init.getLast hdeep, (List.dropLast_concat_getLast hdeep).symm⟩
  obtain ⟨front, hsegments, hfront⟩ := h.front
  have hlast : IsName last := h.named last (by simp)
  have hsplit : path.segments = front ++ way ++ [last] ++ [name] ++ slashes := by
    rw [hsegments]
    simp
  have habsolute : path.isAbsolute = (Path.mk (front ++ way ++ [last])).isAbsolute := by
    obtain ⟨segments⟩ := path
    simp only at hsplit
    rw [hsplit, List.append_assoc _ [name] slashes]
    exact Path.isAbsolute_append hlast
  have hstart : fs.start ⟨front ++ way ++ [last]⟩ = fs.start path := by
    unfold start
    rw [habsolute]
  refine ⟨_, Path.parent?_append hsplit hlast (h.named name (by simp)) h.silent,
    ⟨front, by simp, hstart ▸ hfront⟩, h.directory, fun other hother => ?_, nofun⟩
  exact h.named other (List.mem_append_left _ hother)

end Below

end FileSystem

end Siteworks
