import Mathlib
import Siteworks.Proofs.FileSystem.Edits

/-!
# Names below a directory

A path that is continued by names leads through the directory that its front leads to. From there
the names lead on one by one, if no link stands below the directory. So reading and writing along
such a path is reading and writing at the place that the names lead to.
-/

namespace Siteworks

namespace Path

/-- A path is continued behind its stem. -/
theorem segments_join (base : Path) {child : Path} (h : child.isAbsolute = false) :
    (base.join child).segments = base.stem ++ child.segments := by
  simp [join, h]

/-- Names do not start at the root. -/
theorem isAbsolute_of_isName {names : List String} (h : ∀ name ∈ names, IsName name) :
    (Path.mk names).isAbsolute = false := by
  cases names with
  | nil => rfl
  | cons name rest =>
    have hne : name ≠ "" := (h name List.mem_cons_self).1
    unfold isAbsolute
    split
    next hsegments => exact absurd (List.cons.inj hsegments).1 hne
    · rfl

/-- A continued path starts where it started. -/
theorem isAbsolute_join (base : Path) {child : Path} (h : child.isAbsolute = false)
    (hne : child.segments ≠ []) : (base.join child).isAbsolute = base.isAbsolute := by
  obtain ⟨first, rest, hchild⟩ := List.exists_cons_of_ne_nil hne
  rw [join, h]
  obtain ⟨segments⟩ := base
  rcases segments with _ | ⟨segment, _ | ⟨second, others⟩⟩
  · simpa [stem, isAbsolute] using h
  · by_cases hs : segment = ""
    · subst hs
      simpa [stem, isAbsolute] using h
    · simp [stem, isAbsolute, hs]
  · have hstem : ∃ tail, (Path.mk (segment :: second :: others)).stem = segment :: tail := by
      unfold stem
      split
      · exact ⟨(second :: others).dropLast, rfl⟩
      · exact ⟨second :: others, rfl⟩
    obtain ⟨tail, htail⟩ := hstem
    rw [htail, hchild]
    by_cases hs : segment = ""
    · subst hs
      cases tail <;> simp [isAbsolute]
    · simp [isAbsolute, hs]

/-- A path that ends in a name is continued behind it. -/
theorem stem_of_isName {path : Path} {front names : List String}
    (hsegments : path.segments = front ++ names) (hne : names ≠ [])
    (h : ∀ name ∈ names, IsName name) : path.stem = path.segments := by
  have hlast : path.segments.getLast? ≠ some "" := by
    rw [hsegments, List.getLast?_append_of_ne_nil _ hne]
    exact fun hl => (h "" (List.mem_of_getLast? hl)).1 rfl
  rw [stem, if_neg hlast]

end Path

namespace FileSystem

/-- The directory that contains a directory. -/
theorem get?_dropLast {fs : FileSystem} {place : Place} (h : fs.get? place = some .directory) :
    fs.get? place.dropLast = some .directory := by
  rcases List.eq_nil_or_concat place with rfl | ⟨parent, name, rfl⟩
  · exact h
  · rw [List.concat_eq_append] at h ⊢
    rw [List.dropLast_concat]
    have hsome : (fs.get? (parent ++ [name])).isSome := by rw [h]; rfl
    exact get?_eq_directory hsome (List.cons_ne_nil _ _)

/-- The directories on the way to a directory. -/
theorem get?_eq_directory_of_append {fs : FileSystem} {place names : Place}
    (h : fs.get? (place ++ names) = some .directory) : fs.get? place = some .directory := by
  cases names with
  | nil => simpa using h
  | cons first rest =>
    have hsome : (fs.get? (place ++ first :: rest)).isSome := by rw [h]; rfl
    exact get?_eq_directory hsome (List.cons_ne_nil _ _)

/-- Paths start at directories. -/
theorem get?_start (fs : FileSystem) (path : Path) :
    fs.get? (fs.start path) = some .directory := by
  unfold start
  split
  · exact fs.root
  · exact fs.home

/-- Continued paths start where they started. -/
theorem start_join (fs : FileSystem) (base : Path) {child : Path} (h : child.isAbsolute = false)
    (hne : child.segments ≠ []) : fs.start (base.join child) = fs.start base := by
  unfold start
  rw [Path.isAbsolute_join base h hne]

/-- Behind a directory the rest of the way goes on from there. -/
theorem follow_append {fs : FileSystem} {place q : Place} {front : List String}
    (h : follow fs place front = .found q) (hq : fs.get? q = some .directory)
    (rest : List String) : follow fs place (front ++ rest) = follow fs q rest := by
  induction front generalizing place with
  | nil =>
    cases h
    rfl
  | cons segment front ih =>
    rw [List.cons_append]
    rcases segment_cases segment with hsilent | rfl | hname
    · rw [follow_silent _ _ hsilent] at h ⊢
      exact ih h
    · rw [follow_up] at h ⊢
      exact ih h
    · rw [follow_name _ _ hname] at h ⊢
      cases hnode : fs.get? (place ++ [segment]) with
      | none =>
        rw [hnode] at h
        simp only at h
        split at h <;> cases h
      | some node =>
        rw [hnode] at h
        cases node with
        | directory => exact ih h
        | file content =>
          simp only at h
          split at h
          · cases h
            exact absurd (hnode.symm.trans hq) nofun
          · cases h
        | link target => cases h

/-- A link stops the way whatever comes behind it. -/
theorem follow_append_linked {fs : FileSystem} {place parent : Place} {target : Path}
    {front behind : List String} (h : follow fs place front = .linked parent target behind)
    (rest : List String) :
    follow fs place (front ++ rest) = .linked parent target (behind ++ rest) := by
  induction front generalizing place with
  | nil => cases h
  | cons segment front ih =>
    rw [List.cons_append]
    rcases segment_cases segment with hsilent | rfl | hname
    · rw [follow_silent _ _ hsilent] at h ⊢
      exact ih h
    · rw [follow_up] at h ⊢
      exact ih h
    · rw [follow_name _ _ hname] at h ⊢
      cases hnode : fs.get? (place ++ [segment]) with
      | none =>
        rw [hnode] at h
        simp only at h
        split at h <;> cases h
      | some node =>
        rw [hnode] at h
        cases node with
        | directory => exact ih h
        | file content =>
          simp only at h
          split at h <;> cases h
        | link target =>
          cases h
          rfl

/-- Behind a directory the rest of the way goes on from there, with fewer links to follow. -/
theorem followLinks_append {fs : FileSystem} {links : Nat} {place q : Place} {front : List String}
    (h : followLinks fs links place front = .found q) (hq : fs.get? q = some .directory)
    (rest : List String) :
    ∃ left, followLinks fs links place (front ++ rest) = followLinks fs left q rest := by
  induction links generalizing place front with
  | zero =>
    refine ⟨0, ?_⟩
    unfold followLinks at h ⊢
    split at h
    · cases h
    · rw [follow_append h hq]
  | succ links ih =>
    unfold followLinks at h
    split at h
    next parent target behind hlinked =>
      obtain ⟨left, hleft⟩ := ih h
      refine ⟨left, ?_⟩
      rw [followLinks, follow_append_linked hlinked]
      simpa only [List.append_assoc] using hleft
    next =>
      refine ⟨links + 1, ?_⟩
      unfold followLinks
      rw [follow_append h hq]

/-- The way to something leads through directories, and a link is in a directory. -/
theorem follow_concat {fs : FileSystem} {place : Place} (hplace : fs.get? place = some .directory)
    {front : List String} {segment : String} {reach : Reach}
    (h : follow fs place (front ++ [segment]) = reach) :
    (∀ q, reach = .found q →
      ∃ middle, follow fs place front = .found middle ∧ fs.get? middle = some .directory) ∧
    (∀ parent target rest, reach = .linked parent target rest →
      fs.get? parent = some .directory ∧
        ((∃ behind, rest = behind ++ [segment] ∧
            follow fs place front = .linked parent target behind) ∨
          ∃ middle, follow fs place front = .found middle ∧
            fs.get? middle = some .directory)) := by
  induction front generalizing place with
  | nil =>
    have hfront : follow fs place [] = .found place := rfl
    refine ⟨fun _ _ => ⟨place, hfront, hplace⟩, fun parent target rest hlinked => ?_⟩
    refine ⟨?_, Or.inr ⟨place, hfront, hplace⟩⟩
    rw [List.nil_append] at h
    subst hlinked
    rcases segment_cases segment with hsilent | rfl | hname
    · rw [follow_silent _ _ hsilent] at h
      cases h
    · rw [follow_up] at h
      cases h
    · rw [follow_name _ _ hname] at h
      cases hnode : fs.get? (place ++ [segment]) with
      | none => simp [hnode] at h
      | some node => cases node <;> simp_all [follow]
  | cons first front ih =>
    rw [List.cons_append] at h
    rcases segment_cases first with hsilent | rfl | hname
    · rw [follow_silent _ _ hsilent] at h ⊢
      exact ih hplace h
    · rw [follow_up] at h ⊢
      exact ih (get?_dropLast hplace) h
    · rw [follow_name _ _ hname] at h ⊢
      cases hnode : fs.get? (place ++ [first]) with
      | none =>
        rw [hnode] at h
        simp only at h
        split at h <;>
        · subst h
          exact ⟨by simp, by simp⟩
      | some node =>
        rw [hnode] at h
        cases node with
        | directory => exact ih hnode h
        | file content =>
          simp at h
          subst h
          exact ⟨by simp, by simp⟩
        | link target =>
          simp only at h
          subst h
          refine ⟨by simp, ?_⟩
          rintro _ _ _ ⟨⟩
          exact ⟨hplace, Or.inl ⟨front, rfl, rfl⟩⟩

/-- The way to something leads through a directory. -/
theorem followLinks_concat {fs : FileSystem} {links : Nat} {place q : Place}
    (hplace : fs.get? place = some .directory) {front : List String} {segment : String}
    (h : followLinks fs links place (front ++ [segment]) = .found q) :
    ∃ middle, followLinks fs links place front = .found middle ∧
      fs.get? middle = some .directory := by
  induction links generalizing place front with
  | zero =>
    unfold followLinks at h
    split at h
    · cases h
    next hne =>
      obtain ⟨middle, hmiddle, hdirectory⟩ := (follow_concat hplace h).1 q rfl
      refine ⟨middle, ?_, hdirectory⟩
      unfold followLinks
      rw [hmiddle]
  | succ links ih =>
    unfold followLinks at h
    split at h
    next parent target rest hlinked =>
      obtain ⟨hparent, hcases⟩ := (follow_concat hplace hlinked).2 _ _ _ rfl
      rcases hcases with ⟨behind, rfl, hfront⟩ | ⟨middle, hfront, hdirectory⟩
      · rw [← List.append_assoc] at h
        have hstart : fs.get? (if target.isAbsolute then [] else parent) = some .directory := by
          split
          · exact fs.root
          · exact hparent
        obtain ⟨middle, hmiddle, hdirectory⟩ := ih hstart h
        refine ⟨middle, ?_, hdirectory⟩
        rw [followLinks, hfront]
        exact hmiddle
      · refine ⟨middle, ?_, hdirectory⟩
        rw [followLinks, hfront]
    next hne =>
      obtain ⟨middle, hmiddle, hdirectory⟩ := (follow_concat hplace h).1 q rfl
      refine ⟨middle, ?_, hdirectory⟩
      rw [followLinks, hmiddle]

/-- Paths continued behind the path start their names at the base. -/
structure Enters (fs : FileSystem) (path : Path) (base : Place) : Prop where
  /-- The stem of the path leads to the base. -/
  stem : followLinks fs maxLinks (fs.start path) path.stem = .found base
  /-- The base is a directory. -/
  directory : fs.get? base = some .directory

/-- The path leads to the base, then on by names, with slashes behind them. -/
structure Leads (fs : FileSystem) (path : Path) (base : Place) (names slashes : List String) :
    Prop where
  /-- The front of the path leads to the base. -/
  front : ∃ front, path.segments = front ++ (names ++ slashes) ∧
    followLinks fs maxLinks (fs.start path) front = .found base
  /-- The base is a directory. -/
  directory : fs.get? base = some .directory
  /-- The segments behind the front are names. -/
  named : ∀ name ∈ names, IsName name
  /-- There is nothing between the slashes behind the names. -/
  silent : ∀ segment ∈ slashes, segment = ""

/-- A path whose segments lead to a directory is continued from there. -/
theorem enters_of_followLinks {fs : FileSystem} {path : Path} {base : Place}
    (hfound : followLinks fs maxLinks (fs.start path) path.segments = .found base)
    (hbase : fs.get? base = some .directory) : fs.Enters path base := by
  refine ⟨?_, hbase⟩
  rw [Path.stem]
  split
  next hlast =>
    obtain ⟨front, hfront⟩ := List.getLast?_eq_some_iff.mp hlast
    rw [hfront, List.dropLast_concat]
    rw [hfront] at hfound
    obtain ⟨middle, hmiddle, hdirectory⟩ := followLinks_concat (fs.get?_start path) hfound
    obtain ⟨left, hleft⟩ := followLinks_append hmiddle hdirectory [""]
    have hsilent : followLinks fs left middle [""] = .found middle := by
      cases left <;> rfl
    rw [hfound, hsilent] at hleft
    rw [hmiddle, Reach.found.inj hleft]
  · exact hfound

/-- A path to a directory is continued from there. -/
theorem enters_of_locate {fs : FileSystem} {path : Path} {base : Place}
    (h : fs.locate path = .ok base) (hbase : fs.get? base = some .directory) :
    fs.Enters path base := enters_of_followLinks (locate_eq_ok_iff.mp h).2 hbase

/-- The empty path is continued from where relative paths start. -/
theorem enters_of_isEmpty {fs : FileSystem} {path : Path} (h : path.isEmpty = true) :
    fs.Enters path fs.workingDirectory := by
  have hstem : path.stem = [] ∧ path.isAbsolute = false := by
    obtain ⟨segments⟩ := path
    rcases segments with _ | ⟨segment, _ | ⟨second, rest⟩⟩
    · exact ⟨rfl, rfl⟩
    · simp only [Path.isEmpty, List.all_cons, List.all_nil, Bool.and_true, List.length_singleton,
        Nat.le_refl, decide_true, decide_eq_true_eq] at h
      subst h
      exact ⟨rfl, rfl⟩
    · simp [Path.isEmpty] at h
  refine ⟨?_, fs.home⟩
  rw [hstem.1, start, hstem.2]
  rfl

/-- Names behind a path lead on from where the path is continued. -/
theorem Enters.leads {fs : FileSystem} {path : Path} {base : Place} (h : fs.Enters path base)
    {names : List String} (hne : names ≠ []) (hnames : ∀ name ∈ names, IsName name) :
    fs.Leads (path.join ⟨names⟩) base names [] := by
  have habsolute := Path.isAbsolute_of_isName hnames
  refine ⟨⟨path.stem, ?_, ?_⟩, h.directory, hnames, nofun⟩
  · rw [Path.segments_join _ habsolute, List.append_nil]
  · rw [fs.start_join path habsolute hne]
    exact h.stem

/-- More names behind names lead further on. -/
theorem Leads.join {fs : FileSystem} {path : Path} {base : Place} {names more : List String}
    (h : fs.Leads path base names []) (hne : names ≠ []) (hmore : more ≠ [])
    (hnames : ∀ name ∈ more, IsName name) :
    fs.Leads (path.join ⟨more⟩) base (names ++ more) [] := by
  obtain ⟨⟨front, hsegments, hfront⟩, hdirectory, hnamed, -⟩ := h
  rw [List.append_nil] at hsegments
  have habsolute := Path.isAbsolute_of_isName hnames
  refine ⟨⟨front, ?_, ?_⟩, hdirectory, ?_, nofun⟩
  · rw [Path.segments_join _ habsolute, Path.stem_of_isName hsegments hne hnamed, hsegments,
      List.append_nil, List.append_assoc]
  · rw [fs.start_join path habsolute hmore]
    exact hfront
  · intro name hname
    exact (List.mem_append.mp hname).elim (hnamed name) (hnames name)

/-- Without more names there is a slash behind them. -/
theorem Leads.join_nil {fs : FileSystem} {path : Path} {base : Place} {names : List String}
    (h : fs.Leads path base names []) (hne : names ≠ []) :
    fs.Leads (path.join (.ofNames [])) base names [""] := by
  obtain ⟨⟨front, hsegments, hfront⟩, hdirectory, hnamed, -⟩ := h
  rw [List.append_nil] at hsegments
  have habsolute : (Path.ofNames []).isAbsolute = false := rfl
  refine ⟨⟨front, ?_, ?_⟩, hdirectory, hnamed, by simp⟩
  · rw [Path.segments_join _ habsolute, Path.stem_of_isName hsegments hne hnamed, hsegments,
      List.append_assoc]
    rfl
  · rw [fs.start_join path habsolute (by simp [Path.ofNames])]
    exact hfront

section Edited

variable {dirs files : Place → Prop} {before after : FileSystem}

/-- An edit moves no start. -/
theorem Edits.start_eq (h : Edits dirs files before after) (path : Path) :
    after.start path = before.start path := by
  unfold start
  rw [h.workingDirectory]

/-- Paths are continued from the same place after an edit. -/
theorem Enters.edits {path : Path} {base : Place} (h : before.Enters path base)
    (hedits : Edits dirs files before after) : after.Enters path base :=
  ⟨hedits.start_eq path ▸ hedits.followLinks_found h.stem, hedits.directory h.directory⟩

/-- Names lead on from the same place after an edit. -/
theorem Leads.edits {path : Path} {base : Place} {names slashes : List String}
    (h : before.Leads path base names slashes) (hedits : Edits dirs files before after) :
    after.Leads path base names slashes := by
  obtain ⟨⟨front, hsegments, hfront⟩, hdirectory, hnamed, hsilent⟩ := h
  refine ⟨⟨front, hsegments, ?_⟩, hedits.directory hdirectory, hnamed, hsilent⟩
  exact hedits.start_eq path ▸ hedits.followLinks_found hfront

end Edited

/-- There is no link at the place or below it. -/
def Bare (fs : FileSystem) (place : Place) : Prop :=
  ∀ names target, fs.get? (place ++ names) ≠ some (.link target)

/-- An edit brings no links. -/
theorem Bare.edits {dirs files : Place → Prop} {before after : FileSystem} {place : Place}
    (h : before.Bare place) (hedits : Edits dirs files before after) : after.Bare place :=
  fun names target hlink => h names target (hedits.link_iff.mp hlink)

/-- Names lead to what they name, unless it is a link. -/
theorem follow_names {fs : FileSystem} {base : Place} {names : List String} {node : Node}
    (h : fs.get? (base ++ names) = some node) (hlink : ∀ target, node ≠ .link target) :
    follow fs base names = .found (base ++ names) := by
  induction names generalizing base with
  | nil => simp [follow]
  | cons name rest ih =>
    have hsome : (fs.get? (base ++ name :: rest)).isSome := by rw [h]; rfl
    have hname := isName_of_get? hsome name List.mem_cons_self
    have hassoc : base ++ name :: rest = base ++ [name] ++ rest := by simp
    rw [hassoc] at h hsome
    rw [follow_name _ _ hname]
    cases rest with
    | nil =>
      rw [List.append_nil] at h
      rw [h]
      cases node with
      | directory => rfl
      | file content => rfl
      | link target => exact absurd rfl (hlink target)
    | cons second rest =>
      rw [get?_eq_directory hsome (List.cons_ne_nil _ _), hassoc]
      exact ih h

/-- Where no links are, a name that is free is free in a directory, or there is no way to it. The
way is blocked by a file, or a directory on it is missing. -/
theorem follow_names_free {fs : FileSystem} {base : Place} (hbase : fs.get? base = some .directory)
    (hbare : fs.Bare base) {front : List String} {name : String}
    (hnames : ∀ other ∈ front ++ [name], IsName other)
    (h : fs.get? (base ++ (front ++ [name])) = none) :
    (fs.get? (base ++ front) = some .directory ∧
        follow fs base (front ++ [name]) = .free (base ++ front) name false) ∨
      (fs.get? (base ++ front) ≠ some .directory ∧
        ∃ fault, follow fs base (front ++ [name]) = .blocked fault ∧
          ((∀ init, init <+: front → ∀ content, fs.get? (base ++ init) ≠ some (.file content)) →
            fault = .notFound)) := by
  induction front generalizing base with
  | nil =>
    have hname : IsName name := hnames name (by simp)
    refine Or.inl ⟨by simpa using hbase, ?_⟩
    rw [List.nil_append] at h ⊢
    rw [follow_name _ _ hname, h]
    simp
  | cons first front ih =>
    have hfirst : IsName first := hnames first (by simp)
    have hassoc : ∀ rest, base ++ first :: rest = base ++ [first] ++ rest := by simp
    rw [List.cons_append, follow_name _ _ hfirst]
    rw [List.cons_append, hassoc] at h
    rw [hassoc]
    cases hnode : fs.get? (base ++ [first]) with
    | none =>
      refine Or.inr ⟨fun hdirectory => ?_, .notFound, ?_⟩
      · exact absurd (hnode.symm.trans (get?_eq_directory_of_append hdirectory)) nofun
      · have hlast : IsName name := hnames name (by simp)
        simp [hlast.1]
    | some node =>
      cases node with
      | directory =>
        refine (ih hnode (fun names target => ?_) (fun other hother => ?_) h).imp_right ?_
        · rw [List.append_assoc]
          exact hbare _ target
        · exact hnames other (List.mem_cons_of_mem _ hother)
        · rintro ⟨hparent, fault, hfollow, hfault⟩
          refine ⟨hparent, fault, hfollow, fun hfiles => hfault fun init hinit content => ?_⟩
          rw [← hassoc]
          exact hfiles (first :: init) (List.cons_prefix_cons.mpr ⟨rfl, hinit⟩) content
      | file content =>
        refine Or.inr ⟨fun hdirectory => ?_, .notDirectory, by simp, fun hfiles => ?_⟩
        · exact absurd (hnode.symm.trans (get?_eq_directory_of_append hdirectory)) nofun
        · exact absurd hnode (hfiles [first] (List.cons_prefix_cons.mpr ⟨rfl, by simp⟩) content)
      | link target => exact absurd hnode (hbare [first] target)

end FileSystem

end Siteworks
