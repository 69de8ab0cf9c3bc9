import Mathlib
import Siteworks.Proofs.FileSystem.Directories
import Siteworks.Proofs.FileSystem.Goals

/-!
# File systems that agree

Operations along names see nothing but what is along the names. So where two file systems without
links agree along the names to which a path leads, reading and writing along them answer the same,
and leave the two agreeing wherever they agreed before.
-/

namespace Siteworks.FileSystem

/-- The file systems have the same at some places. -/
def AgreeOn (places : Place → Prop) (a b : FileSystem) : Prop :=
  ∀ place, places place → a.get? place = b.get? place

/-- Two stages answer the same and leave the same at some places. -/
structure Agree (places : Place → Prop) {α : Type} (first second : α × FileSystem) : Prop where
  /-- The answers are the same. -/
  answer : first.1 = second.1
  /-- What is left is the same at the places. -/
  left : AgreeOn places first.2 second.2

variable {a b : FileSystem} {places : Place → Prop}

/-- Stages that agree fail with the same error or succeed with the same answer. -/
theorem Agree.cases {ε α : Type} {first second : Except ε α × FileSystem}
    (h : Agree places first second) :
    (∃ e fs fs', first = (.error e, fs) ∧ second = (.error e, fs') ∧ AgreeOn places fs fs') ∨
      ∃ x fs fs', first = (.ok x, fs) ∧ second = (.ok x, fs') ∧ AgreeOn places fs fs' := by
  obtain ⟨result, fs⟩ := first
  obtain ⟨result', fs'⟩ := second
  obtain ⟨hanswer, hleft⟩ := h
  obtain rfl : result = result' := hanswer
  cases result with
  | error e => exact Or.inl ⟨e, fs, fs', rfl, rfl, hleft⟩
  | ok x => exact Or.inr ⟨x, fs, fs', rfl, rfl, hleft⟩

/-- The same that is put at a place of both leaves them agreeing. -/
theorem AgreeOn.put (h : AgreeOn places a b) {place : Place} (ha : a.Admits place)
    (hb : b.Admits place) (node : Node) : AgreeOn places (a.put place node) (b.put place node) := by
  intro other hother
  rw [get?_put ha, get?_put hb, h other hother]

/-- Names lead to the same if there is the same along them. -/
theorem follow_congr {base : Place} {names slashes : List String}
    (hnames : ∀ name ∈ names, IsName name) (hslashes : ∀ segment ∈ slashes, segment = "")
    (hsame : ∀ init, init <+: names → a.get? (base ++ init) = b.get? (base ++ init)) :
    follow a base (names ++ slashes) = follow b base (names ++ slashes) := by
  induction names generalizing base with
  | nil => rw [List.nil_append, a.follow_slashes _ hslashes, b.follow_slashes _ hslashes]
  | cons name rest ih =>
    have hname := hnames name List.mem_cons_self
    have hfirst := hsame [name] (by simp)
    have hrest : follow a (base ++ [name]) (rest ++ slashes) =
        follow b (base ++ [name]) (rest ++ slashes) := by
      refine ih (fun other ho => hnames other (List.mem_cons_of_mem _ ho)) fun init hinit => ?_
      rw [List.append_assoc]
      exact hsame (name :: init) (List.cons_prefix_cons.mpr ⟨rfl, hinit⟩)
    rw [List.cons_append, follow_name _ _ hname, follow_name _ _ hname, hfirst]
    split
    · rfl
    · exact hrest
    · rfl
    · rfl

/-- Without links, a way behind a directory goes on from there. -/
theorem Bare.followLinks_append {fs : FileSystem} (hlinks : fs.Bare []) {links : Nat}
    {place base : Place} {front : List String} (h : followLinks fs links place front = .found base)
    (hbase : fs.get? base = some .directory) (rest : List String) :
    followLinks fs links place (front ++ rest) = follow fs base rest := by
  obtain ⟨left, hleft⟩ := FileSystem.followLinks_append h hbase rest
  rw [hleft, followLinks_eq_follow fun _ _ _ => hlinks.follow_ne_linked]

/-- Without links, a path leads where its names lead. -/
theorem Leads.reach_eq_follow {fs : FileSystem} {path : Path} {base : Place}
    {names slashes : List String} (h : fs.Leads path base names slashes) (hne : names ≠ [])
    (hlinks : fs.Bare []) : fs.reach path = follow fs base (names ++ slashes) := by
  obtain ⟨front, hsegments, hfront⟩ := h.front
  rw [reach, h.isEmpty_eq hne, hsegments, hlinks.followLinks_append hfront h.directory]
  rfl

/-- A path leads along the same names in two file systems without links, which have the same along
them. -/
structure LeadsAlike (a b : FileSystem) (path : Path) (base : Place) (names slashes : List String) :
    Prop where
  /-- The path leads along the names in the one. -/
  one : a.Leads path base names slashes
  /-- The path leads along the names in the other. -/
  other : b.Leads path base names slashes
  /-- There are no links in the one. -/
  bareOne : a.Bare []
  /-- There are no links in the other. -/
  bareOther : b.Bare []
  /-- There is the same along the names. -/
  same : ∀ init, init <+: names → a.get? (base ++ init) = b.get? (base ++ init)

namespace LeadsAlike

variable {path : Path} {base : Place} {names slashes : List String}

/-- The path leads to the same. -/
theorem reach_eq (h : LeadsAlike a b path base names slashes) (hne : names ≠ []) :
    a.reach path = b.reach path := by
  rw [h.one.reach_eq_follow hne h.bareOne, h.other.reach_eq_follow hne h.bareOther]
  exact follow_congr h.one.named h.one.silent h.same

/-- If the path leads to something, it is at the end of the names. -/
theorem eq_of_reach (h : LeadsAlike a b path base names slashes) (hne : names ≠ []) {place : Place}
    (hreach : a.reach path = .found place) : place = base ++ names := by
  rw [h.one.reach_eq_follow hne h.bareOne] at hreach
  rw [eq_foldl_of_follow hreach, List.foldl_append, foldl_advance_names h.one.named]
  have hstay : ∀ (slashes : List String) (place : Place), (∀ segment ∈ slashes, segment = "") →
      slashes.foldl advance place = place := by
    intro slashes
    induction slashes with
    | nil => exact fun _ _ => rfl
    | cons first rest ih =>
      intro place hsilent
      rw [List.foldl_cons, hsilent first List.mem_cons_self]
      exact ih place fun segment hs => hsilent segment (List.mem_cons_of_mem _ hs)
  exact hstay slashes _ h.one.silent

/-- The path is located alike. -/
theorem locate_eq (h : LeadsAlike a b path base names slashes) (hne : names ≠ []) :
    a.locate path = b.locate path := by
  rw [locate, locate, h.reach_eq hne]

/-- What is located is the same in both. -/
theorem get?_eq_of_locate (h : LeadsAlike a b path base names slashes) (hne : names ≠ [])
    {place : Place} (hlocate : b.locate path = .ok place) : a.get? place = b.get? place := by
  rw [← h.locate_eq hne, locate] at hlocate
  split at hlocate
  next place' hreach =>
    cases hlocate
    rw [h.eq_of_reach hne hreach]
    exact h.same names List.prefix_rfl
  all_goals cases hlocate

/-- The path leads to the same node. -/
theorem nodeAt?_eq (h : LeadsAlike a b path base names slashes) (hne : names ≠ []) :
    a.nodeAt? path = b.nodeAt? path := by
  rw [nodeAt?, nodeAt?, h.locate_eq hne]
  split
  next place hlocate => exact h.get?_eq_of_locate hne hlocate
  next => rfl

/-- The path leads to files alike. -/
theorem isFile_eq (h : LeadsAlike a b path base names slashes) (hne : names ≠ []) :
    a.isFile path = b.isFile path := by
  rw [isFile, isFile, h.nodeAt?_eq hne]

/-- The path leads to directories alike. -/
theorem isDirectory_eq (h : LeadsAlike a b path base names slashes) (hne : names ≠ []) :
    a.isDirectory path = b.isDirectory path := by
  rw [isDirectory, isDirectory, h.nodeAt?_eq hne]

/-- The same is read. -/
theorem read_eq (h : LeadsAlike a b path base names slashes) (hne : names ≠ []) :
    a.read path = b.read path := by
  rw [read, read, h.locate_eq hne]
  split
  next => rfl
  next place hlocate => rw [h.get?_eq_of_locate hne hlocate]

/-- The same text is read. -/
theorem readText_eq (h : LeadsAlike a b path base names slashes) (hne : names ≠ []) :
    a.readText path = b.readText path := by
  rw [readText, readText, h.read_eq hne]

/-- A file is written to both, or to none for the same reason. -/
theorem write_cases (h : LeadsAlike a b path base names []) (hne : names ≠ []) (content : Content) :
    (∃ fault, a.write path content = .error fault ∧ b.write path content = .error fault) ∨
      (a.Admits (base ++ names) ∧ b.Admits (base ++ names) ∧
        a.write path content = .ok (a.put (base ++ names) (.file content)) ∧
        b.write path content = .ok (b.put (base ++ names) (.file content))) := by
  have hbare : ∀ {fs : FileSystem}, fs.Bare [] → fs.Bare base :=
    fun hlinks names => hlinks (base ++ names)
  have hboth : (∃ fault, a.write path content = .error fault ∧ b.write path content = .error fault) ∨
      ((∃ after, a.write path content = .ok after) ∧ ∃ after, b.write path content = .ok after) := by
    rw [write, write, ← h.reach_eq hne]
    cases hreach : a.reach path with
    | found place =>
      obtain rfl := h.eq_of_reach hne hreach
      simp only [h.same names List.prefix_rfl]
      split
      · exact Or.inl ⟨_, rfl, rfl⟩
      · exact Or.inr ⟨⟨_, rfl⟩, ⟨_, rfl⟩⟩
    | free parent name slashed =>
      cases slashed with
      | true => exact Or.inl ⟨_, rfl, rfl⟩
      | false => exact Or.inr ⟨⟨_, rfl⟩, ⟨_, rfl⟩⟩
    | blocked fault => exact Or.inl ⟨_, rfl, rfl⟩
    | linked parent target rest => exact Or.inl ⟨_, rfl, rfl⟩
  refine hboth.imp_right ?_
  rintro ⟨⟨after, hafter⟩, ⟨after', hafter'⟩⟩
  obtain ⟨hadmits, rfl⟩ := (h.one.write_eq_ok_iff hne (hbare h.bareOne)).mp hafter
  obtain ⟨hadmits', rfl⟩ := (h.other.write_eq_ok_iff hne (hbare h.bareOther)).mp hafter'
  exact ⟨hadmits, hadmits', hafter, hafter'⟩

/-- A directory is looked for alike on the way to a name. -/
theorem makeDirectory_cases (h : LeadsAlike a b path base names slashes) (hne : names ≠ []) :
    (∃ fault, a.makeDirectory path = .error fault ∧ b.makeDirectory path = .error fault) ∨
      (a.Admits (base ++ names) ∧ b.Admits (base ++ names) ∧
        a.makeDirectory path = .ok (a.put (base ++ names) .directory) ∧
        b.makeDirectory path = .ok (b.put (base ++ names) .directory)) := by
  obtain ⟨init, name, rfl⟩ : ∃ init name, names = init ++ [name] :=
    ⟨names.dropLast, names.getLast hne, (List.dropLast_concat_getLast hne).symm⟩
  have hname : IsName name := h.one.named name (by simp)
  have hinit : ∀ other ∈ init, IsName other := fun other ho => h.one.named other (by simp [ho])
  have hsame : ∀ way, way <+: init → a.get? (base ++ way) = b.get? (base ++ way) :=
    fun way hway => h.same way (hway.trans (List.prefix_append _ _))
  obtain ⟨front, hsegments, hfront⟩ := h.one.front
  obtain ⟨front', hsegments', hfront'⟩ := h.other.front
  obtain rfl : front = front' := List.append_cancel_right (hsegments.symm.trans hsegments')
  have hsplit : path.segments = front ++ init ++ [name] ++ slashes := by
    rw [hsegments]
    simp
  have hway : follow a base (init ++ []) = follow b base (init ++ []) :=
    follow_congr hinit nofun hsame
  rw [List.append_nil] at hway
  have hplace : ∀ {fs : FileSystem} {place : Place}, follow fs base init = .found place →
      place = base ++ init := fun hfollow => by
    rw [eq_foldl_of_follow hfollow, foldl_advance_names hinit]
  have hdirectoryOf : a.directoryOf path (front ++ init) = b.directoryOf path (front ++ init) := by
    rw [directoryOf, directoryOf, h.bareOne.followLinks_append hfront h.one.directory,
      h.bareOther.followLinks_append hfront' h.other.directory, hway]
    split
    next place hfollow =>
      rw [hplace hfollow, hsame init List.prefix_rfl]
    all_goals rfl
  rw [makeDirectory_eq hsplit hname.1 h.one.silent, makeDirectory_eq hsplit hname.1 h.one.silent,
    ← hdirectoryOf]
  cases hparent : a.directoryOf path (front ++ init) with
  | error fault => exact Or.inl ⟨fault, rfl, rfl⟩
  | ok parent =>
    obtain ⟨rfl, hdirectory⟩ : parent = base ++ init ∧ a.get? (base ++ init) = some .directory := by
      rw [directoryOf, h.bareOne.followLinks_append hfront h.one.directory] at hparent
      split at hparent
      next place hfollow =>
        split at hparent
        next hdirectory =>
          cases hparent
          obtain rfl := hplace hfollow
          exact ⟨rfl, hdirectory⟩
        · cases hparent
      all_goals cases hparent
    have hdots : ¬ (name = "." ∨ name = "..") := by simp [hname.2.1, hname.2.2]
    have hadmits : ∀ {fs : FileSystem}, fs.get? (base ++ init) = some .directory →
        fs.get? (base ++ (init ++ [name])) = none → fs.Admits (base ++ (init ++ [name])) := by
      intro fs hparent hfree
      refine ⟨⟨name, by simp, hname⟩, ?_, by simp [hfree]⟩
      rwa [← List.append_assoc, List.dropLast_concat]
    simp only [hdots, if_false, List.append_assoc, ← h.same (init ++ [name]) List.prefix_rfl]
    cases hfree : a.get? (base ++ (init ++ [name])) with
    | some node => exact Or.inl ⟨.alreadyExists, by simp, by simp⟩
    | none =>
      refine Or.inr ⟨hadmits hdirectory hfree, hadmits ?_ ?_, by simp, by simp⟩
      · rw [← hsame init List.prefix_rfl, hdirectory]
      · rw [← h.same (init ++ [name]) List.prefix_rfl, hfree]

/-- Directories are made alike. -/
theorem agree_ensureDirectory (h : LeadsAlike a b path base names slashes) (hne : names ≠ [])
    (hagree : AgreeOn places a b) :
    Agree places (a.ensureDirectory path) (b.ensureDirectory path) := by
  rw [ensureDirectory, ensureDirectory, h.isDirectory_eq hne]
  rcases h.makeDirectory_cases hne with ⟨fault, hone, hother⟩ | ⟨hadmits, hadmits', hone, hother⟩
  · rw [hone, hother]
    exact ⟨rfl, hagree⟩
  · rw [hone, hother]
    exact ⟨rfl, hagree.put hadmits hadmits' _⟩

/-- A path leads alike after edits that leave the file systems agreeing along the names. -/
theorem edits {dirs files dirs' files' : Place → Prop} {after after' : FileSystem}
    (h : LeadsAlike a b path base names slashes) (hedits : Edits dirs files a after)
    (hedits' : Edits dirs' files' b after') (hagree : AgreeOn places after after')
    (hplaces : ∀ init, init <+: names → places (base ++ init)) :
    LeadsAlike after after' path base names slashes :=
  ⟨h.one.edits hedits, h.other.edits hedits', h.bareOne.edits hedits, h.bareOther.edits hedits',
    fun init hinit => hagree _ (hplaces init hinit)⟩

/-- The parent of a path leads alike. -/
theorem parent (h : LeadsAlike a b path base names slashes) (hdeep : names.dropLast ≠ [])
    {parent : Path} (hparent : path.parent? = some parent) :
    LeadsAlike a b parent base names.dropLast [] := by
  obtain ⟨parent', hparent', hone⟩ := h.one.parent hdeep
  obtain rfl : parent = parent' := Option.some.inj (hparent.symm.trans hparent')
  obtain ⟨parent', hparent', hother⟩ := h.other.parent hdeep
  obtain rfl : parent = parent' := Option.some.inj (hparent.symm.trans hparent')
  exact ⟨hone, hother, h.bareOne, h.bareOther,
    fun init hinit => h.same init (hinit.trans (List.dropLast_prefix names))⟩

/-- Directories are made alike, with those on the way to them. -/
theorem agree_createWithin (h : LeadsAlike a b path base names slashes) (hne : names ≠ [])
    (hagree : AgreeOn places a b) (hplaces : ∀ init, init <+: names → places (base ++ init))
    (steps : Nat) : Agree places (createWithin steps a path) (createWithin steps b path) := by
  induction steps generalizing path names slashes with
  | zero => exact ⟨rfl, hagree⟩
  | succ steps ih =>
    have hensured := h.agree_ensureDirectory hne hagree
    rw [createWithin, createWithin, if_neg (by simp [h.one.isEmpty_eq hne]),
      if_neg (by simp [h.one.isEmpty_eq hne])]
    rcases h.makeDirectory_cases hne with ⟨fault, hone, hother⟩ | ⟨-, -, hone, hother⟩
    · rw [hone, hother]
      split
      next parent hfault hparent =>
        have hdeep : names.dropLast ≠ [] := h.one.dropLast_ne_nil hne (hone.trans hfault)
        have hway := ih (h.parent hdeep hparent) hdeep
          fun init hinit => hplaces init (hinit.trans (List.dropLast_prefix names))
        have hedits := edits_createWithin steps a parent
        have hedits' := edits_createWithin steps b parent
        rcases hway.cases with ⟨fault, after, after', hstep, hstep', hleft⟩ |
          ⟨u, after, after', hstep, hstep', hleft⟩
        · rw [hstep, hstep']
          exact ⟨rfl, hleft⟩
        · rw [hstep] at hedits ⊢
          rw [hstep'] at hedits' ⊢
          exact (h.edits hedits hedits' hleft hplaces).agree_ensureDirectory hne hleft
      next => exact hensured
    · rw [hone, hother]
      exact hensured

/-- Directories are made alike, with those on the way to them. -/
theorem agree_createDirectories (h : LeadsAlike a b path base names slashes) (hne : names ≠ [])
    (hagree : AgreeOn places a b) (hplaces : ∀ init, init <+: names → places (base ++ init)) :
    Agree places (a.createDirectories path) (b.createDirectories path) :=
  h.agree_createWithin hne hagree hplaces _

end LeadsAlike

end Siteworks.FileSystem
