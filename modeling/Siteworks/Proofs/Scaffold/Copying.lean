import Mathlib
import Siteworks.Proofs.FileSystem.Listing
import Siteworks.Proofs.FileSystem.Ways
import Siteworks.Scaffold

/-!
# What a copy makes

A copy lays what is below its root over its target: where the root holds a directory or a file that
is not left behind, the target holds it too afterwards, and everywhere else the target is as it was.
It succeeds if no file is in the way of a directory and no directory in the way of a file.
-/

namespace Siteworks.Scaffold

open FileSystem (Edits OnWay)

/-- Neither place is the other or below it. -/
structure Apart (first second : Place) : Prop where
  /-- The first is not above the second. -/
  left : ¬ first <+: second
  /-- The second is not above the first. -/
  right : ¬ second <+: first

/-- What is below a place is apart from what is apart from it. -/
theorem Apart.outside {first second : Place} (h : Apart first second) (names : Place) :
    ¬ second <+: first ++ names := by
  intro hpre
  rcases List.prefix_or_prefix_of_prefix (List.prefix_append first names) hpre with hf | hs
  · exact h.left hf
  · exact h.right hs

/-- Being apart goes both ways. -/
theorem Apart.symm {first second : Place} (h : Apart first second) : Apart second first :=
  ⟨h.right, h.left⟩

/-- What is below places that are apart is apart. -/
theorem Apart.below {first second : Place} (h : Apart first second) (names more : Place) :
    Apart (first ++ names) (second ++ more) :=
  ⟨fun hpre => h.symm.outside more ((List.prefix_append _ _).trans hpre),
    fun hpre => h.outside names ((List.prefix_append _ _).trans hpre)⟩

/-- What is apart from a place is apart from everything in it. -/
theorem Apart.concat {first second : Place} (h : Apart first second) (name : String) :
    Apart first (second ++ [name]) := by
  simpa using h.below [] [name]

/-- What a directory lists to be copied. -/
theorem mem_entriesIn {fs : FileSystem} {root names : Place} {entry : Place × Node} :
    entry ∈ entriesIn fs root names ↔ ∃ name, entry.1 = names ++ [name] ∧
      fs.get? (root ++ names ++ [name]) = some entry.2 ∧ name ∉ excludedNames := by
  obtain ⟨place, node⟩ := entry
  simp only [entriesIn, List.mem_map, List.mem_filter, Prod.mk.injEq, Prod.exists,
    FileSystem.mem_children, Bool.not_eq_true']
  constructor
  · rintro ⟨name, node', ⟨hnode, hname⟩, rfl, rfl⟩
    exact ⟨name, rfl, hnode, by simpa using hname⟩
  · rintro ⟨name, rfl, hnode, hname⟩
    exact ⟨name, node, ⟨hnode, by simpa using hname⟩, rfl, rfl⟩

/-- The place is the target or below it. -/
def InTarget (base : Place) (name : String) (place : Place) : Prop := base ++ [name] <+: place

/-- Where a copy writes. -/
structure Target (fs : FileSystem) (target : Path) (base : Place) (name : String) : Prop where
  /-- The target is a name in the base. -/
  leads : fs.Leads target base [name] []
  /-- There are no links below the base. -/
  bare : fs.Bare base

/-- Where names behind a target lead: on from a base by a front of at most one name. The tree at the
end of the front is what a copy makes. -/
structure Landing (fs : FileSystem) (target : Path) (base front : Place) : Prop where
  /-- The front is at most one name. -/
  short : front.length ≤ 1
  /-- The base is a directory. -/
  directory : fs.get? base = some .directory
  /-- Names behind the target lead on by the front and by themselves. -/
  leads : ∀ names, front ++ names ≠ [] → (∀ other ∈ names, IsName other) →
    ∃ slashes, fs.Leads (target.join (.ofNames names)) base (front ++ names) slashes ∧
      (names ≠ [] → slashes = [])
  /-- The parent of such a path leads to where all but the last of the names do. -/
  parent : ∀ names, names ≠ [] → (∀ other ∈ names, IsName other) →
    ∃ parent, (target.join (.ofNames names)).parent? = some parent ∧
      (front ++ names.dropLast ≠ [] ∧ fs.Leads parent base (front ++ names.dropLast) [] ∨
        front ++ names.dropLast = [] ∧ (parent.isEmpty = true ∨ fs.isDirectory parent = true))
  /-- There are no links below the base. -/
  bare : fs.Bare base

/-- Where a copy reads, and where it writes what it has read. -/
structure Course (fs : FileSystem) (source target : Path) (root base front : Place) :
    Prop extends Landing fs target base front where
  /-- Names behind the source start at the root. -/
  source : fs.Enters source root
  /-- The root and the tree that the copy makes are apart. -/
  apart : Apart root (base ++ front)

namespace Landing

variable {fs after : FileSystem} {source target : Path} {base front : Place}

/-- Copies write where they did after an edit. -/
theorem edits {dirs files : Place → Prop} (h : Landing fs target base front)
    (hedits : Edits dirs files fs after) : Landing after target base front := by
  refine ⟨h.short, hedits.directory h.directory, fun names hne hnames => ?_,
    fun names hne hnames => ?_, h.bare.edits hedits⟩
  · obtain ⟨slashes, hleads, hslashes⟩ := h.leads names hne hnames
    exact ⟨slashes, hleads.edits hedits, hslashes⟩
  · obtain ⟨parent, hparent, ⟨hdeep, hleads⟩ | ⟨hflat, hthere⟩⟩ := h.parent names hne hnames
    · exact ⟨parent, hparent, Or.inl ⟨hdeep, hleads.edits hedits⟩⟩
    · exact ⟨parent, hparent, Or.inr ⟨hflat, hthere.imp_right hedits.isDirectory⟩⟩

/-- Names behind the target lead to a place in the tree. -/
theorem join (h : Landing fs target base front) {names : List String} (hne : names ≠ [])
    (hnames : ∀ other ∈ names, IsName other) :
    front ++ names ≠ [] ∧ fs.Leads (target.join (.ofNames names)) base (front ++ names) [] := by
  have hdeep : front ++ names ≠ [] := List.append_ne_nil_of_right_ne_nil front hne
  obtain ⟨slashes, hleads, hslashes⟩ := h.leads names hdeep hnames
  exact ⟨hdeep, hslashes hne ▸ hleads⟩

/-- A directory made in the tree comes with those on the way to it, and with nothing else. -/
theorem createDirectories (h : Landing fs target base front) {path : Path}
    {names slashes : List String} (hne : front ++ names ≠ [])
    (hleads : fs.Leads path base (front ++ names) slashes) {result : Except IoFault Unit}
    (hmake : fs.createDirectories path = (result, after)) :
    Edits (base ++ front <+: ·) (base ++ front <+: ·) fs after ∧
      (result = .ok () → ∀ m,
        (m <+: names → after.get? (base ++ front ++ m) = some .directory) ∧
        (¬ m <+: names → after.get? (base ++ front ++ m) = fs.get? (base ++ front ++ m))) := by
  obtain ⟨hedits, hmade⟩ := hleads.edits_createDirectories h.bare
  rw [hmake] at hedits hmade
  refine ⟨hedits.mono ?_ fun _ => False.elim, fun hok m => ⟨?_, fun hm => ?_⟩⟩
  · rintro place ⟨init, hinitNe, hinit, rfl⟩
    rcases List.prefix_or_prefix_of_prefix (List.prefix_append front names) hinit with hpre | hpre
    · exact (List.prefix_append_right_inj base).mpr hpre
    · have hlength := h.short
      have hpos := List.length_pos_of_ne_nil hinitNe
      rw [hpre.eq_of_length_le (by omega)]
  · rintro ⟨more, rfl⟩
    have hwhole := hmade hok
    rw [show base ++ (front ++ (m ++ more)) = base ++ front ++ m ++ more by simp] at hwhole
    exact FileSystem.get?_eq_directory_of_append hwhole
  · refine hedits.get?_eq ?_ not_false
    rintro ⟨init, -, hinit, hsame⟩
    rw [List.append_assoc] at hsame
    obtain rfl := List.append_cancel_left hsame
    exact hm ((List.prefix_append_right_inj front).mp hinit)

/-- The directory for a file comes with those on the way to it, and with nothing else. -/
theorem createParent (h : Landing fs target base front) {names : List String} (hne : names ≠ [])
    (hnames : ∀ other ∈ names, IsName other) :
    ∃ parent, (target.join (.ofNames names)).parent? = some parent ∧
      ∀ {result : Except IoFault Unit} {after : FileSystem},
        fs.createDirectories parent = (result, after) →
        Edits (base ++ front <+: ·) (base ++ front <+: ·) fs after ∧
          (result = .ok () → ∀ m,
            (m <+: names.dropLast → after.get? (base ++ front ++ m) = some .directory) ∧
            (¬ m <+: names.dropLast →
              after.get? (base ++ front ++ m) = fs.get? (base ++ front ++ m))) := by
  obtain ⟨parent, hparent, ⟨hdeep, hleads⟩ | ⟨hflat, hthere⟩⟩ := h.parent names hne hnames
  · exact ⟨parent, hparent, h.createDirectories hdeep hleads⟩
  · refine ⟨parent, hparent, fun {result after} hmake => ?_⟩
    obtain ⟨rfl, hdrop⟩ := List.append_eq_nil_iff.mp hflat
    rw [FileSystem.createDirectories, FileSystem.createWithin_eq_self _ hthere] at hmake
    cases hmake
    refine ⟨Edits.refl fs, fun _ m => ⟨fun hm => ?_, fun _ => rfl⟩⟩
    rw [hdrop] at hm
    obtain rfl := List.prefix_nil.mp hm
    simpa using h.directory

/-- A file written in the tree changes nothing else. -/
theorem edits_write (h : Landing fs target base front) {names : List String} (hne : names ≠ [])
    (hnames : ∀ other ∈ names, IsName other) {content : Content}
    (hwrite : fs.write (target.join (.ofNames names)) content = .ok after) :
    Edits (base ++ front <+: ·) (base ++ front <+: ·) fs after := by
  obtain ⟨hdeep, hleads⟩ := h.join hne hnames
  refine (hleads.edits_of_write hdeep h.bare hwrite).mono (fun _ => False.elim) ?_
  rintro place rfl
  exact ⟨names, by simp⟩

/-- A copied file changes nothing but the tree, wherever it comes from. -/
theorem edits_copyEntry (h : Landing fs target base front) {names : List String} (hne : names ≠ [])
    (hnames : ∀ other ∈ names, IsName other) {result : Except GenerationError Unit}
    (hcopy : copyEntry fs source (target.join (.ofNames names)) = (result, after)) :
    Edits (base ++ front <+: ·) (base ++ front <+: ·) fs after := by
  obtain ⟨parent, hparent, hmakes⟩ := h.createParent hne hnames
  unfold copyEntry at hcopy
  simp only [hparent] at hcopy
  split at hcopy
  next hmake =>
    cases hcopy
    exact (hmakes hmake).1
  next middle hmake =>
    have hedits := (hmakes hmake).1
    split at hcopy
    · cases hcopy
      exact hedits
    next hfile =>
      cases hcopy
      unfold FileSystem.copyFile at hfile
      split at hfile
      · cases hfile
      · exact hedits.trans ((h.edits hedits).edits_write hne hnames hfile)

/-- A copy of entries changes nothing but the tree, wherever they come from. -/
theorem edits_copyEntries {root : Place} {steps count : Nat} {todo : List (Place × Node)}
    {result : Except GenerationError Nat} (h : Landing fs target base front)
    (htodo : ∀ entry ∈ todo, (∀ other ∈ entry.1, IsName other) ∧ front ++ entry.1 ≠ [] ∧
      (entry.1 = [] → entry.2 = .directory))
    (hcopy : copyEntries root source target steps fs todo count = (result, after)) :
    Edits (base ++ front <+: ·) (base ++ front <+: ·) fs after := by
  induction steps generalizing fs todo count with
  | zero =>
    cases todo <;>
    · cases hcopy
      exact Edits.refl _
  | succ steps ih =>
    rcases todo with _ | ⟨⟨names, node⟩, rest⟩
    · cases hcopy
      exact Edits.refl _
    · obtain ⟨hnames, hdeep, hroot⟩ := htodo _ List.mem_cons_self
      have hrest : ∀ entry ∈ rest, (∀ other ∈ entry.1, IsName other) ∧ front ++ entry.1 ≠ [] ∧
          (entry.1 = [] → entry.2 = .directory) :=
        fun entry he => htodo entry (List.mem_cons_of_mem _ he)
      cases node with
      | link linked => exact ih h hrest hcopy
      | file content =>
        have hne : names ≠ [] := fun hnil => absurd (hroot hnil) nofun
        simp only [copyEntries] at hcopy
        split at hcopy
        next hentry =>
          cases hcopy
          exact h.edits_copyEntry hne hnames hentry
        next hentry =>
          have hfirst := h.edits_copyEntry hne hnames hentry
          exact hfirst.trans (ih (h.edits hfirst) hrest hcopy)
      | directory =>
        obtain ⟨slashes, hleads, -⟩ := h.leads names hdeep hnames
        simp only [copyEntries] at hcopy
        split at hcopy
        next hmake =>
          cases hcopy
          exact (h.createDirectories hdeep hleads hmake).1
        next hmake =>
          have hfirst := (h.createDirectories hdeep hleads hmake).1
          refine hfirst.trans (ih (h.edits hfirst) (fun entry he => ?_) hcopy)
          rcases List.mem_append.mp he with he | he
          · obtain ⟨first, hplace, hnode, -⟩ := mem_entriesIn.mp he
            rw [hplace]
            refine ⟨fun other hother => ?_, by simp, by simp⟩
            rcases List.mem_append.mp hother with hother | hother
            · exact hnames other hother
            · have hsome : (fs.get? (root ++ names ++ [first])).isSome := by rw [hnode]; rfl
              exact FileSystem.isName_of_get? hsome other hother
          · exact hrest entry he

end Landing

namespace Target

variable {fs after : FileSystem} {source target : Path} {base : Place} {name : String}

/-- Copies write where they did after an edit. -/
theorem edits {dirs files : Place → Prop} (h : Target fs target base name)
    (hedits : Edits dirs files fs after) : Target after target base name :=
  ⟨h.leads.edits hedits, h.bare.edits hedits⟩

/-- Names behind the target lead on from its name. -/
theorem join (h : Target fs target base name) {names : List String} (hne : names ≠ [])
    (hnames : ∀ other ∈ names, IsName other) :
    fs.Leads (target.join (.ofNames names)) base (name :: names) [] := by
  have hpath : Path.ofNames names = ⟨names⟩ := by simp [Path.ofNames, hne]
  rw [hpath]
  exact h.leads.join (List.cons_ne_nil _ _) hne hnames

/-- A path behind the target has a parent in it. -/
theorem parent (h : Target fs target base name) {names : List String} (hne : names ≠ [])
    (hnames : ∀ other ∈ names, IsName other) :
    ∃ parent, (target.join (.ofNames names)).parent? = some parent ∧
      fs.Leads parent base (name :: names.dropLast) [] := by
  have hdrop : (name :: names).dropLast = name :: names.dropLast :=
    List.dropLast_cons_of_ne_nil hne
  obtain ⟨parent, hparent, hleads⟩ := (h.join hne hnames).parent (by simp [hdrop])
  exact ⟨parent, hparent, hdrop ▸ hleads⟩

/-- What is copied to the target lands at its name. -/
theorem landing (h : Target fs target base name) : Landing fs target base [name] where
  short := Nat.le_refl 1
  directory := h.leads.directory
  bare := h.bare
  leads names _ hnames := by
    cases names with
    | nil => exact ⟨[""], h.leads.join_nil (List.cons_ne_nil _ _), fun hne => absurd rfl hne⟩
    | cons first rest => exact ⟨[], h.join (List.cons_ne_nil _ _) hnames, fun _ => rfl⟩
  parent names hne hnames := by
    obtain ⟨parent, hparent, hleads⟩ := h.parent hne hnames
    exact ⟨parent, hparent, Or.inl ⟨List.cons_ne_nil _ _, hleads⟩⟩

end Target

/-- What the root holds along some names is laid over a tree, and the rest of the tree is kept. -/
def Lays (root tree names : Place) (fs after : FileSystem) : Prop :=
  ∀ m, (m <+: names → after.get? (tree ++ m) = fs.get? (root ++ m)) ∧
    (¬ m <+: names → after.get? (tree ++ m) = fs.get? (tree ++ m))

namespace Course

variable {fs after : FileSystem} {source target : Path} {root base front : Place}

/-- Copies read and write where they did after an edit. -/
theorem edits {dirs files : Place → Prop} (h : Course fs source target root base front)
    (hedits : Edits dirs files fs after) : Course after source target root base front :=
  ⟨h.toLanding.edits hedits, h.source.edits hedits, h.apart⟩

/-- What is below the root stays as it is while the tree is edited. -/
theorem get?_root (h : Course fs source target root base front)
    (hedits : Edits (base ++ front <+: ·) (base ++ front <+: ·) fs after) (names : Place) :
    after.get? (root ++ names) = fs.get? (root ++ names) :=
  hedits.get?_eq (h.apart.outside names) (h.apart.outside names)

/-- Names behind the source lead on from the root. -/
theorem leads_source (h : Course fs source target root base front) {names : List String}
    (hne : names ≠ []) (hnames : ∀ other ∈ names, IsName other) :
    fs.Leads (source.join (.ofNames names)) root names [] := by
  have hpath : Path.ofNames names = ⟨names⟩ := by simp [Path.ofNames, hne]
  rw [hpath]
  exact h.source.leads hne hnames

/-- A directory that is copied is there, and nothing but the way to it has changed. -/
theorem lays_directory (h : Course fs source target root base front) {names : List String}
    (hdeep : front ++ names ≠ []) (hdirectory : fs.get? (root ++ names) = some .directory)
    {result : Except IoFault Unit}
    (hmake : fs.createDirectories (target.join (.ofNames names)) = (result, after)) :
    Edits (base ++ front <+: ·) (base ++ front <+: ·) fs after ∧
      (result = .ok () → Lays root (base ++ front) names fs after) := by
  have hsome : (fs.get? (root ++ names)).isSome := by rw [hdirectory]; rfl
  obtain ⟨slashes, hleads, -⟩ := h.leads names hdeep (FileSystem.isName_of_get? hsome)
  obtain ⟨hedits, hmade⟩ := h.createDirectories hdeep hleads hmake
  refine ⟨hedits, fun hok m => ⟨fun hm => ?_, (hmade hok m).2⟩⟩
  obtain ⟨more, rfl⟩ := hm
  rw [← List.append_assoc] at hdirectory
  rw [(hmade hok m).1 (List.prefix_append m more),
    FileSystem.get?_eq_directory_of_append hdirectory]

/-- To copy a file is to write its content to the tree. -/
theorem copyFile_eq (h : Course fs source target root base front) {names : List String}
    {content : Content} (hne : names ≠ [])
    (hfile : fs.get? (root ++ names) = some (.file content)) :
    fs.copyFile (source.join (.ofNames names)) (target.join (.ofNames names)) =
      fs.write (target.join (.ofNames names)) content := by
  have hsome : (fs.get? (root ++ names)).isSome := by rw [hfile]; rfl
  have hnames := FileSystem.isName_of_get? hsome
  have hsource := h.leads_source hne hnames
  obtain ⟨hdeep, htarget⟩ := h.join hne hnames
  have hdifferent : fs.sameFile (source.join (.ofNames names)) (target.join (.ofNames names)) =
      false := by
    unfold FileSystem.sameFile
    rw [hsource.locate_eq hne hfile nofun]
    cases hlocate : fs.locate (target.join (.ofNames names)) with
    | error fault => rfl
    | ok place =>
      obtain rfl := htarget.eq_of_locate hdeep h.bare hlocate
      refine decide_eq_false fun hsame => h.apart.outside names ?_
      rw [hsame]
      exact ⟨names, by simp⟩
  rw [FileSystem.copyFile, hsource.read_eq hne hfile, hdifferent]
  rfl

/-- A file that is copied is there with the directories on the way to it, and nothing else has
changed. -/
theorem lays_file (h : Course fs source target root base front) {names : List String}
    {content : Content} (hne : names ≠ [])
    (hfile : fs.get? (root ++ names) = some (.file content)) {result : Except GenerationError Unit}
    (hcopy : copyEntry fs (source.join (.ofNames names)) (target.join (.ofNames names)) =
      (result, after)) :
    Edits (base ++ front <+: ·) (base ++ front <+: ·) fs after ∧
      (result = .ok () → Lays root (base ++ front) names fs after) := by
  have hsome : (fs.get? (root ++ names)).isSome := by rw [hfile]; rfl
  have hnames := FileSystem.isName_of_get? hsome
  obtain ⟨hdeep, hleads⟩ := h.join hne hnames
  obtain ⟨parent, hparent, hmakes⟩ := h.createParent hne hnames
  refine ⟨h.edits_copyEntry hne hnames hcopy, ?_⟩
  unfold copyEntry at hcopy
  simp only [hparent] at hcopy
  split at hcopy
  next =>
    cases hcopy
    exact nofun
  next middle hmake =>
    obtain ⟨hedits, hmade⟩ := hmakes hmake
    have h' := h.edits hedits
    have hfile' : middle.get? (root ++ names) = some (.file content) := by
      rw [h.get?_root hedits, hfile]
    have hleads' := hleads.edits hedits
    rw [h'.copyFile_eq hne hfile'] at hcopy
    split at hcopy
    · cases hcopy
      exact nofun
    next written hwrite =>
      cases hcopy
      obtain ⟨hadmits, rfl⟩ := (hleads'.write_eq_ok_iff hdeep h'.bare).mp hwrite
      intro _ m
      rw [FileSystem.get?_put hadmits, ← List.append_assoc]
      by_cases hm : m = names
      · subst hm
        rw [if_pos rfl]
        exact ⟨fun _ => hfile.symm, fun hnot => absurd List.prefix_rfl hnot⟩
      · rw [if_neg fun hsame => hm (List.append_cancel_left hsame).symm]
        refine ⟨?_, fun hnot => (hmade rfl m).2 fun hdrop => hnot ?_⟩
        · rintro ⟨more, rfl⟩
          have hmore : more ≠ [] := by
            rintro rfl
            exact hm (List.append_nil m).symm
          rw [List.dropLast_append_of_ne_nil hmore] at hmade
          rw [← List.append_assoc] at hsome
          rw [(hmade rfl m).1 (List.prefix_append m _),
            FileSystem.get?_eq_directory hsome hmore]
        · exact hdrop.trans (List.dropLast_prefix names)

end Course

/-- What is copied of something that a root holds: directories and files that are not left
behind. -/
def Copied (fs : FileSystem) (root names more : Place) : Prop :=
  isExcluded more = false ∧
    ∃ node, fs.get? (root ++ names ++ more) = some node ∧ ∀ target, node ≠ .link target

/-- The entries on a list make a place: they are below it, or it is copied with one of them. -/
def Makes (fs : FileSystem) (root : Place) (todo : List (Place × Node)) (m : Place) : Prop :=
  ∃ entry ∈ todo, (∀ target, entry.2 ≠ .link target) ∧
    (m <+: entry.1 ∨ ∃ more, m = entry.1 ++ more ∧ Copied fs root entry.1 more)

/-- The entries on a list are what the root holds. -/
def Listed (fs : FileSystem) (root : Place) (todo : List (Place × Node)) : Prop :=
  ∀ entry ∈ todo, fs.get? (root ++ entry.1) = some entry.2

/-- What a directory lists is there. -/
theorem listed_entriesIn (fs : FileSystem) (root names : Place) :
    Listed fs root (entriesIn fs root names) := by
  intro entry hentry
  obtain ⟨name, hplace, hnode, -⟩ := mem_entriesIn.mp hentry
  rw [hplace, ← List.append_assoc]
  exact hnode

/-- An entry that makes way for what its directory lists leaves entries that are there. -/
theorem Listed.entriesIn_append {fs : FileSystem} {root : Place} {rest : List (Place × Node)}
    (h : Listed fs root rest) (names : Place) :
    Listed fs root (entriesIn fs root names ++ rest) := fun entry he =>
  (List.mem_append.mp he).elim (listed_entriesIn fs root names entry) (h entry)

/-- What a directory lists is not the tree itself. -/
theorem append_ne_nil_of_entriesIn {fs : FileSystem} {root front : Place}
    {rest : List (Place × Node)} (h : ∀ entry ∈ rest, front ++ entry.1 ≠ []) (names : Place) :
    ∀ entry ∈ entriesIn fs root names ++ rest, front ++ entry.1 ≠ [] := by
  intro entry he
  rcases List.mem_append.mp he with he | he
  · obtain ⟨first, hplace, -⟩ := mem_entriesIn.mp he
    simp [hplace]
  · exact h entry he

/-- What is made depends on the root only. -/
theorem makes_congr {fs after : FileSystem} {root : Place}
    (h : ∀ m, after.get? (root ++ m) = fs.get? (root ++ m)) {todo : List (Place × Node)}
    {m : Place} : Makes after root todo m ↔ Makes fs root todo m := by
  simp only [Makes, Copied, List.append_assoc, h]

/-- What entries make together. -/
theorem makes_cons {fs : FileSystem} {root names m : Place} {node : Node}
    {rest : List (Place × Node)} :
    Makes fs root ((names, node) :: rest) m ↔ ((∀ target, node ≠ .link target) ∧
      (m <+: names ∨ ∃ more, m = names ++ more ∧ Copied fs root names more)) ∨
        Makes fs root rest m := by
  simp only [Makes, List.exists_mem_cons_iff]

/-- What two lists of entries make together. -/
theorem makes_append {fs : FileSystem} {root m : Place} {first second : List (Place × Node)} :
    Makes fs root (first ++ second) m ↔ Makes fs root first m ∨ Makes fs root second m := by
  simp only [Makes, List.mem_append, or_and_right, exists_or]

/-- A link makes nothing. -/
theorem makes_cons_link {fs : FileSystem} {root names m : Place} {target : Path}
    {rest : List (Place × Node)} :
    Makes fs root ((names, .link target) :: rest) m ↔ Makes fs root rest m := by
  rw [makes_cons]
  exact or_iff_right fun h => h.1 target rfl

/-- A file makes itself and the directories above it. -/
theorem makes_cons_file {fs : FileSystem} {root names m : Place} {content : Content}
    {rest : List (Place × Node)} (hfile : fs.get? (root ++ names) = some (.file content)) :
    Makes fs root ((names, .file content) :: rest) m ↔ m <+: names ∨ Makes fs root rest m := by
  rw [makes_cons]
  refine or_congr_left ⟨?_, fun h => ⟨nofun, Or.inl h⟩⟩
  rintro ⟨-, hm | ⟨more, rfl, -, node, hnode, -⟩⟩
  · exact hm
  · by_cases hmore : more = []
    · rw [hmore, List.append_nil]
    · have hsome : (fs.get? (root ++ names ++ more)).isSome := by rw [hnode]; rfl
      rw [FileSystem.get?_eq_directory hsome hmore] at hfile
      cases hfile

/-- A directory makes itself, the directories above it, and what its entries make. -/
theorem makes_cons_directory {fs : FileSystem} {root names m : Place}
    {rest : List (Place × Node)} :
    Makes fs root ((names, .directory) :: rest) m ↔
      m <+: names ∨ Makes fs root (entriesIn fs root names ++ rest) m := by
  rw [makes_cons, makes_append, ← or_assoc]
  refine or_congr_left ⟨?_, ?_⟩
  · rintro ⟨-, hm | ⟨more, rfl, hkept, node, hnode, hlink⟩⟩
    · exact Or.inl hm
    · cases more with
      | nil => exact Or.inl (by simp)
      | cons first more =>
        right
        have hassoc : root ++ names ++ first :: more = root ++ names ++ [first] ++ more := by simp
        rw [hassoc] at hnode
        simp only [isExcluded, List.any_cons, Bool.or_eq_false_iff] at hkept
        have hname : first ∉ excludedNames := by simpa using hkept.1
        have hfirst : ∃ node', fs.get? (root ++ names ++ [first]) = some node' ∧
            ∀ target, node' ≠ .link target := by
          cases more with
          | nil => exact ⟨node, by simpa using hnode, hlink⟩
          | cons second more =>
            have hsome : (fs.get? (root ++ names ++ [first] ++ second :: more)).isSome := by
              rw [hnode]
              rfl
            exact ⟨.directory, FileSystem.get?_eq_directory hsome (List.cons_ne_nil _ _), nofun⟩
        obtain ⟨node', hnode', hlink'⟩ := hfirst
        refine ⟨(names ++ [first], node'), mem_entriesIn.mpr ⟨first, rfl, hnode', hname⟩, hlink',
          Or.inr ⟨more, by simp, hkept.2, node, ?_, hlink⟩⟩
        rw [← hnode]
        simp
  · rintro (hm | ⟨entry, hentry, hlink, hcases⟩)
    · exact ⟨nofun, Or.inl hm⟩
    · obtain ⟨first, hplace, hnode, hname⟩ := mem_entriesIn.mp hentry
      obtain ⟨place, node⟩ := entry
      obtain rfl : place = names ++ [first] := hplace
      have hself : Copied fs root names [first] := by
        refine ⟨by simpa [isExcluded] using hname, node, hnode, hlink⟩
      refine ⟨nofun, ?_⟩
      rcases hcases with hm | ⟨more, rfl, hkept, node', hnode', hlink'⟩
      · rcases List.prefix_concat_iff.mp hm with rfl | hm
        · exact Or.inr ⟨[first], rfl, hself⟩
        · exact Or.inl hm
      · refine Or.inr ⟨first :: more, by simp, ?_, node', ?_, hlink'⟩
        · simp only [isExcluded, List.any_cons, Bool.or_eq_false_iff]
          exact ⟨by simpa using hname, hkept⟩
        · rw [← hnode']
          simp

/-- What the entries on a list make is laid over a tree, and the rest of the tree is kept. -/
def LaysAll (root tree : Place) (todo : List (Place × Node)) (fs after : FileSystem) : Prop :=
  ∀ m, (Makes fs root todo m → after.get? (tree ++ m) = fs.get? (root ++ m)) ∧
    (¬ Makes fs root todo m → after.get? (tree ++ m) = fs.get? (tree ++ m))

/-- To lay one entry over a tree and then those that are left is to lay all of them. -/
theorem Lays.laysAll {fs middle after : FileSystem} {root tree names : Place}
    {todo rest : List (Place × Node)} (hfirst : Lays root tree names fs middle)
    (hrest : LaysAll root tree rest middle after)
    (hroot : ∀ m, middle.get? (root ++ m) = fs.get? (root ++ m))
    (hmakes : ∀ m, Makes fs root todo m ↔ m <+: names ∨ Makes fs root rest m) :
    LaysAll root tree todo fs after := by
  intro m
  obtain ⟨hlaid, hkept⟩ := hrest m
  rw [makes_congr hroot] at hlaid hkept
  rw [hmakes m]
  constructor
  · intro hm
    by_cases hlater : Makes fs root rest m
    · rw [hlaid hlater, hroot m]
    · rw [hkept hlater]
      exact (hfirst m).1 (hm.resolve_right hlater)
  · intro hnot
    rw [hkept fun hlater => hnot (Or.inr hlater)]
    exact (hfirst m).2 fun hm => hnot (Or.inl hm)

/-- Nothing is laid where nothing is left. -/
theorem laysAll_nil (root tree : Place) (fs : FileSystem) : LaysAll root tree [] fs fs := by
  intro m
  refine ⟨?_, fun _ => rfl⟩
  rintro ⟨entry, hentry, -⟩
  cases hentry

/-- A copy of entries that succeeds has laid all of them over the tree. -/
theorem Course.lays_entries {source target : Path} {root base front : Place}
    {steps count total : Nat} {fs after : FileSystem} {todo : List (Place × Node)}
    (h : Course fs source target root base front) (hlisted : Listed fs root todo)
    (hdeep : ∀ entry ∈ todo, front ++ entry.1 ≠ [])
    (hcopy : copyEntries root source target steps fs todo count = (.ok total, after)) :
    LaysAll root (base ++ front) todo fs after := by
  induction steps generalizing fs todo count with
  | zero =>
    cases todo with
    | nil =>
      cases hcopy
      exact laysAll_nil root _ _
    | cons entry rest => cases hcopy
  | succ steps ih =>
    rcases todo with _ | ⟨⟨names, node⟩, rest⟩
    · cases hcopy
      exact laysAll_nil root _ _
    · have hnode : fs.get? (root ++ names) = some node := hlisted _ List.mem_cons_self
      have hrest : Listed fs root rest := fun entry he => hlisted entry (List.mem_cons_of_mem _ he)
      have hself : front ++ names ≠ [] := hdeep _ List.mem_cons_self
      have hothers : ∀ entry ∈ rest, front ++ entry.1 ≠ [] :=
        fun entry he => hdeep entry (List.mem_cons_of_mem _ he)
      cases node with
      | link linked =>
        intro m
        rw [makes_cons_link]
        exact ih h hrest hothers hcopy m
      | file content =>
        have hne : names ≠ [] := by
          rintro rfl
          rw [List.append_nil, h.source.directory] at hnode
          cases hnode
        simp only [copyEntries] at hcopy
        split at hcopy
        · cases hcopy
        next middle hentry =>
          obtain ⟨hfirst, hlaid⟩ := h.lays_file hne hnode hentry
          have hroot := h.get?_root hfirst
          have hrest' : Listed middle root rest := fun entry he => by rw [hroot, hrest entry he]
          have hlays := ih (h.edits hfirst) hrest' hothers hcopy
          exact (hlaid rfl).laysAll hlays hroot fun m => makes_cons_file hnode
      | directory =>
        simp only [copyEntries] at hcopy
        split at hcopy
        · cases hcopy
        next middle hmake =>
          obtain ⟨hfirst, hlaid⟩ := h.lays_directory hself hnode hmake
          have hroot := h.get?_root hfirst
          have hrest' : Listed middle root (entriesIn fs root names ++ rest) :=
            fun entry he => by rw [hroot, hrest.entriesIn_append names entry he]
          have hlays :=
            ih (h.edits hfirst) hrest' (append_ne_nil_of_entriesIn hothers names) hcopy
          exact (hlaid rfl).laysAll hlays hroot fun m => makes_cons_directory

/-- A tree of what is below a place, by the names that lead there. -/
abbrev Tree := Place → Option Node

/-- The tree of what is below a place of a file system. -/
def treeAt (fs : FileSystem) (place : Place) : Tree := fun names => fs.get? (place ++ names)

/-- What a copy leaves of a tree: directories and files of the scaffold that are not left behind,
and where there are none, what was there before. -/
def overlay (scaffold before : Tree) : Tree := fun names =>
  if isExcluded names then before names
  else match scaffold names with
    | none | some (.link _) => before names
    | some node => some node

/-- The whole root makes what is copied of it. -/
theorem makes_root {fs : FileSystem} {root m : Place}
    (hroot : fs.get? root = some .directory) :
    Makes fs root [([], .directory)] m ↔ Copied fs root [] m := by
  have hself : Copied fs root [] [] := ⟨rfl, .directory, by simpa using hroot, nofun⟩
  simp only [Makes, List.mem_singleton, exists_eq_left, List.prefix_nil, List.nil_append]
  constructor
  · rintro ⟨-, rfl | ⟨more, rfl, hcopied⟩⟩
    · exact hself
    · exact hcopied
  · exact fun hcopied => ⟨nofun, Or.inr ⟨m, rfl, hcopied⟩⟩

/-- Where something is copied the overlay has it, and elsewhere it has what was there before. -/
theorem overlay_cases (fs : FileSystem) (root : Place) (before : Tree) (m : Place) :
    (Copied fs root [] m → overlay (treeAt fs root) before m = fs.get? (root ++ m)) ∧
    (¬ Copied fs root [] m → overlay (treeAt fs root) before m = before m) := by
  unfold overlay Copied treeAt
  cases hexcluded : isExcluded m with
  | true => simp
  | false =>
    cases hnode : fs.get? (root ++ m) with
    | none => simp [hnode]
    | some node => cases node <;> simp [hnode]

section Whole

variable {fs after : FileSystem} {source target : Path} {root base : Place} {name : String}

/-- The entries that a copy of a directory starts with. -/
def initialEntries (fs : FileSystem) (source : Path) (root : Place) : List (Place × Node) :=
  if fs.isLink source then entriesIn fs root [] else [([], .directory)]

/-- A copy of a directory is a copy of the entries that it starts with. -/
theorem copyTree_eq (hlocate : fs.locate source = .ok root)
    (hdirectory : fs.get? root = some .directory) :
    copyTree fs source target =
      copyEntries root source target ((fs.nodes.size + 2) * (fs.nodes.size + 2)) fs
        (initialEntries fs source root) 0 := by
  unfold copyTree
  rw [hlocate]
  simp only [hdirectory, ite_true]
  rfl

/-- Without a directory to copy, a copy fails and changes nothing. -/
theorem copyTree_eq_error
    (h : ∀ root, fs.locate source = .ok root → fs.get? root ≠ some .directory) :
    copyTree fs source target = (.error (.io source .scaffoldMissing), fs) := by
  unfold copyTree
  split
  · rfl
  next root hlocate => rw [if_neg (h root hlocate)]

/-- A copy that succeeds is one of a directory. -/
theorem exists_of_copyTree {count : Nat} (hcopy : copyTree fs source target = (.ok count, after)) :
    ∃ root, fs.locate source = .ok root ∧ fs.get? root = some .directory := by
  by_contra hmissing
  rw [copyTree_eq_error fun root hlocate hdirectory => hmissing ⟨root, hlocate, hdirectory⟩] at hcopy
  cases hcopy

/-- What a copy starts with is there. -/
theorem listed_initialEntries (source : Path) (hdirectory : fs.get? root = some .directory) :
    Listed fs root (initialEntries fs source root) := by
  unfold initialEntries
  split
  · exact listed_entriesIn fs root []
  · simpa [Listed] using hdirectory

/-- What the entries of a directory make is what is copied of it, the directory apart. -/
theorem makes_entriesIn (hdirectory : fs.get? root = some .directory) {m : Place} (hm : m ≠ []) :
    Makes fs root (entriesIn fs root []) m ↔ Copied fs root [] m := by
  rw [← makes_root hdirectory, makes_cons_directory, List.append_nil]
  exact (or_iff_right fun hpre => hm (List.prefix_nil.mp hpre)).symm

/-- What a copy starts with makes what is copied of the root. -/
theorem makes_initialEntries (source : Path) (hdirectory : fs.get? root = some .directory)
    {m : Place} (hm : m ≠ []) :
    Makes fs root (initialEntries fs source root) m ↔ Copied fs root [] m := by
  unfold initialEntries
  split
  · exact makes_entriesIn hdirectory hm
  · exact makes_root hdirectory

/-- A copy changes nothing but the target, wherever it comes from and however it ends. -/
theorem Target.edits_copyTree {result : Except GenerationError Nat}
    (h : Target fs target base name) (hcopy : copyTree fs source target = (result, after)) :
    Edits (InTarget base name) (InTarget base name) fs after := by
  by_cases hfound : ∃ root, fs.locate source = .ok root ∧ fs.get? root = some .directory
  · obtain ⟨root, hlocate, hdirectory⟩ := hfound
    rw [copyTree_eq hlocate hdirectory] at hcopy
    refine h.landing.edits_copyEntries (fun entry hentry => ?_) hcopy
    unfold initialEntries at hentry
    split at hentry
    · obtain ⟨first, hplace, hnode, -⟩ := mem_entriesIn.mp hentry
      have hsome : (fs.get? (root ++ [] ++ [first])).isSome := by rw [hnode]; rfl
      rw [hplace]
      exact ⟨FileSystem.isName_of_get? hsome, by simp, by simp⟩
    · obtain rfl := List.mem_singleton.mp hentry
      exact ⟨nofun, by simp, fun _ => rfl⟩
  · rw [copyTree_eq_error fun root hlocate hdirectory => hfound ⟨root, hlocate, hdirectory⟩] at hcopy
    cases hcopy
    exact Edits.refl _

/-- A copy that succeeds has laid what is copied of its root over the target. -/
theorem Target.copyTree_lays {count : Nat} (h : Target fs target base name)
    (hlocate : fs.locate source = .ok root) (hapart : Apart root (base ++ [name]))
    (hcopy : copyTree fs source target = (.ok count, after)) :
    fs.get? root = some .directory ∧
      (∀ m, m ≠ [] → treeAt after (base ++ [name]) m =
        overlay (treeAt fs root) (treeAt fs (base ++ [name])) m) ∧
      (after.get? (base ++ [name]) = some .directory ∨
        after.get? (base ++ [name]) = fs.get? (base ++ [name])) := by
  obtain ⟨root', hlocate', hdirectory⟩ := exists_of_copyTree hcopy
  obtain rfl : root = root' := Except.ok.inj (hlocate.symm.trans hlocate')
  have hcourse : Course fs source target root base [name] :=
    ⟨h.landing, FileSystem.enters_of_locate hlocate hdirectory, hapart⟩
  rw [copyTree_eq hlocate hdirectory] at hcopy
  have hlays := hcourse.lays_entries (listed_initialEntries source hdirectory)
    (fun _ _ => List.cons_ne_nil _ _) hcopy
  refine ⟨hdirectory, fun m hm => ?_, ?_⟩
  · obtain ⟨hlaid, hkept⟩ := hlays m
    rw [makes_initialEntries source hdirectory hm] at hlaid hkept
    obtain ⟨hover, hunder⟩ := overlay_cases fs root (treeAt fs (base ++ [name])) m
    by_cases hcopied : Copied fs root [] m
    · rw [treeAt, hlaid hcopied, hover hcopied]
    · rw [treeAt, hkept hcopied, hunder hcopied, treeAt]
  · obtain ⟨hlaid, hkept⟩ := hlays []
    rw [List.append_nil, List.append_nil, hdirectory] at hlaid
    rw [List.append_nil] at hkept
    by_cases hmakes : Makes fs root (initialEntries fs source root) []
    · exact Or.inl (hlaid hmakes)
    · exact Or.inr (hkept hmakes)

end Whole

end Siteworks.Scaffold
