import Mathlib
import Siteworks.Proofs.FileSystem.Goals
import Siteworks.Proofs.FileSystem.Retrying

/-!
# Making the directories on a way

A path leads to some directory, and on from there by its text as long as it meets no link. All the
directories that it passes can be made if no file is among them and the path does not end in a dot
behind one that is missing. Nothing else is made, and success means that all of them are there.
-/

namespace Siteworks

namespace Path

/-- The path is written with a dot behind its last slash, slashes at its end apart. -/
def EndsInDot (path : Path) : Prop := (path.segments.reverse.dropWhile (· = "")).head? = some "."

instance (path : Path) : Decidable path.EndsInDot := inferInstanceAs (Decidable (_ = _))

/-- A path ends in a dot exactly if its last segment but for slashes is one. -/
theorem endsInDot_iff {path : Path} {front slashes : List String} {last : String}
    (hsegments : path.segments = front ++ [last] ++ slashes) (hempty : last ≠ "")
    (hslashes : ∀ segment ∈ slashes, segment = "") : path.EndsInDot ↔ last = "." := by
  have hkept : ((front ++ [last] ++ slashes).reverse.dropWhile (· = "")).reverse = front ++ [last] :=
    Text.reverse_dropWhile_reverse (by simpa using hempty) (by simpa using hslashes)
  rw [EndsInDot, hsegments, ← List.getLast?_reverse, hkept]
  simp

/-- An empty path names nothing. -/
theorem eq_empty_of_isEmpty {path : Path} (h : path.isEmpty = true) :
    ∀ segment ∈ path.segments, segment = "" := by
  simp only [isEmpty, Bool.and_eq_true, List.all_eq_true, decide_eq_true_eq] at h
  exact h.1

/-- What is dropped from the end names nothing. -/
theorem exists_append_dropSilent (segments : List String) :
    ∃ silents, segments = dropSilent segments ++ silents ∧
      ∀ segment ∈ silents, segment = "" ∨ segment = "." := by
  cases segments with
  | nil => exact ⟨[], rfl, nofun⟩
  | cons first rest =>
    have hrest : rest =
        (rest.reverse.dropWhile fun s => decide (s = "") || decide (s = ".")).reverse ++
          (rest.reverse.takeWhile fun s => decide (s = "") || decide (s = ".")).reverse := by
      rw [← List.reverse_append, List.takeWhile_append_dropWhile, List.reverse_reverse]
    have hsilents : ∀ segment ∈
        (rest.reverse.takeWhile fun s => decide (s = "") || decide (s = ".")).reverse,
        segment = "" ∨ segment = "." := by
      intro segment hsegment
      simpa using List.mem_takeWhile_imp (List.mem_reverse.mp hsegment)
    simp only [dropSilent]
    split
    next hnone =>
      simp only [Bool.and_eq_true, List.isEmpty_iff, decide_eq_true_eq] at hnone
      obtain ⟨hkept, rfl⟩ := hnone
      rw [hkept, List.nil_append] at hrest
      refine ⟨"" :: rest, rfl, fun segment hsegment => ?_⟩
      rcases List.mem_cons.mp hsegment with rfl | hsegment
      · exact Or.inl rfl
      · exact hsilents segment (hrest ▸ hsegment)
    · exact ⟨_, by rw [List.cons_append, ← hrest], hsilents⟩

/-- A way names nothing, or it has a last segment that is not silent. -/
theorem silent_or_exists (way : List String) :
    (∀ segment ∈ way, segment = "" ∨ segment = ".") ∨
      ∃ front last silents, way = front ++ [last] ++ silents ∧ last ≠ "" ∧ last ≠ "." ∧
        ∀ segment ∈ silents, segment = "" ∨ segment = "." := by
  induction way using List.reverseRecOn with
  | nil => exact Or.inl nofun
  | append_singleton way segment ih =>
    by_cases hsegment : segment = "" ∨ segment = "."
    · rcases ih with hall | ⟨front, last, silents, rfl, hempty, hdot, hsilents⟩
      · left
        intro other hother
        rcases List.mem_append.mp hother with hother | hother
        · exact hall other hother
        · exact List.mem_singleton.mp hother ▸ hsegment
      · refine Or.inr ⟨front, last, silents ++ [segment], by simp, hempty, hdot, ?_⟩
        intro other hother
        rcases List.mem_append.mp hother with hother | hother
        · exact hsilents other hother
        · exact List.mem_singleton.mp hother ▸ hsegment
    · rw [not_or] at hsegment
      exact Or.inr ⟨way, segment, [], by simp, hsegment.1, hsegment.2, nofun⟩

/-- Of segments that end in a dot when the end is dropped, none names anything. -/
theorem silent_of_endsInDot {segments : List String}
    (h : (Path.mk (dropSilent segments)).EndsInDot) :
    ∀ segment ∈ dropSilent segments, segment = "" ∨ segment = "." := by
  obtain ⟨rest, hsegments, hrest⟩ := exists_append_dropSilent segments
  refine (silent_or_exists (dropSilent segments)).resolve_right ?_
  rintro ⟨front, last, silents, hkept, hempty, hdot, hsilents⟩
  have hall : ∀ segment ∈ silents ++ rest, segment = "" ∨ segment = "." := fun segment hsegment =>
    (List.mem_append.mp hsegment).elim (hsilents segment) (hrest segment)
  have hlast : dropSilent segments = front ++ [last] := by
    rw [hkept, List.append_assoc] at hsegments
    rw [hsegments]
    exact dropSilent_append hempty hdot hall
  have hsegments : (Path.mk (dropSilent segments)).segments = front ++ [last] ++ [] := by
    rw [hlast, List.append_nil]
  exact hdot ((endsInDot_iff hsegments hempty nofun).mp h)

end Path

namespace FileSystem

/-- The place is passed on the way from a base, whose beginning and end are passed as well. -/
def Passes (base : Place) (way : List String) (place : Place) : Prop :=
  ∃ init, init <+: way ∧ place = init.foldl advance base

section Passes

variable {base place : Place} {way front rest : List String} {segment : String}

/-- A way passes the ends of its fronts. -/
theorem passes_iff_mem :
    Passes base way place ↔ place ∈ way.inits.map fun init => init.foldl advance base := by
  simp [Passes, eq_comm]

/-- The end of a way is passed. -/
theorem passes_goal (base : Place) (way : List String) : Passes base way (way.foldl advance base) :=
  ⟨way, List.prefix_rfl, rfl⟩

/-- What is passed on the front of a way is passed on the way. -/
theorem Passes.mono (h : Passes base front place) (hfront : front <+: way) :
    Passes base way place := by
  obtain ⟨init, hinit, rfl⟩ := h
  exact ⟨init, hinit.trans hfront, rfl⟩

/-- A way passes its base, and then what is passed behind the first segment. -/
theorem passes_cons :
    Passes base (segment :: rest) place ↔ place = base ∨ Passes (advance base segment) rest place := by
  constructor
  · rintro ⟨init, hinit, rfl⟩
    cases init with
    | nil => exact Or.inl rfl
    | cons first init =>
      obtain ⟨rfl, hrest⟩ := List.cons_prefix_cons.mp hinit
      exact Or.inr ⟨init, hrest, rfl⟩
  · rintro (rfl | ⟨init, hinit, rfl⟩)
    · exact ⟨[], List.nil_prefix, rfl⟩
    · exact ⟨segment :: init, List.cons_prefix_cons.mpr ⟨rfl, hinit⟩, rfl⟩

/-- A way in two pieces passes what the pieces pass. -/
theorem passes_append :
    Passes base (front ++ rest) place ↔
      Passes base front place ∨ Passes (front.foldl advance base) rest place := by
  induction front generalizing base with
  | nil =>
    refine ⟨Or.inr, ?_⟩
    rintro (⟨init, hinit, rfl⟩ | h)
    · obtain rfl := List.prefix_nil.mp hinit
      exact ⟨[], List.nil_prefix, rfl⟩
    · exact h
  | cons segment front ih => rw [List.cons_append, passes_cons, passes_cons, ih, or_assoc]; rfl

/-- A segment that names nothing leads nowhere. -/
theorem advance_silent (base : Place) (h : segment = "" ∨ segment = ".") :
    advance base segment = base := if_pos h

/-- On a way of such segments nothing but the base is passed. -/
theorem passes_silent (h : ∀ segment ∈ way, segment = "" ∨ segment = ".") :
    Passes base way place ↔ place = base := by
  induction way with
  | nil => simp [Passes]
  | cons segment rest ih =>
    rw [passes_cons, advance_silent base (h segment List.mem_cons_self),
      ih fun other ho => h other (List.mem_cons_of_mem _ ho), or_self]

/-- Such segments behind a way pass nothing more. -/
theorem passes_append_silent (h : ∀ segment ∈ rest, segment = "" ∨ segment = ".") :
    Passes base (way ++ rest) place ↔ Passes base way place := by
  rw [passes_append, passes_silent h]
  exact or_iff_left_of_imp fun heq => heq ▸ passes_goal base way

/-- The front of a way is in front of it. -/
theorem prefix_of_eq {last : String} (hway : way = front ++ [last] ++ rest) : front <+: way := by
  rw [hway, List.append_assoc]
  exact List.prefix_append _ _

/-- Behind the front of a way its last segment that is not silent leads to its end. -/
theorem foldl_advance_last {silents : List String} {last : String}
    (hway : way = front ++ [last] ++ silents)
    (hsilents : ∀ segment ∈ silents, segment = "" ∨ segment = ".") :
    way.foldl advance base = advance (front.foldl advance base) last := by
  have hend := (passes_silent hsilents).mp
    (passes_goal (advance (front.foldl advance base) last) silents)
  rw [hway, List.foldl_append, List.foldl_append]
  exact hend

/-- Behind the front of a way its end is passed only. -/
theorem passes_last {silents : List String} {last : String}
    (hway : way = front ++ [last] ++ silents)
    (hsilents : ∀ segment ∈ silents, segment = "" ∨ segment = ".") :
    Passes base way place ↔ Passes base front place ∨ place = way.foldl advance base := by
  have hend : way.foldl advance base = advance (front.foldl advance base) last :=
    foldl_advance_last hway hsilents
  constructor
  · intro h
    rw [hway, passes_append, passes_append] at h
    rcases h with (h | h) | h
    · exact Or.inl h
    · rcases passes_cons.mp h with rfl | h
      · exact Or.inl (passes_goal base front)
      · exact Or.inr (((passes_silent (by simp)).mp h).trans hend.symm)
    · rw [passes_silent hsilents, List.foldl_append] at h
      exact Or.inr (h.trans hend.symm)
  · rintro (h | rfl)
    · exact h.mono (prefix_of_eq hway)
    · exact passes_goal base way

/-- A name leads into a directory. -/
theorem advance_name (base : Place) (h : IsName segment) : advance base segment = base ++ [segment] := by
  simp [advance, h.1, h.2.1, h.2.2]

end Passes

section Follow

variable {fs : FileSystem} {base : Place} {way : List String}

/-- A way through directories leads to its end. -/
theorem follow_of_passes (h : ∀ place, Passes base way place → fs.get? place = some .directory) :
    follow fs base way = .found (way.foldl advance base) := by
  induction way generalizing base with
  | nil => rfl
  | cons segment rest ih =>
    have hrest : follow fs (advance base segment) rest =
        .found (rest.foldl advance (advance base segment)) :=
      ih fun place hplace => h place (passes_cons.mpr (Or.inr hplace))
    rw [List.foldl_cons]
    rcases segment_cases segment with hsilent | rfl | hname
    · rw [advance_silent base hsilent] at hrest ⊢
      rwa [follow_silent _ _ hsilent]
    · rwa [follow_up]
    · have hnext := h (advance base segment) (passes_cons.mpr (Or.inr ⟨[], List.nil_prefix, rfl⟩))
      rw [advance_name base hname] at hnext hrest ⊢
      rw [follow_name _ _ hname, hnext]
      exact hrest

/-- A way that leads to a directory passes directories only. -/
theorem passes_of_follow (hbase : fs.get? base = some .directory) {q : Place}
    (h : follow fs base way = .found q) (hq : fs.get? q = some .directory) :
    ∀ place, Passes base way place → fs.get? place = some .directory := by
  induction way generalizing base with
  | nil =>
    intro place hplace
    rwa [(passes_silent (by simp)).mp hplace]
  | cons segment rest ih =>
    have hrest : fs.get? (advance base segment) = some .directory →
        follow fs (advance base segment) rest = .found q →
        ∀ place, Passes base (segment :: rest) place → fs.get? place = some .directory := by
      intro hnext hfollow place hplace
      rcases passes_cons.mp hplace with rfl | hplace
      · exact hbase
      · exact ih hnext hfollow place hplace
    rcases segment_cases segment with hsilent | rfl | hname
    · rw [follow_silent _ _ hsilent] at h
      rw [advance_silent base hsilent] at hrest
      exact hrest hbase h
    · rw [follow_up] at h
      exact hrest (get?_dropLast hbase) h
    · rw [advance_name base hname] at hrest
      rw [follow_name _ _ hname] at h
      cases hnode : fs.get? (base ++ [segment]) with
      | none =>
        simp only [hnode] at h
        split at h <;> cases h
      | some node =>
        rw [hnode] at h
        cases node with
        | directory => exact hrest hnode h
        | file content =>
          simp only at h
          split at h
          · cases h
            cases hnode.symm.trans hq
          · cases h
        | link target => cases h

/-- A way that passes no link meets none. -/
theorem follow_ne_linked (h : ∀ place, Passes base way place →
    ∀ target, fs.get? place ≠ some (.link target)) (parent : Place) (target : Path)
    (rest : List String) : follow fs base way ≠ .linked parent target rest := by
  induction way generalizing base with
  | nil => exact nofun
  | cons segment more ih =>
    have hmore := ih fun place hplace => h place (passes_cons.mpr (Or.inr hplace))
    rcases segment_cases segment with hsilent | rfl | hname
    · rw [follow_silent _ _ hsilent]
      rwa [advance_silent base hsilent] at hmore
    · rwa [follow_up]
    · have hnext := h (advance base segment) (passes_cons.mpr (Or.inr ⟨[], List.nil_prefix, rfl⟩))
      rw [advance_name base hname] at hnext hmore
      rw [follow_name _ _ hname]
      cases hnode : fs.get? (base ++ [segment]) with
      | none =>
        simp only
        split <;> exact nofun
      | some node =>
        cases node with
        | directory => exact hmore
        | file content =>
          simp only
          split <;> exact nofun
        | link linked => exact absurd hnode (hnext linked)

/-- A way that passes neither a link nor a file passes directories only, or it stops at something
that is missing. -/
theorem passes_directories_or_missing (hbase : fs.get? base = some .directory)
    (hlinks : ∀ place, Passes base way place → ∀ target, fs.get? place ≠ some (.link target))
    (hfiles : ∀ place, Passes base way place → ∀ content, fs.get? place ≠ some (.file content)) :
    (∀ place, Passes base way place → fs.get? place = some .directory) ∨
      (∃ parent name slashed, follow fs base way = .free parent name slashed) ∨
      follow fs base way = .blocked .notFound := by
  induction way generalizing base with
  | nil =>
    left
    rintro place ⟨init, hinit, rfl⟩
    obtain rfl := List.prefix_nil.mp hinit
    exact hbase
  | cons segment rest ih =>
    have hpass : ∀ place, Passes (advance base segment) rest place →
        Passes base (segment :: rest) place := fun place h => passes_cons.mpr (Or.inr h)
    have hnext : Passes base (segment :: rest) (advance base segment) :=
      hpass _ ⟨[], List.nil_prefix, rfl⟩
    have hrest : fs.get? (advance base segment) = some .directory →
        follow fs base (segment :: rest) = follow fs (advance base segment) rest →
        (∀ place, Passes base (segment :: rest) place → fs.get? place = some .directory) ∨
          (∃ parent name slashed, follow fs base (segment :: rest) = .free parent name slashed) ∨
          follow fs base (segment :: rest) = .blocked .notFound := by
      intro hdirectory hfollow
      rw [hfollow]
      refine (ih hdirectory (fun place h => hlinks place (hpass place h))
        fun place h => hfiles place (hpass place h)).imp_left fun hall place hplace => ?_
      rcases passes_cons.mp hplace with rfl | hplace
      · exact hbase
      · exact hall place hplace
    rcases segment_cases segment with hsilent | rfl | hname
    · have hstay := advance_silent base hsilent
      exact hrest (hstay.symm ▸ hbase) (by rw [follow_silent _ _ hsilent, hstay])
    · exact hrest (get?_dropLast hbase) (follow_up fs base rest)
    · have hname' := advance_name base hname
      cases hnode : fs.get? (base ++ [segment]) with
      | none =>
        right
        rw [follow_name _ _ hname, hnode]
        simp only
        split
        · exact Or.inl ⟨_, _, _, rfl⟩
        · exact Or.inr rfl
      | some node =>
        cases node with
        | directory =>
          refine hrest (hname' ▸ hnode) ?_
          rw [follow_name _ _ hname, hnode, hname']
        | file content => exact absurd hnode (hname' ▸ hfiles _ hnext content)
        | link target => exact absurd hnode (hname' ▸ hlinks _ hnext target)

end Follow

/-- Segments that name nothing lead nowhere. -/
theorem followLinks_silent {fs : FileSystem} {links : Nat} {place : Place} {silents : List String}
    (h : ∀ segment ∈ silents, segment = "" ∨ segment = ".") :
    followLinks fs links place silents = .found place := by
  have hfollow : follow fs place silents = .found place := by
    induction silents with
    | nil => rfl
    | cons segment rest ih =>
      rw [follow_silent _ _ (h segment List.mem_cons_self)]
      exact ih fun other ho => h other (List.mem_cons_of_mem _ ho)
  rw [followLinks_eq_follow (by simp [hfollow]), hfollow]

/-- Where the parent of a path is there, the way to its last segment is. -/
theorem followLinks_of_parent {fs : FileSystem} {path parent : Path} {front silents : List String}
    {last : String} (hsegments : path.segments = front ++ [last] ++ silents) (hempty : last ≠ "")
    (hdot : last ≠ ".") (hsilents : ∀ segment ∈ silents, segment = "" ∨ segment = ".")
    (hparent : path.parent? = some parent)
    (hthere : parent.isEmpty = true ∨ fs.isDirectory parent = true) :
    ∃ place, followLinks fs maxLinks (fs.start path) front = .found place ∧
      fs.get? place = some .directory := by
  obtain ⟨parent', hparent', hcases⟩ := Path.exists_parent hsegments hempty hdot hsilents
  obtain rfl : parent = parent' := Option.some.inj (hparent.symm.trans hparent')
  obtain ⟨rest, hfront, hrest⟩ := Path.exists_append_dropSilent front
  rcases hcases with ⟨hnone, -⟩ | ⟨hsome, rfl⟩
  · rw [hnone, List.nil_append] at hfront
    exact ⟨fs.start path, followLinks_silent (hfront ▸ hrest), fs.get?_start path⟩
  · have hslash := Path.dropSilent_ne front
    have hpre : (Path.mk (Path.dropSilent front)).segments <+: path.segments := by
      rw [hsegments, List.append_assoc]
      exact (Path.dropSilent_prefix front).trans (List.prefix_append _ _)
    have hstart : fs.start ⟨Path.dropSilent front⟩ = fs.start path := by
      rw [start, start, Path.isAbsolute_of_prefix hpre hsome hslash]
    have hfilled : (Path.mk (Path.dropSilent front)).isEmpty = false :=
      Path.isEmpty_eq_false hsome hslash
    obtain ⟨place, hlocate, hplace⟩ :=
      isDirectory_eq_true_iff.mp (hthere.resolve_left (by simp [hfilled]))
    obtain ⟨-, hfound⟩ := locate_eq_ok_iff.mp hlocate
    obtain ⟨left, hleft⟩ := followLinks_append hfound hplace rest
    rw [followLinks_silent hrest, hstart] at hleft
    exact ⟨place, hfront ▸ hleft, hplace⟩

/-- A directory that can be made needs none of its parents. -/
theorem createWithin_of_ensureDirectory {fs : FileSystem} {path : Path} (steps : Nat)
    (h : (fs.ensureDirectory path).1 = .ok ()) : (createWithin (steps + 1) fs path).1 = .ok () := by
  rw [createWithin]
  split
  · rfl
  · split
    next parent hmake hparent =>
      have hdirectory : fs.isDirectory path = true := by
        by_contra hnot
        simp [ensureDirectory, hmake, hnot] at h
      cases hmake.symm.trans (makeDirectory_of_isDirectory hdirectory)
    · exact h

/-- The path leads to the base, and on from there by its text, since it passes no link. -/
structure Heads (fs : FileSystem) (path : Path) (base : Place) (way : List String) : Prop where
  /-- The front of the path leads to the base. -/
  front : ∃ front, path.segments = front ++ way ∧
    followLinks fs maxLinks (fs.start path) front = .found base
  /-- The base is a directory. -/
  directory : fs.get? base = some .directory
  /-- There is no link on the way. -/
  clear : ∀ place, Passes base way place → ∀ target, fs.get? place ≠ some (.link target)

namespace Heads

variable {fs after : FileSystem} {path : Path} {base : Place} {way : List String}

/-- It heads there after an edit. -/
theorem edits {dirs files : Place → Prop} (h : fs.Heads path base way)
    (hedits : Edits dirs files fs after) : after.Heads path base way := by
  obtain ⟨⟨front, hsegments, hfront⟩, hdirectory, hclear⟩ := h
  refine ⟨⟨front, hsegments, ?_⟩, hedits.directory hdirectory, fun place hplace target hlink => ?_⟩
  · exact hedits.start_eq path ▸ hedits.followLinks_found hfront
  · exact hclear place hplace target (hedits.link_iff.mp hlink)

/-- Behind its front it is followed from the base without links. -/
theorem exists_front (h : fs.Heads path base way) :
    ∃ front, path.segments = front ++ way ∧
      followLinks fs maxLinks (fs.start path) front = .found base ∧
      ∀ init, init <+: way →
        followLinks fs maxLinks (fs.start path) (front ++ init) = follow fs base init := by
  obtain ⟨⟨front, hsegments, hfront⟩, hdirectory, hclear⟩ := h
  refine ⟨front, hsegments, hfront, fun init hinit => ?_⟩
  obtain ⟨left, hleft⟩ := followLinks_append hfront hdirectory init
  rw [hleft, followLinks_eq_follow (follow_ne_linked fun place hplace =>
    hclear place (hplace.mono hinit))]

/-- A path with a segment on its way is not empty. -/
theorem isEmpty_eq (h : fs.Heads path base way) {segment : String} (hmem : segment ∈ way)
    (hne : segment ≠ "") : path.isEmpty = false := by
  obtain ⟨start, hsegments, -⟩ := h.front
  by_contra hyes
  refine hne (Path.eq_empty_of_isEmpty (by simpa using hyes) segment ?_)
  rw [hsegments]
  exact List.mem_append_right start hmem

/-- It leads nowhere but to the end of its way. -/
theorem eq_of_locate (h : fs.Heads path base way) {place : Place}
    (hlocate : fs.locate path = .ok place) : place = way.foldl advance base := by
  obtain ⟨front, hsegments, -, hfollow⟩ := h.exists_front
  have hfound := (locate_eq_ok_iff.mp hlocate).2
  rw [hsegments, hfollow way List.prefix_rfl] at hfound
  exact eq_foldl_of_follow hfound

/-- It leads to a directory exactly if it passes directories only. -/
theorem isDirectory_iff (h : fs.Heads path base way) (hne : path.isEmpty = false) :
    fs.isDirectory path = true ↔
      ∀ place, Passes base way place → fs.get? place = some .directory := by
  obtain ⟨front, hsegments, -, hfollow⟩ := h.exists_front
  rw [isDirectory_eq_true_iff]
  constructor
  · rintro ⟨q, hlocate, hq⟩
    have hfound := (locate_eq_ok_iff.mp hlocate).2
    rw [hsegments, hfollow way List.prefix_rfl] at hfound
    exact passes_of_follow h.directory hfound hq
  · intro hall
    refine ⟨way.foldl advance base, locate_eq_ok_iff.mpr ⟨hne, ?_⟩, hall _ (passes_goal _ _)⟩
    rw [hsegments, hfollow way List.prefix_rfl, follow_of_passes hall]

/-- A path that passes directories only is continued from the end of its way. -/
theorem enters (h : fs.Heads path base way)
    (hall : ∀ place, Passes base way place → fs.get? place = some .directory) :
    fs.Enters path (way.foldl advance base) := by
  obtain ⟨front, hsegments, -, hfollow⟩ := h.exists_front
  refine enters_of_followLinks ?_ (hall _ (passes_goal base way))
  rw [hsegments, hfollow way List.prefix_rfl, follow_of_passes hall]

/-- A path whose way names nothing is empty or leads to a directory. -/
theorem isDirectory_of_silent (h : fs.Heads path base way)
    (hsilent : ∀ segment ∈ way, segment = "" ∨ segment = ".") :
    path.isEmpty = true ∨ fs.isDirectory path = true := by
  cases hempty : path.isEmpty with
  | true => exact Or.inl rfl
  | false =>
    refine Or.inr ((h.isDirectory_iff hempty).mpr fun place hplace => ?_)
    rw [(passes_silent hsilent).mp hplace]
    exact h.directory

/-- The parent of the path is there, or it heads on by a front of the way. -/
theorem parent (h : fs.Heads path base way) {front silents : List String} {last : String}
    (hway : way = front ++ [last] ++ silents) (hempty : last ≠ "") (hdot : last ≠ ".")
    (hsilents : ∀ segment ∈ silents, segment = "" ∨ segment = ".") :
    ∃ parent, path.parent? = some parent ∧
      ((parent.isEmpty = true ∨ fs.isDirectory parent = true) ∨
        ∃ init, init <+: front ∧ fs.Heads parent base init ∧
          (parent.EndsInDot → init.foldl advance base = base)) := by
  obtain ⟨start, hsegments, hstart⟩ := h.front
  have hwhole : path.segments = start ++ front ++ [last] ++ silents := by
    rw [hsegments, hway]
    simp
  obtain ⟨parent, hparent, hcases⟩ := Path.exists_parent hwhole hempty hdot hsilents
  refine ⟨parent, hparent, ?_⟩
  rcases hcases with ⟨-, rfl | rfl⟩ | ⟨hsome, rfl⟩
  · exact Or.inl (Or.inr fs.isDirectory_slash)
  · exact Or.inl (Or.inl rfl)
  · have hslash := Path.dropSilent_ne (start ++ front)
    have hpre := Path.dropSilent_prefix (start ++ front)
    have hinside : start ++ front <+: path.segments := by
      rw [hwhole, List.append_assoc]
      exact List.prefix_append _ _
    -- the parent ends in front of the base, or behind it on the way
    rcases List.prefix_or_prefix_of_prefix hpre (List.prefix_append start front) with
      hshort | ⟨init, hinit⟩
    · left
      right
      exact isDirectory_of_front hsome hslash (hpre.trans hinside) hstart h.directory hshort
    · have hfront : init <+: front := by
        rw [← hinit] at hpre
        exact (List.prefix_append_right_inj start).mp hpre
      have hon : init <+: way := hfront.trans (prefix_of_eq hway)
      have hsame : fs.start ⟨Path.dropSilent (start ++ front)⟩ = fs.start path := by
        have habsolute : (Path.mk (Path.dropSilent (start ++ front))).isAbsolute =
            path.isAbsolute := Path.isAbsolute_of_prefix (hpre.trans hinside) hsome hslash
        rw [FileSystem.start, FileSystem.start, habsolute]
      refine Or.inr ⟨init, hfront, ⟨⟨start, hinit.symm, hsame ▸ hstart⟩, h.directory,
        fun place hplace => h.clear place (hplace.mono hon)⟩, fun hends => ?_⟩
      refine (passes_silent fun segment hsegment => ?_).mp (passes_goal base init)
      exact Path.silent_of_endsInDot hends segment (hinit ▸ List.mem_append_right start hsegment)

/-- No directory is made but the one at its end. -/
theorem edits_ensureDirectory (h : fs.Heads path base way) :
    Edits (Passes base way) (fun _ => False) fs (fs.ensureDirectory path).2 := by
  unfold ensureDirectory
  split
  next hmake =>
    obtain ⟨parent, name, slashes, hleads, hfree, rfl⟩ := makeDirectory_eq_ok hmake
    have hedits : Edits (fun _ => True) (fun _ => False) fs (fs.put (parent ++ [name]) .directory) :=
      Edits.put_directory hfree trivial
    have hmade := hleads.get?_put_directory (List.cons_ne_nil _ _) (by simpa using hleads.directory)
      hfree
    have hgoal := (h.edits hedits).eq_of_locate
      ((hleads.edits hedits).locate_directory (List.cons_ne_nil _ _) hmade)
    exact Edits.put_directory hfree (hgoal ▸ passes_goal base way)
  next => exact Edits.refl fs

/-- No directory is made but those that it passes. -/
theorem edits_createWithin (h : fs.Heads path base way) (steps : Nat) :
    Edits (Passes base way) (fun _ => False) fs (createWithin steps fs path).2 := by
  induction steps generalizing path way with
  | zero => exact Edits.refl fs
  | succ steps ih =>
    rcases Path.silent_or_exists way with hsilent | ⟨front, last, silents, hway, hempty, hdot, hsilents⟩
    · rw [createWithin_eq_self steps (h.isDirectory_of_silent hsilent)]
      exact Edits.refl fs
    · obtain ⟨parent, hparent, hthere⟩ := h.parent hway hempty hdot hsilents
      rcases createWithin_succ steps fs (h.isEmpty_eq (by simp [hway]) hempty) with
        heq | ⟨parent', hparent', -, heq⟩
      · rw [heq]
        exact h.edits_ensureDirectory
      · obtain rfl : parent = parent' := Option.some.inj (hparent.symm.trans hparent')
        have hfirst : Edits (Passes base way) (fun _ => False) fs (createWithin steps fs parent).2 := by
          rcases hthere with hthere | ⟨init, hinit, hheads, -⟩
          · cases steps with
            | zero => exact Edits.refl fs
            | succ steps =>
              rw [createWithin_eq_self steps hthere]
              exact Edits.refl fs
          · have hon : init <+: way := hinit.trans (prefix_of_eq hway)
            exact (ih hheads).mono (fun _ hplace => hplace.mono hon) fun _ => id
        rw [heq]
        split
        next hstep => rwa [hstep] at hfirst
        next hstep =>
          rw [hstep] at hfirst
          exact hfirst.trans (h.edits hfirst).edits_ensureDirectory

/-- No directory is made but those that it passes, and success means that they are there. -/
theorem edits_createDirectories (h : fs.Heads path base way) {result : Except IoFault Unit}
    (hmake : fs.createDirectories path = (result, after)) :
    Edits (Passes base way) (fun _ => False) fs after ∧
      (result = .ok () → ∀ place, Passes base way place → after.get? place = some .directory) := by
  have hedits := h.edits_createWithin (path.segments.length + 1)
  rw [← createDirectories, hmake] at hedits
  refine ⟨hedits, ?_⟩
  rintro rfl
  cases hempty : path.isEmpty with
  | true =>
    obtain ⟨start, hsegments, -⟩ := h.front
    have hsilent : ∀ segment ∈ way, segment = "" ∨ segment = "." := fun segment hsegment =>
      Or.inl (Path.eq_empty_of_isEmpty hempty segment (by simp [hsegments, hsegment]))
    intro place hplace
    rw [(passes_silent hsilent).mp hplace]
    exact hedits.directory h.directory
  | false =>
    exact ((h.edits hedits).isDirectory_iff hempty).mp (isDirectory_of_createDirectories hmake hempty)

/-- A directory can be made if those on the way are there, and no file is at its place. -/
theorem ensureDirectory_ok (h : fs.Heads path base way) {front silents : List String} {last : String}
    (hway : way = front ++ [last] ++ silents) (hempty : last ≠ "") (hdot : last ≠ ".")
    (hsilents : ∀ segment ∈ silents, segment = "" ∨ segment = ".")
    (hfront : ∀ place, Passes base front place → fs.get? place = some .directory)
    (hfile : ∀ content, fs.get? (way.foldl advance base) ≠ some (.file content))
    (hends : path.EndsInDot → fs.get? (way.foldl advance base) = some .directory) :
    (fs.ensureDirectory path).1 = .ok () := by
  obtain ⟨start, hsegments, -, hfollow⟩ := h.exists_front
  have hgoal : way.foldl advance base = advance (front.foldl advance base) last :=
    foldl_advance_last hway hsilents
  have hpath := h.isEmpty_eq (by simp [hway]) hempty
  by_cases hthere : fs.get? (way.foldl advance base) = some .directory
  · -- the path leads to a directory already
    have hdirectory := (h.isDirectory_iff hpath).mpr fun place hplace => by
      rcases (passes_last hway hsilents).mp hplace with hplace | rfl
      · exact hfront place hplace
      · exact hthere
    simp [ensureDirectory, makeDirectory_of_isDirectory hdirectory, hdirectory]
  · -- there is nothing at its end, and no dot behind it
    have hall := hfollow front (prefix_of_eq hway)
    rw [follow_of_passes hfront] at hall
    have hparent : fs.directoryOf path (start ++ front) = .ok (front.foldl advance base) := by
      simp [directoryOf, hall, hfront _ (passes_goal base front)]
    have hname : IsName last := by
      refine ⟨hempty, hdot, ?_⟩
      rintro rfl
      exact hthere (hgoal ▸ get?_dropLast (hfront _ (passes_goal base front)))
    have hnone : fs.get? (front.foldl advance base ++ [last]) = none := by
      rw [← advance_name _ hname, ← hgoal]
      cases hnode : fs.get? (way.foldl advance base) with
      | none => rfl
      | some node =>
        cases node with
        | directory => exact absurd hnode hthere
        | file content => exact absurd hnode (hfile content)
        | link target => exact absurd hnode (h.clear _ (passes_goal base way) target)
    have hslashes : ∀ segment ∈ silents, segment = "" := by
      rcases segments_cases ⟨silents⟩ with hall | ⟨before, name, slashes, hlast, hname, hslashes⟩
      · exact hall
      · have hsplit : silents = before ++ [name] ++ slashes := hlast
        have hname' : name = "." := (hsilents name (by simp [hsplit])).resolve_left hname
        have hdotted : path.segments = start ++ front ++ [last] ++ before ++ ["."] ++ slashes := by
          rw [hsegments, hway, hsplit, hname']
          simp
        exact absurd (hends ((Path.endsInDot_iff hdotted (by decide) hslashes).mpr rfl)) hthere
    have hwhole : path.segments = start ++ front ++ [last] ++ silents := by
      rw [hsegments, hway]
      simp
    simp [ensureDirectory, makeDirectory_eq hwhole hempty hslashes, hparent, hdot, hname.2.2, hnone]

/-- Where a directory on the way is missing and no file is in the way, making another one behind it
says so. -/
theorem makeDirectory_notFound (h : fs.Heads path base way) {front silents : List String}
    {last : String} (hway : way = front ++ [last] ++ silents) (hempty : last ≠ "")
    (hfiles : ∀ place, Passes base way place → ∀ content, fs.get? place ≠ some (.file content))
    (hmissing : ¬ ∀ place, Passes base front place → fs.get? place = some .directory) :
    fs.makeDirectory path = .error .notFound := by
  obtain ⟨start, hsegments, -, hfollow⟩ := h.exists_front
  rcases segments_cases ⟨way⟩ with hall | ⟨before, name, slashes, hsplit, hname, hslashes⟩
  · exact absurd (hall last (by simp [hway])) hempty
  replace hsplit : way = before ++ [name] ++ slashes := hsplit
  have hbefore := prefix_of_eq hsplit
  -- the last segment that is not silent is not among the slashes at the end
  have hfront : front <+: before := by
    have hfront : front ++ [last] <+: way := by
      rw [hway]
      exact List.prefix_append _ _
    rcases List.prefix_or_prefix_of_prefix hfront
      (show before ++ [name] <+: way from hsplit ▸ List.prefix_append _ _) with hpre | ⟨more, hmore⟩
    · rcases List.prefix_concat_iff.mp hpre with heq | hpre
      · obtain ⟨rfl, -⟩ := List.append_inj' heq rfl
        exact List.prefix_rfl
      · exact (List.prefix_append _ _).trans hpre
    · have hbehind : slashes = more ++ silents := by
        have hboth := hsplit.symm.trans hway
        rw [← hmore, List.append_assoc (before ++ [name])] at hboth
        exact List.append_cancel_left hboth
      rcases List.eq_nil_or_concat more with rfl | ⟨others, other, rfl⟩
      · rw [List.append_nil] at hmore
        obtain ⟨rfl, -⟩ := List.append_inj' hmore rfl
        exact List.prefix_rfl
      · rw [List.concat_eq_append, ← List.append_assoc] at hmore
        obtain ⟨-, hlast⟩ := List.append_inj' hmore rfl
        obtain rfl := List.singleton_inj.mp hlast
        exact absurd (hslashes other (by simp [hbehind])) hempty
  have hstops := (passes_directories_or_missing h.directory
    (fun place hplace => h.clear place (hplace.mono hbefore))
    fun place hplace => hfiles place (hplace.mono hbefore)).resolve_left
      fun hall => hmissing fun place hplace => hall place (hplace.mono hfront)
  have hparent : fs.directoryOf path (start ++ before) = .error .notFound := by
    unfold directoryOf
    rw [hfollow before hbefore]
    rcases hstops with ⟨parent, other, slashed, hfree⟩ | hblocked
    · rw [hfree]
    · rw [hblocked]
  have hwhole : path.segments = start ++ before ++ [name] ++ slashes := by
    rw [hsegments, hsplit]
    simp
  rw [makeDirectory_eq hwhole hname hslashes, hparent]

/-- The directories can be made if no file is passed, and no dot ends the path behind one that is
missing. -/
theorem createWithin_ok (h : fs.Heads path base way)
    (hfiles : ∀ place, Passes base way place → ∀ content, fs.get? place ≠ some (.file content))
    (hends : path.EndsInDot → fs.get? (way.foldl advance base) = some .directory)
    {steps : Nat} (hsteps : way.length < steps) : (createWithin steps fs path).1 = .ok () := by
  induction steps generalizing path way with
  | zero => omega
  | succ steps ih =>
    rcases Path.silent_or_exists way with hsilent | ⟨front, last, silents, hway, hempty, hdot, hsilents⟩
    · rw [createWithin_eq_self steps (h.isDirectory_of_silent hsilent)]
    obtain ⟨parent, hparent, hthere⟩ := h.parent hway hempty hdot hsilents
    have hfront := prefix_of_eq hway
    have hlength : front.length < way.length := by simp [hway]
    have hgoal := hfiles _ (passes_goal base way)
    by_cases hthrough : ∀ place, Passes base front place → fs.get? place = some .directory
    · exact createWithin_of_ensureDirectory steps
        (h.ensureDirectory_ok hway hempty hdot hsilents hthrough hgoal hends)
    · -- the parent can be made, and then it is there
      have hmade : ∃ middle, createWithin steps fs parent = (.ok (), middle) ∧
          Edits (Passes base way) (fun _ => False) fs middle ∧
            (parent.isEmpty = true ∨ middle.isDirectory parent = true) := by
        obtain ⟨steps, rfl⟩ : ∃ less, steps = less + 1 := ⟨steps - 1, by omega⟩
        rcases hthere with hthere | ⟨init, hinit, hheads, hstays⟩
        · exact ⟨fs, createWithin_eq_self steps hthere, Edits.refl fs, hthere⟩
        · have hon := hinit.trans hfront
          have hshort := hinit.length_le
          have hedits := hheads.edits_createWithin (steps + 1)
          have hok := ih hheads (fun place hplace => hfiles place (hplace.mono hon))
            (fun hdotted => by rw [hstays hdotted]; exact h.directory) (by omega)
          rcases hstep : createWithin (steps + 1) fs parent with ⟨result, middle⟩
          rw [hstep] at hok hedits
          obtain rfl : result = .ok () := hok
          refine ⟨middle, rfl, hedits.mono (fun _ hplace => hplace.mono hon) fun _ => id, ?_⟩
          cases hparentEmpty : parent.isEmpty with
          | true => exact Or.inl rfl
          | false => exact Or.inr (isDirectory_of_createWithin hstep hparentEmpty)
      obtain ⟨middle, hstep, hedits, hthere'⟩ := hmade
      have h' := h.edits hedits
      obtain ⟨start, hsegments, -, hfollow⟩ := h'.exists_front
      have hwhole : path.segments = start ++ front ++ [last] ++ silents := by
        rw [hsegments, hway]
        simp
      obtain ⟨place, hfound, hplace⟩ :=
        followLinks_of_parent hwhole hempty hdot hsilents hparent hthere'
      rw [hfollow front hfront] at hfound
      have hensure := h'.ensureDirectory_ok hway hempty hdot hsilents
        (passes_of_follow h'.directory hfound hplace) (fun content hfile => ?_)
        fun hdotted => hedits.directory (hends hdotted)
      · rw [createWithin, if_neg (by simp [h.isEmpty_eq (by simp [hway]) hempty]),
          h.makeDirectory_notFound hway hempty hfiles hthrough, hparent]
        simp only [hstep]
        exact hensure
      · rcases hedits.changed (way.foldl advance base) with hsame | ⟨-, -, hmade⟩ | ⟨hfalse, -⟩
        · exact hgoal content (hsame ▸ hfile)
        · cases hfile.symm.trans hmade
        · exact hfalse

/-- The directories can be made if no file is passed, and no dot ends the path behind one that is
missing. -/
theorem createDirectories_ok (h : fs.Heads path base way)
    (hfiles : ∀ place, Passes base way place → ∀ content, fs.get? place ≠ some (.file content))
    (hends : path.EndsInDot → fs.get? (way.foldl advance base) = some .directory) :
    (fs.createDirectories path).1 = .ok () := by
  refine h.createWithin_ok hfiles hends ?_
  obtain ⟨start, hsegments, -⟩ := h.front
  rw [hsegments, List.length_append]
  omega

end Heads

section Leads

variable {fs : FileSystem} {path : Path} {base : Place} {names slashes : List String}

/-- Along names, with slashes behind them, the places are passed that the names lead to. -/
theorem Leads.passes_iff (h : fs.Leads path base names slashes) {place : Place} :
    Passes base (names ++ slashes) place ↔ ∃ init, init <+: names ∧ place = base ++ init := by
  rw [passes_append_silent fun segment hsegment => Or.inl (h.silent segment hsegment)]
  refine exists_congr fun init => and_congr_right fun hinit => ?_
  rw [foldl_advance_names fun name hname => h.named name (hinit.subset hname)]

/-- Where no links are, names behind a base are a way from it. -/
theorem Leads.heads (h : fs.Leads path base names slashes) (hbare : fs.Bare base) :
    fs.Heads path base (names ++ slashes) := by
  refine ⟨h.front, h.directory, fun place hplace => ?_⟩
  obtain ⟨init, -, rfl⟩ := h.passes_iff.mp hplace
  exact hbare init

/-- Below a base no directory is made but those that the names lead through, and success means that
they are there. -/
theorem Leads.edits_createDirectories (h : fs.Leads path base names slashes) (hbare : fs.Bare base) :
    Edits (OnWay base names) (fun _ => False) fs (fs.createDirectories path).2 ∧
      ((fs.createDirectories path).1 = .ok () →
        (fs.createDirectories path).2.get? (base ++ names) = some .directory) := by
  obtain ⟨hedits, hmade⟩ := (h.heads hbare).edits_createDirectories rfl
  refine ⟨⟨hedits.workingDirectory, fun place => ?_⟩, fun hok => ?_⟩
  · refine (hedits.changed place).imp_right (Or.imp_left fun ⟨hplace, hfree, hnew⟩ => ?_)
    obtain ⟨init, hinit, rfl⟩ := h.passes_iff.mp hplace
    refine ⟨⟨init, ?_, hinit, rfl⟩, hfree, hnew⟩
    -- the base is there already
    rintro rfl
    rw [List.append_nil, h.directory] at hfree
    cases hfree
  · exact hmade hok _ (h.passes_iff.mpr ⟨names, List.prefix_rfl, rfl⟩)

/-- Directories can be made if no file is in their way. -/
theorem Leads.createDirectories_ok (h : fs.Leads path base names slashes) (hne : names ≠ [])
    (hbare : fs.Bare base)
    (hfiles : ∀ init, init <+: names → ∀ content, fs.get? (base ++ init) ≠ some (.file content)) :
    (fs.createDirectories path).1 = .ok () := by
  refine (h.heads hbare).createDirectories_ok (fun place hplace => ?_) fun hdot => ?_
  · obtain ⟨init, hinit, rfl⟩ := h.passes_iff.mp hplace
    exact hfiles init hinit
  · -- the last segment is a name
    obtain ⟨front, hsegments, -⟩ := h.front
    have hname : IsName (names.getLast hne) := h.named _ (List.getLast_mem hne)
    have hsplit : path.segments = front ++ names.dropLast ++ [names.getLast hne] ++ slashes := by
      rw [hsegments, List.append_assoc front, List.dropLast_concat_getLast, List.append_assoc]
    exact absurd ((Path.endsInDot_iff hsplit hname.1 h.silent).mp hdot) hname.2.1

end Leads

end FileSystem

end Siteworks
