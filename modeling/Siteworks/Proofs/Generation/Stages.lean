import Mathlib
import Siteworks.Proofs.FileSystem.Retrying
import Siteworks.Proofs.Generation.Locality
import Siteworks.Proofs.Generation.Refusals

/-!
# The stages of a run

A run is refused for its spec, or for its slug, or it builds the tree for its slug and packs it. What
the two stages do depends on the files only. Once a tree has been built, all further stages for other
slugs commute with it.
-/

namespace Siteworks

open FileSystem (Edits)
open Scaffold (Apart)

namespace Spec

/-- The slug for which a run builds a tree, or what is wrong with its spec. -/
def accepted (spec : Spec) : Except GenerationError String :=
  match spec.siteSlug with
  | .error e => .error e
  | .ok slug =>
    match spec.check with
    | .error e => .error e
    | .ok _ => .ok slug

/-- A spec is accepted exactly if its slug is resolved and its checks succeed. -/
theorem accepted_eq_ok_iff {spec : Spec} {slug : String} :
    spec.accepted = .ok slug ↔ spec.siteSlug = .ok slug ∧ spec.check = .ok () := by
  unfold accepted
  cases spec.siteSlug with
  | error e => simp
  | ok name => cases spec.check <;> simp

/-- What is wrong with a spec is found without looking at the slugs in use. -/
theorem ne_slugBusy_of_accepted {spec : Spec} {e : GenerationError} (h : spec.accepted = .error e)
    (slug : String) : e ≠ .slugBusy slug := by
  have hstatus : e.status = 422 := by
    unfold accepted at h
    split at h
    next hslug =>
      cases h
      exact (refusal_of_siteSlug hslug).1
    · split at h
      next hcheck =>
        cases h
        exact (refusal_of_check hcheck).1
      · cases h
  rintro rfl
  cases hstatus

end Spec

namespace Generator

variable {generator : Generator} {spec : Spec} {slug : String}

/-- The run that owns a slug. -/
def runOf (generator : Generator) (slug : String) : StartedRun :=
  ⟨slug, generator.treeOf slug, generator.archiveOf slug⟩

/-- Pack the tree for a slug. -/
def pack (generator : Generator) (slug : String) (fs : FileSystem) :
    Except GenerationError GeneratedSite × FileSystem :=
  match Archive.packTree fs (generator.treeOf slug) (generator.archiveOf slug) with
  | (.error e, fs) => (.error e, fs)
  | (.ok count, fs) => (.ok ⟨slug, generator.treeOf slug, generator.archiveOf slug, count⟩, fs)

/-- Build the tree for a slug and pack it. -/
def produce (generator : Generator) (spec : Spec) (slug : String) (fs : FileSystem) :
    Except GenerationError GeneratedSite × FileSystem :=
  match generator.buildTree spec slug fs with
  | (.error e, fs) => (.error e, fs)
  | (.ok _, fs) => generator.pack slug fs

/-- The end of a run packs its tree and gives the slug back. -/
theorem finish_runOf (generator : Generator) (slug : String) (workspace : Workspace) :
    (generator.runOf slug).finish workspace =
      ((generator.pack slug workspace.files).1,
        ⟨(generator.pack slug workspace.files).2, workspace.slugs.release slug⟩) := by
  unfold StartedRun.finish pack
  dsimp only [runOf]
  cases Archive.packTree workspace.files (generator.treeOf slug) (generator.archiveOf slug) with
  | mk result files => cases result <;> rfl

/-- The start of a run whose spec is not accepted changes nothing. -/
theorem start_of_refused {e : GenerationError} (h : spec.accepted = .error e)
    (workspace : Workspace) : generator.start spec workspace = (.error e, workspace) := by
  unfold Spec.accepted at h
  unfold start
  cases hslug : spec.siteSlug with
  | error e' =>
    simp only [hslug] at h
    cases h
    rfl
  | ok slug =>
    cases hcheck : spec.check with
    | error e' =>
      simp only [hslug, hcheck] at h
      cases h
      rfl
    | ok _ => simp [hslug, hcheck] at h

/-- The start of a run for a slug that is in use changes nothing. -/
theorem start_of_busy (h : spec.accepted = .ok slug) {workspace : Workspace}
    (hbusy : slug ∈ workspace.slugs.held) :
    generator.start spec workspace = (.error (.slugBusy slug), workspace) := by
  obtain ⟨hslug, hcheck⟩ := Spec.accepted_eq_ok_iff.mp h
  simp [start, hslug, hcheck, SlugTable.acquire, hbusy]

/-- The start of a run for a free slug builds its tree and, if it can be built, keeps the slug. -/
theorem start_of_free (h : spec.accepted = .ok slug) {workspace : Workspace}
    (hfree : slug ∉ workspace.slugs.held) :
    generator.start spec workspace =
      match generator.buildTree spec slug workspace.files with
      | (.error e, files) => (.error e, ⟨files, workspace.slugs⟩)
      | (.ok _, files) => (.ok (generator.runOf slug), ⟨files, ⟨slug :: workspace.slugs.held⟩⟩) := by
  obtain ⟨hslug, hcheck⟩ := Spec.accepted_eq_ok_iff.mp h
  have hacquire : workspace.slugs.acquire slug = .ok ⟨slug :: workspace.slugs.held⟩ :=
    SlugTable.acquire_eq_ok_iff.mpr ⟨hfree, rfl⟩
  simp only [start, hslug, hcheck, hacquire, SlugTable.release_acquire hacquire]
  rfl

/-- A run for a free slug builds its tree and packs it, and gives the slug back. -/
theorem generate_of_free (h : spec.accepted = .ok slug) {workspace : Workspace}
    (hfree : slug ∉ workspace.slugs.held) :
    generator.generate spec workspace =
      ((generator.produce spec slug workspace.files).1,
        ⟨(generator.produce spec slug workspace.files).2, workspace.slugs⟩) := by
  have hrelease : SlugTable.release ⟨slug :: workspace.slugs.held⟩ slug = workspace.slugs :=
    SlugTable.release_acquire (SlugTable.acquire_eq_ok_iff.mpr ⟨hfree, rfl⟩)
  rw [generate, start_of_free h hfree, produce]
  cases generator.buildTree spec slug workspace.files with
  | mk result files =>
    cases result with
    | error e => rfl
    | ok u =>
      simp only [finish_runOf]
      rw [hrelease]

/-- A run whose spec or slug is refused answers the same whatever the files are, and changes nothing.
Any other one builds its tree and packs it. -/
theorem generate_cases (generator : Generator) (spec : Spec) (slugs : SlugTable) :
    (∃ e, ∀ files, generator.generate spec ⟨files, slugs⟩ = (.error e, ⟨files, slugs⟩)) ∨
      ∃ slug, spec.siteSlug = .ok slug ∧ ∀ files, generator.generate spec ⟨files, slugs⟩ =
        ((generator.produce spec slug files).1, ⟨(generator.produce spec slug files).2, slugs⟩) := by
  cases h : spec.accepted with
  | error e => exact Or.inl ⟨e, fun files => by rw [generate, start_of_refused h]⟩
  | ok slug =>
    by_cases hbusy : slug ∈ slugs.held
    · exact Or.inl ⟨.slugBusy slug, fun files => by rw [generate, start_of_busy h hbusy]⟩
    · exact Or.inr ⟨slug, (Spec.accepted_eq_ok_iff.mp h).1, fun files => generate_of_free h hbusy⟩

/-- A tree that cannot be built is not said to be for a slug in use. -/
theorem ne_slugBusy_of_buildTree {fs after : FileSystem} {e : GenerationError}
    (hcheck : spec.check = .ok ()) (h : generator.buildTree spec slug fs = (.error e, after))
    (other : String) : e ≠ .slugBusy other := by
  rintro rfl
  rcases buildTree_eq_error hcheck h with hstatus | ⟨⟨page, -, part, -, _, -, _, _, -, -, hkey⟩, -⟩
  · cases hstatus
  · cases hkey

/-- A run that has been started is not told that its slug is in use. -/
theorem ne_slugBusy_of_finish (run : StartedRun) (workspace : Workspace) (other : String) :
    (run.finish workspace).1 ≠ .error (.slugBusy other) := by
  unfold StartedRun.finish
  split
  next e files hpack =>
    intro h
    have hstatus := Archive.status_of_packTree hpack
    rw [Except.error.inj h] at hstatus
    cases hstatus
  · exact nofun

section Sites

variable {base root : Place}

namespace Keeps

variable {α β : Type} {step : FileSystem → α × FileSystem}

/-- What is made of an answer makes no difference. -/
theorem map (h : Keeps generator base root slug step) (f : α → β) :
    Keeps generator base root slug fun fs => (f (step fs).1, (step fs).2) :=
  ⟨h.edits, fun a b ha hb hagree => ⟨congrArg f (h.agree a b ha hb hagree).answer,
    (h.agree a b ha hb hagree).left⟩⟩

/-- A step and what follows on its answer keep to their site. -/
theorem bind (h : Keeps generator base root slug step) {next : α → FileSystem → β × FileSystem}
    (hnext : ∀ x, Keeps generator base root slug (next x)) :
    Keeps generator base root slug fun fs => next (step fs).1 (step fs).2 := by
  refine ⟨fun fs hfs => ?_, fun a b ha hb hagree => ?_⟩
  · exact (h.edits fs hfs).trans ((hnext _).edits _ (h.ready hfs))
  · have hstep := h.agree a b ha hb hagree
    have hlast := (hnext (step a).1).agree _ _ (h.ready ha) (h.ready hb) hstep.left
    rwa [hstep.answer] at hlast ⊢

/-- To do nothing keeps to every site. -/
theorem pure (generator : Generator) (base root : Place) (slug : String) (x : α) :
    Keeps generator base root slug fun fs => (x, fs) :=
  ⟨fun fs _ => Edits.refl fs, fun _ _ _ _ hagree => ⟨rfl, hagree⟩⟩

end Keeps

/-- To pack the tree for a slug keeps to its site. -/
theorem keeps_pack (generator : Generator) (hslug : IsName slug) :
    Keeps generator base root slug (generator.pack slug) := by
  let site (count : Nat) : GeneratedSite :=
    ⟨slug, generator.treeOf slug, generator.archiveOf slug, count⟩
  convert (keeps_packTree generator hslug).map (Except.map site) using 1
  funext fs
  unfold pack
  split
  next heq => rw [heq]; rfl
  next heq => rw [heq]; rfl

/-- To build the tree for a slug and to pack it keeps to its site. -/
theorem keeps_produce (generator : Generator) (spec : Spec) (hslug : IsName slug) :
    Keeps generator base root slug (generator.produce spec slug) := by
  have hnext : ∀ result : Except GenerationError Unit, Keeps generator base root slug
      (match result with
        | .error e => fun fs => (Except.error e, fs)
        | .ok _ => generator.pack slug) := by
    rintro (e | u)
    · exact Keeps.pure generator base root slug (Except.error e)
    · exact keeps_pack generator hslug
  convert (keeps_buildTree generator spec hslug).bind hnext using 1
  funext fs
  unfold produce
  split
  next heq => rw [heq]
  next heq => rw [heq]

/-- There are no links, and the places to which the output and the scaffolds lead are apart. -/
structure Separate (generator : Generator) (base root : Place) (fs : FileSystem) : Prop where
  /-- There are no links. -/
  bare : fs.Bare []
  /-- The output leads to the base. -/
  output : fs.goal generator.output = base
  /-- The scaffolds lead to the root. -/
  scaffolds : fs.goal generator.scaffolds = root
  /-- The root and the base are apart. -/
  apart : Apart root base

namespace Separate

variable {fs made after : FileSystem}

/-- What is separate stays so. -/
theorem edits {dirs files : Place → Prop} (h : Separate generator base root fs)
    (hedits : Edits dirs files fs after) : Separate generator base root after :=
  ⟨h.bare.edits hedits, (hedits.goal_eq _).trans h.output, (hedits.goal_eq _).trans h.scaffolds,
    h.apart⟩

/-- Once the output is there and a scaffold is found, everything is ready. -/
theorem ready (h : Separate generator base root fs)
    (hmade : fs.createDirectories generator.output = (.ok (), made)) {place : Place}
    (hscaffold : made.locate (generator.scaffoldOf spec) = .ok place) :
    Ready generator base root made := by
  have hmaking := FileSystem.edits_createDirectories fs generator.output
  rw [hmade] at hmaking
  have hseparate := h.edits hmaking
  have hnamed : ∀ name ∈ [(spec.architecture.getD .landing).folder], IsName name := by
    cases spec.architecture.getD .landing <;> decide
  have habsolute := Path.isAbsolute_of_isName hnamed
  obtain ⟨base', hbase⟩ := FileSystem.enters_of_createDirectories hmade
  obtain rfl : base' = base := (hseparate.bare.eq_goal_of_enters hbase).trans hseparate.output
  -- the folder of the scaffold is in a directory, where the scaffolds are continued
  obtain ⟨-, hfound⟩ := FileSystem.locate_eq_ok_iff.mp hscaffold
  rw [scaffoldOf, Path.segments_join _ habsolute,
    made.start_join _ habsolute (List.cons_ne_nil _ _)] at hfound
  obtain ⟨root', hroot, hdirectory⟩ := FileSystem.followLinks_of_append
    (made.get?_start generator.scaffolds) (List.cons_ne_nil _ _) hfound
  have hentered : made.Enters generator.scaffolds root' := ⟨hroot, hdirectory⟩
  obtain rfl : root' = root :=
    (hseparate.bare.eq_goal_of_enters hentered).trans hseparate.scaffolds
  have hsame : Edits (fun _ => False) (fun _ => False) made made := Edits.refl made
  exact ⟨hseparate.bare, hsame.createDirectories_eq hmade, hbase, hentered, h.apart⟩

/-- To build a tree is an edit. -/
theorem edits_buildTree (h : Separate generator base root fs) (spec : Spec) (hslug : IsName slug) :
    ∃ dirs files, Edits dirs files fs (generator.buildTree spec slug fs).2 := by
  have hmaking := FileSystem.edits_createDirectories fs generator.output
  cases hmade : fs.createDirectories generator.output with
  | mk result made =>
    rw [hmade] at hmaking
    cases result with
    | error fault =>
      rw [buildTree, hmade]
      exact ⟨_, _, hmaking⟩
    | ok u =>
      obtain ⟨base', hbase⟩ := FileSystem.enters_of_createDirectories hmade
      have hbare : made.Bare base' := fun names => (h.bare.edits hmaking) (base' ++ names)
      have hbuilding := Generator.edits_buildTree hmade hbase hbare hslug
        (Prod.eta (generator.buildTree spec slug fs)).symm
      exact ⟨_, _, (hmaking.mono (fun _ _ => Or.inl trivial) fun _ => False.elim).trans
        (hbuilding.mono (fun _ => Or.inr) fun _ hmine => hmine)⟩

/-- Where a tree has been built, everything is ready. -/
theorem ready_of_buildTree (h : Separate generator base root fs) (hslug : IsName slug)
    (hbuild : generator.buildTree spec slug fs = (.ok (), after)) :
    Ready generator base root after := by
  obtain ⟨made, place, hmade, hscaffold⟩ := exists_of_buildTree hbuild
  have hready := h.ready hmade hscaffold
  exact hready.edits (Generator.edits_buildTree hmade hready.output
    (fun names => hready.bare (base ++ names)) hslug hbuild)

end Separate

end Sites

end Generator

end Siteworks
