import Mathlib
import Siteworks.Proofs.Generation.Sites
import Siteworks.Proofs.Generation.Stages

/-!
# Runs for different slugs

Runs for different slugs, one after the other, leave the same in every order, and each of them answers
what it answers alone. Only where the output cannot be made may a later run be given another reason
for it than the first, which has left some of the directories on the way.
-/

namespace Siteworks

open Scaffold (Apart)

/-- A spec with the slug of its site. -/
structure Job where
  /-- The spec. -/
  spec : Spec
  /-- The slug. -/
  slug : String
  /-- The slug is the one of the spec's site. -/
  resolved : spec.siteSlug = .ok slug

/-- The slugs of two jobs are different. -/
def Job.Apart (job other : Job) : Prop := job.slug ≠ other.slug

/-- No slug is that of both specs. -/
def Spec.DifferentSlugs (spec other : Spec) : Prop :=
  ∀ slug, ¬ (spec.siteSlug = .ok slug ∧ other.siteSlug = .ok slug)

namespace Generator

/-- Runs one after the other, each from its start to its end. -/
def generateEach (generator : Generator) (specs : List Spec) (workspace : Workspace) :
    List (Except GenerationError GeneratedSite) × Workspace :=
  inTurn generator.generate specs workspace

/-- An answer without the reason why the output could not be made. -/
def withoutFault (output : Path) :
    Except GenerationError GeneratedSite → Except GenerationError GeneratedSite
  | .error (.io path fault) => .error (.io path (if path = output then .notFound else fault))
  | answer => answer

/-- What a job does when its slug is free. -/
def work (generator : Generator) (job : Job) (fs : FileSystem) :
    Except GenerationError GeneratedSite × FileSystem :=
  generator.produce job.spec job.slug fs

variable {generator : Generator} {base root : Place} {fs : FileSystem}
  {f : Except GenerationError GeneratedSite → Except GenerationError GeneratedSite}

/-- Where everything is ready, jobs commute. -/
theorem commuting_work (generator : Generator) (base root : Place) :
    Commuting generator.work Job.Apart (Ready generator base root) := by
  have hkeeps : ∀ job : Job, Keeps generator base root job.slug (generator.work job) := fun job =>
    keeps_produce generator job.spec
      (Slug.isName_of_isUrlSafe (Spec.isUrlSafe_of_siteSlug job.resolved))
  refine ⟨fun job fs hfs => (hkeeps job).ready hfs, fun job other fs hfs hne => ?_⟩
  exact (hkeeps job).commute (hkeeps other) (Spec.isUrlSafe_of_siteSlug job.resolved)
    (Spec.isUrlSafe_of_siteSlug other.resolved) hne hfs

/-- A job that cannot make the output, or finds no scaffold, does nothing else. -/
theorem work_of_buildTree {job : Job} {e : GenerationError} {after : FileSystem}
    (h : generator.buildTree job.spec job.slug fs = (.error e, after)) :
    generator.work job fs = (.error e, after) := by
  rw [work, produce, h]

/-- Where the output cannot be made, jobs do nothing else than try. -/
theorem work_of_createDirectories {fault : IoFault} {made : FileSystem}
    (h : fs.createDirectories generator.output = (.error fault, made)) (job : Job) :
    generator.work job fs = (.error (.io generator.output fault), made) := by
  apply work_of_buildTree
  rw [buildTree, h]

/-- Once an attempt was made to make the output, jobs commute. -/
theorem Separate.exists_commuting (h : Separate generator base root fs) :
    ∃ stable, stable (fs.createDirectories generator.output).2 ∧
      Commuting generator.work Job.Apart stable := by
  cases hmade : fs.createDirectories generator.output with
  | mk result made =>
    cases result with
    | error fault =>
      obtain ⟨fault', hagain⟩ := FileSystem.createDirectories_again hmade
      refine ⟨(· = made), rfl, Commuting.of_left_eq _ fun job => ?_⟩
      rw [work_of_createDirectories hagain]
    | ok u =>
      by_cases hfound : ∃ (spec : Spec) (place : Place),
          made.locate (generator.scaffoldOf spec) = .ok place
      · obtain ⟨spec, place, hscaffold⟩ := hfound
        exact ⟨Ready generator base root, h.ready hmade hscaffold, commuting_work _ _ _⟩
      · refine ⟨(· = made), rfl, Commuting.of_left_eq _ fun job => ?_⟩
        have hsame : FileSystem.Edits (fun _ => False) (fun _ => False) made made := .refl made
        have hbuild : generator.buildTree job.spec job.slug made =
            (.error (.io (generator.scaffoldOf job.spec) .scaffoldMissing), made) := by
          rw [buildTree, hsame.createDirectories_eq hmade]
          cases hlocate : made.locate (generator.scaffoldOf job.spec) with
          | error fault => simp only [Scaffold.copyTree, hlocate]
          | ok place => exact absurd ⟨_, _, hlocate⟩ hfound
        rw [work_of_buildTree hbuild]

/-- Jobs commute up to what is kept of their answers if, wherever the output cannot be made, either
nothing is left of the attempt or the reason for it is not kept. -/
theorem Separate.exists_commuting_answering (h : Separate generator base root fs)
    (hf : (fs.createDirectories generator.output).2 = fs ∨
      ∀ fault fault', (fs.createDirectories generator.output).1 = .error fault →
        f (.error (.io generator.output fault)) = f (.error (.io generator.output fault'))) :
    ∃ stable, stable fs ∧
      Commuting (fun job => answering f (generator.work job)) Job.Apart stable := by
  obtain ⟨stable, hstable, hcommuting⟩ := h.exists_commuting
  rcases hf with hnothing | hkept
  · exact ⟨stable, hnothing ▸ hstable, hcommuting.answering f⟩
  · refine ⟨_, Or.inl rfl, (hcommuting.answering f).extend hstable fun job => ?_⟩
    cases hmade : fs.createDirectories generator.output with
    | mk result made =>
      rw [hmade] at hkept
      cases result with
      | error fault =>
        obtain ⟨fault', hagain⟩ := FileSystem.createDirectories_again hmade
        rw [answering, answering, work_of_createDirectories hmade,
          work_of_createDirectories hagain, hkept fault fault' rfl]
      | ok u =>
        have hsame : FileSystem.Edits (fun _ => False) (fun _ => False) made made := .refl made
        simp only [answering, work, produce, buildTree, hmade, hsame.createDirectories_eq hmade]

/-- A run that is refused whatever the files are commutes with every run. -/
theorem commuteAt_of_refused {spec : Spec} {slugs : SlugTable} {e : GenerationError}
    (h : ∀ files, generator.generate spec ⟨files, slugs⟩ = (.error e, ⟨files, slugs⟩))
    (other : Spec) (files : FileSystem) :
    CommuteAt (answering f (generator.generate spec)) (answering f (generator.generate other))
      ⟨files, slugs⟩ := by
  obtain ⟨answer, after, hother⟩ : ∃ answer after,
      generator.generate other ⟨files, slugs⟩ = (answer, ⟨after, slugs⟩) := by
    rcases generator.generate_cases other slugs with ⟨e', hrefused⟩ | ⟨slug, -, hrun⟩
    · exact ⟨_, _, hrefused files⟩
    · exact ⟨_, _, hrun files⟩
  exact ⟨by simp only [answering, h, hother], by simp only [answering, h],
    by simp only [answering, h, hother]⟩

/-- Where jobs commute, so do runs for specs with different slugs. -/
theorem commuting_generate {stable : FileSystem → Prop} (slugs : SlugTable)
    (h : Commuting (fun job => answering f (generator.work job)) Job.Apart stable) :
    Commuting (fun spec => answering f (generator.generate spec)) Spec.DifferentSlugs
      fun workspace => workspace.slugs = slugs ∧ stable workspace.files := by
  refine ⟨?_, ?_⟩
  · rintro spec ⟨files, held⟩ ⟨rfl, hfiles⟩
    rcases generator.generate_cases spec held with ⟨e, hrefused⟩ | ⟨slug, hslug, hrun⟩
    · rw [answering, hrefused]
      exact ⟨rfl, hfiles⟩
    · rw [answering, hrun]
      exact ⟨rfl, h.kept ⟨spec, slug, hslug⟩ files hfiles⟩
  · rintro spec other ⟨files, held⟩ ⟨rfl, hfiles⟩ hne
    rcases generator.generate_cases spec held with ⟨e, hrefused⟩ | ⟨slug, hslug, hrun⟩
    · exact commuteAt_of_refused hrefused other files
    rcases generator.generate_cases other held with ⟨e, hrefused⟩ | ⟨slug', hslug', hrun'⟩
    · exact (commuteAt_of_refused hrefused spec files).symm
    have hcommute := h.commute ⟨spec, slug, hslug⟩ ⟨other, slug', hslug'⟩ files hfiles
      fun heq : slug = slug' => hne slug ⟨hslug, heq ▸ hslug'⟩
    refine ⟨?_, ?_, ?_⟩
    · simp only [answering, hrun, hrun']
      exact hcommute.first
    · simp only [answering, hrun, hrun']
      exact hcommute.second
    · simp only [answering, hrun, hrun']
      exact congrArg (fun after => Workspace.mk after held) hcommute.left

/-- Runs for different slugs answer in every order what each of them answers alone, but for what is
not kept, and leave the same in every order. -/
theorem generateEach_of_perm {workspace : Workspace} {specs order : List Spec}
    (h : Separate generator base root workspace.files)
    (hf : (workspace.files.createDirectories generator.output).2 = workspace.files ∨
      ∀ fault fault', (workspace.files.createDirectories generator.output).1 = .error fault →
        f (.error (.io generator.output fault)) = f (.error (.io generator.output fault')))
    (hdifferent : specs.Pairwise Spec.DifferentSlugs) (hperm : order.Perm specs) :
    (generator.generateEach order workspace).1.map f =
        order.map (fun spec => f (generator.generate spec workspace).1) ∧
      (generator.generateEach order workspace).2 = (generator.generateEach specs workspace).2 := by
  obtain ⟨stable, hstable, hwork⟩ := h.exists_commuting_answering hf
  have hcommuting := commuting_generate workspace.slugs hwork
  have hsymm : ∀ {spec other : Spec}, spec.DifferentSlugs other → other.DifferentSlugs spec :=
    fun hne slug hboth => hne slug hboth.symm
  have hanswers := hcommuting.answers (hperm.symm.pairwise hdifferent hsymm) ⟨rfl, hstable⟩
  have hleft := hcommuting.left_perm hsymm hperm hdifferent ⟨rfl, hstable⟩
  rw [inTurn_answering] at hanswers
  rw [inTurn_answering, inTurn_answering] at hleft
  exact ⟨hanswers, hleft⟩

/-- Where no links are and the scaffolds are apart from the output, runs for different slugs leave the
same in every order. Each of them answers what it answers alone, but for the reason why the output
could not be made; and that is the same too unless the attempt to make it has left directories. -/
theorem generateEach_perm (workspace : Workspace) {specs order : List Spec}
    (hlinks : workspace.files.Bare [])
    (hapart : Apart (workspace.files.goal generator.scaffolds)
      (workspace.files.goal generator.output))
    (hdifferent : specs.Pairwise Spec.DifferentSlugs) (hperm : order.Perm specs) :
    (generator.generateEach order workspace).2 = (generator.generateEach specs workspace).2 ∧
      (generator.generateEach order workspace).1.map (withoutFault generator.output) =
        order.map (fun spec =>
          withoutFault generator.output (generator.generate spec workspace).1) ∧
      ((workspace.files.createDirectories generator.output).1 = .ok () ∨
          (workspace.files.createDirectories generator.output).2 = workspace.files →
        (generator.generateEach order workspace).1 =
          order.map fun spec => (generator.generate spec workspace).1) := by
  have hseparate : Separate generator (workspace.files.goal generator.output)
      (workspace.files.goal generator.scaffolds) workspace.files := ⟨hlinks, rfl, rfl, hapart⟩
  have hblurred : ∀ fault fault' : IoFault,
      withoutFault generator.output (.error (.io generator.output fault)) =
        withoutFault generator.output (.error (.io generator.output fault')) := fun _ _ => by
    simp [withoutFault]
  obtain ⟨hanswers, hleft⟩ :=
    generateEach_of_perm hseparate (Or.inr fun fault fault' _ => hblurred fault fault') hdifferent
      hperm
  refine ⟨hleft, hanswers, fun hmade => ?_⟩
  have hexact := (generateEach_of_perm (f := id) hseparate ?_ hdifferent hperm).1
  · simpa only [List.map_id_fun, id_eq] using hexact
  · rcases hmade with hok | hnothing
    · exact Or.inr fun fault _ hfault => absurd (hok.symm.trans hfault) nofun
    · exact Or.inl hnothing

/-- A spec for another slug than the one with a font. -/
def secondSpec : Spec where
  project := ⟨"Second", none⟩
  architecture := none
  theme := none
  pages := [⟨"home", "Home", "/", []⟩]

/-- The site of that spec. -/
def secondSite : GeneratedSite := ⟨"second", ⟨["out", "second"]⟩, ⟨["out", "second.zip"]⟩, 4⟩

private theorem differentSlugs_fontSpec : fontSpec.DifferentSlugs secondSpec := by
  have hfont : fontSpec.siteSlug = .ok "demo" := by decide +kernel
  have hsecond : secondSpec.siteSlug = .ok "second" := by decide +kernel
  rintro slug ⟨hone, hother⟩
  obtain rfl := Except.ok.inj (hfont.symm.trans hone)
  exact absurd (hsecond.symm.trans hother) (by decide)

/-- The second site is made before the one with a font as it is made after it. -/
theorem generateEach_perm_second :
    (sideBySide.generateEach [secondSpec, fontSpec] ⟨plainScaffold, .empty⟩).2 =
        (sideBySide.generateEach [fontSpec, secondSpec] ⟨plainScaffold, .empty⟩).2 ∧
      (sideBySide.generateEach [secondSpec, fontSpec] ⟨plainScaffold, .empty⟩).1 =
        [.ok secondSite, .ok fontSite] := by
  have houtput : plainScaffold.goal sideBySide.output = ["out"] := by decide +kernel
  have hscaffold : plainScaffold.goal sideBySide.scaffolds = ["scaffold"] := by decide +kernel
  have hmade : (plainScaffold.createDirectories sideBySide.output).1 = .ok () := by decide +kernel
  have hsecond : (sideBySide.generate secondSpec ⟨plainScaffold, .empty⟩).1 = .ok secondSite := by
    decide +kernel
  have hapart : Apart (plainScaffold.goal sideBySide.scaffolds)
      (plainScaffold.goal sideBySide.output) := by
    rw [houtput, hscaffold]
    exact ⟨by decide, by decide⟩
  obtain ⟨hleft, -, hexact⟩ := generateEach_perm ⟨plainScaffold, .empty⟩
    bare_plainScaffold hapart (List.pairwise_pair.mpr differentSlugs_fontSpec)
    (List.Perm.swap fontSpec secondSpec [])
  refine ⟨hleft, (hexact (Or.inl hmade)).trans ?_⟩
  rw [List.map_cons, List.map_cons, List.map_nil, hsecond, fontRun_eq]

/-- An output behind a file, to which the path takes a way round through a name that is free. -/
def detour : Generator := ⟨⟨["scaffold"]⟩, ⟨["x", "..", "file", "out"]⟩⟩

/-- A file in the way of the output. -/
def blockedScaffold : FileSystem := plainScaffold.put ["file"] (.file .empty)

/-- Runs for different slugs do not always answer the same in every order. -/
theorem exists_generateEach_perm_ne :
    ¬ ∀ (generator : Generator) (workspace : Workspace) (specs order : List Spec),
      workspace.files.Bare [] →
        Apart (workspace.files.goal generator.scaffolds)
          (workspace.files.goal generator.output) →
        specs.Pairwise Spec.DifferentSlugs → order.Perm specs →
        (∃ answer : Spec → Except GenerationError GeneratedSite,
          (generator.generateEach specs workspace).1 = specs.map answer ∧
            (generator.generateEach order workspace).1 = order.map answer) ∧
          (generator.generateEach order workspace).2 =
            (generator.generateEach specs workspace).2 := by
  intro hall
  have hbare : blockedScaffold.Bare [] := by
    have hnone : ∀ entry ∈ blockedScaffold.nodes.toList, entry.2.isLink = false := by
      decide +kernel
    intro names target hlink
    cases hnone _ (FileSystem.mem_toList_nodes.mpr hlink)
  have houtput : blockedScaffold.goal detour.output = ["file", "out"] := by decide +kernel
  have hscaffold : blockedScaffold.goal detour.scaffolds = ["scaffold"] := by decide +kernel
  have hapart : Apart (blockedScaffold.goal detour.scaffolds)
      (blockedScaffold.goal detour.output) := by
    rw [houtput, hscaffold]
    exact ⟨by decide, by decide⟩
  obtain ⟨⟨answer, hone, hother⟩, -⟩ := hall detour ⟨blockedScaffold, .empty⟩
    [fontSpec, secondSpec] [secondSpec, fontSpec] hbare hapart
    (List.pairwise_pair.mpr differentSlugs_fontSpec) (List.Perm.swap fontSpec secondSpec [])
  have hanswers : (detour.generateEach [fontSpec, secondSpec] ⟨blockedScaffold, .empty⟩).1 =
      [.error (.io detour.output .alreadyExists), .error (.io detour.output .notDirectory)] := by
    decide +kernel
  have hanswers' : (detour.generateEach [secondSpec, fontSpec] ⟨blockedScaffold, .empty⟩).1 =
      [.error (.io detour.output .alreadyExists), .error (.io detour.output .notDirectory)] := by
    decide +kernel
  have hfirst : answer fontSpec = .error (.io detour.output .alreadyExists) :=
    (List.cons.inj (hone.symm.trans hanswers)).1
  have hlast : answer fontSpec = .error (.io detour.output .notDirectory) :=
    (List.cons.inj (List.cons.inj (hother.symm.trans hanswers')).2).1
  exact absurd (hfirst.symm.trans hlast) (by decide)

end Generator

end Siteworks
