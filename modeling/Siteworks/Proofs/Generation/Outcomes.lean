import Mathlib
import Siteworks.Generation

/-!
# How runs end

A run is refused before it changes anything, or it owns its slug and builds its tree, which may fail,
and packs it, which may fail too. However it ends, it has given its slug back.
-/

namespace Siteworks

/-- A slug that was claimed and given back is as free as before. -/
theorem SlugTable.release_acquire {table next : SlugTable} {slug : String}
    (h : table.acquire slug = .ok next) : next.release slug = table := by
  obtain ⟨hfree, hheld⟩ := acquire_eq_ok_iff.mp h
  have hfilter : table.held.filter (· ≠ slug) = table.held := by
    rw [List.filter_eq_self]
    intro other hother
    exact decide_eq_true fun heq => hfree (heq ▸ hother)
  unfold release
  rw [hheld, List.filter_cons_of_neg (by simp), hfilter]

namespace Generator

/-- The ways in which a run for a spec can end, with its answer and the workspace that it leaves. -/
inductive Outcome (generator : Generator) (spec : Spec) (before : Workspace) :
    Except GenerationError GeneratedSite → Workspace → Prop where
  /-- The run was refused: the spec is at fault, or its slug is in use. -/
  | refused {e : GenerationError}
      (fault : spec.siteSlug = .error e ∨ spec.check = .error e ∨
        ∃ slug ∈ before.slugs.held, e = .slugBusy slug) :
      Outcome generator spec before (.error e) before
  /-- The tree could not be built. -/
  | unbuilt {slug : String} {e : GenerationError} {files : FileSystem}
      (name : spec.siteSlug = .ok slug) (checked : spec.check = .ok ())
      (free : slug ∉ before.slugs.held)
      (build : generator.buildTree spec slug before.files = (.error e, files)) :
      Outcome generator spec before (.error e) ⟨files, before.slugs⟩
  /-- The tree could not be packed. -/
  | unpacked {slug : String} {e : GenerationError} {built files : FileSystem}
      (name : spec.siteSlug = .ok slug) (checked : spec.check = .ok ())
      (free : slug ∉ before.slugs.held)
      (build : generator.buildTree spec slug before.files = (.ok (), built))
      (pack : Archive.packTree built (generator.treeOf slug) (generator.archiveOf slug) =
        (.error e, files)) :
      Outcome generator spec before (.error e) ⟨files, before.slugs⟩
  /-- The site was made. -/
  | made {slug : String} {count : Nat} {built files : FileSystem}
      (name : spec.siteSlug = .ok slug) (checked : spec.check = .ok ())
      (free : slug ∉ before.slugs.held)
      (build : generator.buildTree spec slug before.files = (.ok (), built))
      (pack : Archive.packTree built (generator.treeOf slug) (generator.archiveOf slug) =
        (.ok count, files)) :
      Outcome generator spec before
        (.ok ⟨slug, generator.treeOf slug, generator.archiveOf slug, count⟩) ⟨files, before.slugs⟩

variable {generator : Generator} {spec : Spec} {before after : Workspace}

/-- Every run ends in one of these ways. -/
theorem outcome_of_generate {result : Except GenerationError GeneratedSite}
    (h : generator.generate spec before = (result, after)) :
    Outcome generator spec before result after := by
  unfold generate start at h
  cases hslug : spec.siteSlug with
  | error e =>
    simp only [hslug] at h
    cases h
    exact .refused (Or.inl hslug)
  | ok slug =>
    simp only [hslug] at h
    cases hcheck : spec.check with
    | error e =>
      simp only [hcheck] at h
      cases h
      exact .refused (Or.inr (Or.inl hcheck))
    | ok u =>
      simp only [hcheck] at h
      cases hacquire : before.slugs.acquire slug with
      | error e =>
        simp only [hacquire] at h
        cases h
        unfold SlugTable.acquire at hacquire
        split at hacquire
        next hheld =>
          cases hacquire
          exact .refused (Or.inr (Or.inr ⟨slug, hheld, rfl⟩))
        · cases hacquire
      | ok slugs =>
        have hfree := (SlugTable.acquire_eq_ok_iff.mp hacquire).1
        have hrelease := SlugTable.release_acquire hacquire
        simp only [hacquire] at h
        cases hbuild : generator.buildTree spec slug before.files with
        | mk outcome built =>
          cases outcome with
          | error e =>
            simp only [hbuild, hrelease] at h
            cases h
            exact .unbuilt hslug hcheck hfree hbuild
          | ok u =>
            simp only [hbuild, StartedRun.finish, hrelease] at h
            cases hpack : Archive.packTree built (generator.treeOf slug)
                (generator.archiveOf slug) with
            | mk outcome files =>
              cases outcome with
              | error e =>
                simp only [hpack] at h
                cases h
                exact .unpacked hslug hcheck hfree hbuild hpack
              | ok count =>
                simp only [hpack] at h
                cases h
                exact .made hslug hcheck hfree hbuild hpack

/-- A run succeeds exactly if its checks do, its slug is free, and its tree can be built and
packed. -/
theorem generate_eq_ok_iff {site : GeneratedSite} :
    generator.generate spec before = (.ok site, after) ↔ ∃ built,
      spec.siteSlug = .ok site.slug ∧ spec.check = .ok () ∧ site.slug ∉ before.slugs.held ∧
      generator.buildTree spec site.slug before.files = (.ok (), built) ∧
      Archive.packTree built site.tree site.archive = (.ok site.files, after.files) ∧
      site.tree = generator.treeOf site.slug ∧ site.archive = generator.archiveOf site.slug ∧
      after.slugs = before.slugs := by
  constructor
  · intro h
    cases outcome_of_generate h with
    | made name checked free build pack =>
      exact ⟨_, name, checked, free, build, pack, rfl, rfl, rfl⟩
  · rintro ⟨built, hslug, hcheck, hfree, hbuild, hpack, htree, harchive, hslugs⟩
    obtain ⟨slug, tree, archive, count⟩ := site
    obtain ⟨files, slugs⟩ := after
    simp only at hslug hfree hbuild hpack htree harchive hslugs
    subst htree harchive hslugs
    have hacquire : before.slugs.acquire slug = .ok ⟨slug :: before.slugs.held⟩ :=
      SlugTable.acquire_eq_ok_iff.mpr ⟨hfree, rfl⟩
    have hrelease := SlugTable.release_acquire hacquire
    unfold generate start
    simp only [hslug, hcheck, hacquire, hbuild, StartedRun.finish, hpack, hrelease]

end Generator

end Siteworks
