import Mathlib
import Siteworks.Proofs.Archive.Packing
import Siteworks.Proofs.Generation.Decoration
import Siteworks.Proofs.Generation.Outcomes
import Siteworks.Proofs.Scaffold.Completion
import Siteworks.Proofs.Words

/-!
# Runs that succeed

A run that succeeds has copied its scaffold, decorated the tree and packed it. What it leaves at its
tree is the scaffold, laid over what was there before and decorated; the archive has the entries of
that tree.
-/

namespace Siteworks

open FileSystem (Edits)
open Scaffold (Apart Copied Fits InTarget Target Tree overlay treeAt)

namespace Slug

/-- A slug can name something. -/
theorem isName_of_isUrlSafe {slug : String} (h : isUrlSafe slug = true) : IsName slug := by
  have hchars := isSlugChar_of_isUrlSafe h
  refine ⟨?_, ?_, ?_⟩
  · rintro rfl
    exact absurd h (by decide +kernel)
  · rintro rfl
    exact absurd (hchars '.' (by decide)) (by decide)
  · rintro rfl
    exact absurd (hchars '.' (by decide)) (by decide)

/-- A slug with something behind a dot is no slug. -/
theorem zip_ne_of_isUrlSafe {slug other : String} (h : isUrlSafe other = true) :
    slug ++ ".zip" ≠ other := by
  rintro rfl
  exact absurd (isSlugChar_of_isUrlSafe h '.' (by simp)) (by decide)

/-- What archives are called can name something. -/
theorem isName_zip (slug : String) : IsName (slug ++ ".zip") :=
  FileSystem.isName_append _ (by decide)

end Slug

/-- The slug of a spec's site is URL-safe. -/
theorem Spec.isUrlSafe_of_siteSlug {spec : Spec} {slug : String} (h : spec.siteSlug = .ok slug) :
    Slug.isUrlSafe slug = true := by
  unfold siteSlug at h
  simp only at h
  split at h
  · cases h
  · split at h
    · split at h
      next hsafe =>
        cases h
        exact hsafe
      · cases h
    · split at h
      · cases h
      next hne =>
        rw [← Except.ok.inj h]
        exact Slug.isUrlSafe_ofName hne

/-- A tree that can be decorated has a directory for its page. -/
theorem Spec.app_of_decorated {spec : Spec} {tree tree' : Tree}
    (h : spec.decorated tree = some tree') : tree ["app"] = some .directory := by
  obtain ⟨middle, hpaged, -⟩ := Option.bind_eq_some_iff.mp h
  unfold paged at hpaged
  split at hpaged
  · cases hpaged
  · split at hpaged
    · unfold Scaffold.Tree.write at hpaged
      split at hpaged
      next hadmits => exact hadmits.1
      · cases hpaged
    · cases hpaged

namespace Generator

variable {generator : Generator} {spec : Spec} {slug : String}

section Tree

variable {fs made after : FileSystem} {base root : Place}

/-- The tree for a slug is below where paths behind the output start. -/
theorem target_treeOf (hbase : made.Enters generator.output base) (hbare : made.Bare base)
    (hslug : IsName slug) : Target made (generator.treeOf slug) base slug :=
  ⟨hbase.leads (List.cons_ne_nil _ _) (by simpa using hslug), hbare⟩

/-- So is its archive. -/
theorem leads_archiveOf (hbase : made.Enters generator.output base) (slug : String) :
    made.Leads (generator.archiveOf slug) base [slug ++ ".zip"] [] :=
  hbase.leads (List.cons_ne_nil _ _) (by simpa using Slug.isName_zip slug)

/-- Building a tree changes nothing else once the output is there. -/
theorem edits_buildTree {result : Except GenerationError Unit}
    (hmade : fs.createDirectories generator.output = (.ok (), made))
    (hbase : made.Enters generator.output base) (hbare : made.Bare base) (hslug : IsName slug)
    (h : generator.buildTree spec slug fs = (result, after)) :
    Edits (InTarget base slug) (InTarget base slug) made after := by
  have htarget := target_treeOf hbase hbare hslug
  unfold buildTree at h
  rw [hmade] at h
  simp only at h
  split at h
  next hcopy =>
    cases h
    exact htarget.edits_copyTree hcopy
  next hcopy =>
    have hedits := htarget.edits_copyTree hcopy
    have hfollows := Spec.follows_decorate (htarget.edits hedits) spec
    rw [h] at hfollows
    exact hedits.trans hfollows.edits

/-- A tree is built only when the output is there and the scaffold was found. -/
theorem exists_of_buildTree (h : generator.buildTree spec slug fs = (.ok (), after)) :
    ∃ made root, fs.createDirectories generator.output = (.ok (), made) ∧
      made.locate (generator.scaffoldOf spec) = .ok root := by
  unfold buildTree at h
  split at h
  · cases h
  next made hmade =>
    refine ⟨made, ?_⟩
    cases hlocate : made.locate (generator.scaffoldOf spec) with
    | error fault => simp [Scaffold.copyTree, hlocate] at h
    | ok root => exact ⟨root, hmade, rfl⟩

/-- What was copied to a target that has a directory for the page. -/
theorem treeAt_eq_overlay {count : Nat} {source : Path} {target : Path}
    (htarget : Target made target base slug) (hscaffold : made.locate source = .ok root)
    (hapart : Apart root (base ++ [slug]))
    (hcopy : Scaffold.copyTree made source target = (.ok count, after))
    (happ : treeAt after (base ++ [slug]) ["app"] = some .directory) :
    treeAt after (base ++ [slug]) = overlay (treeAt made root) (treeAt made (base ++ [slug])) := by
  obtain ⟨hdirectory, hlaid, -⟩ := htarget.copyTree_lays hscaffold hapart hcopy
  funext m
  by_cases hm : m = []
  · subst hm
    have hself : treeAt made root [] = some .directory := by simpa [treeAt] using hdirectory
    have hover : overlay (treeAt made root) (treeAt made (base ++ [slug])) [] =
        some .directory := by
      simp [overlay, Scaffold.isExcluded, hself]
    rw [hover]
    simpa [treeAt] using FileSystem.get?_eq_directory_of_append happ
  · exact hlaid m hm

/-- A tree that has been built is the scaffold, laid over what was there before and decorated. -/
theorem decorated_of_buildTree
    (hmade : fs.createDirectories generator.output = (.ok (), made))
    (hbase : made.Enters generator.output base) (hbare : made.Bare base) (hslug : IsName slug)
    (hscaffold : made.locate (generator.scaffoldOf spec) = .ok root)
    (hapart : Apart root (base ++ [slug]))
    (h : generator.buildTree spec slug fs = (.ok (), after)) :
    made.get? root = some .directory ∧ after.get? (base ++ [slug]) = some .directory ∧
      spec.decorated (overlay (treeAt made root) (treeAt made (base ++ [slug]))) =
        some (treeAt after (base ++ [slug])) := by
  have htarget := target_treeOf hbase hbare hslug
  unfold buildTree at h
  rw [hmade] at h
  simp only at h
  split at h
  · cases h
  next copied hcopy =>
    have hedits := htarget.edits_copyTree hcopy
    have hfollows := Spec.follows_decorate (htarget.edits hedits) spec
    rw [h] at hfollows
    have hdecorated := hfollows.sound () rfl
    have happ := Spec.app_of_decorated hdecorated
    rw [treeAt_eq_overlay htarget hscaffold hapart hcopy happ] at hdecorated
    refine ⟨(htarget.copyTree_lays hscaffold hapart hcopy).1, ?_, hdecorated⟩
    exact hfollows.edits.directory (FileSystem.get?_eq_directory_of_append happ)

/-- A tree can be built if the scaffold fits what is at its place, and the two can be decorated. -/
theorem buildTree_ok {tree : Tree}
    (hmade : fs.createDirectories generator.output = (.ok (), made))
    (hbase : made.Enters generator.output base) (hbare : made.Bare base) (hslug : IsName slug)
    (hscaffold : made.locate (generator.scaffoldOf spec) = .ok root)
    (hdirectory : made.get? root = some .directory) (hapart : Apart root (base ++ [slug]))
    (hfits : ∀ m, Copied made root [] m →
      Fits (made.get? (root ++ m)) (made.get? (base ++ [slug] ++ m)))
    (hdecorated : spec.decorated (overlay (treeAt made root) (treeAt made (base ++ [slug]))) =
      some tree) :
    ∃ after, generator.buildTree spec slug fs = (.ok (), after) ∧
      treeAt after (base ++ [slug]) = tree := by
  have htarget := target_treeOf hbase hbare hslug
  obtain ⟨count, hcount⟩ := htarget.copyTree_ok hscaffold hdirectory hapart hfits
  cases hcopy : Scaffold.copyTree made (generator.scaffoldOf spec) (generator.treeOf slug) with
  | mk result copied =>
    rw [hcopy] at hcount
    obtain rfl : result = .ok count := hcount
    have hlaid := (htarget.copyTree_lays hscaffold hapart hcopy).2.1 ["app"] (by decide)
    rw [Spec.app_of_decorated hdecorated] at hlaid
    have hcopied := treeAt_eq_overlay htarget hscaffold hapart hcopy hlaid
    have hfollows := Spec.follows_decorate
      (htarget.edits (htarget.edits_copyTree hcopy)) spec
    rw [hcopied] at hfollows
    obtain ⟨u, hu⟩ := hfollows.complete tree hdecorated
    cases hstep : spec.decorate (generator.treeOf slug) copied with
    | mk result after =>
      rw [hstep] at hfollows hu
      obtain rfl : result = .ok u := hu
      refine ⟨after, ?_, ?_⟩
      · unfold buildTree
        rw [hmade]
        simp only [hcopy, hstep]
      · exact Option.some.inj ((hfollows.sound u rfl).symm.trans hdecorated)

/-- The place belongs to the site of a slug: its tree or its archive. -/
def OfSite (base : Place) (slug : String) (place : Place) : Prop :=
  InTarget base slug place ∨ place = base ++ [slug ++ ".zip"]

/-- What belongs to a site is below the base. -/
theorem OfSite.inBase {place : Place} (h : OfSite base slug place) :
    base <+: place := by
  rcases h with h | rfl
  · exact (List.prefix_append _ _).trans h
  · exact List.prefix_append _ _

/-- The base belongs to no site. -/
theorem OfSite.ne_base {place : Place} (h : OfSite base slug place) : place ≠ base := by
  rintro rfl
  rcases h with h | h
  · have hlength := h.length_le
    simp at hlength
  · simp at h

/-- What is in the tree of a slug belongs to no other site. -/
theorem OfSite.slug_eq {other : String} {names : Place} (hslug : Slug.isUrlSafe slug = true)
    (h : OfSite base other (base ++ [slug] ++ names)) : other = slug := by
  rcases h with ⟨more, hmore⟩ | hzip
  · rw [List.append_assoc, List.append_assoc] at hmore
    exact (List.cons.inj (List.append_cancel_left hmore)).1
  · rw [List.append_assoc] at hzip
    have hname := (List.cons.inj (List.append_cancel_left hzip)).1
    exact absurd hname.symm (Slug.zip_ne_of_isUrlSafe hslug)

/-- What belongs to the sites of different slugs is different. -/
theorem OfSite.eq_of_both {other : String} {place : Place}
    (hslug : Slug.isUrlSafe slug = true) (hother : Slug.isUrlSafe other = true)
    (h : OfSite base slug place) (h' : OfSite base other place) : slug = other := by
  rcases h with ⟨names, rfl⟩ | rfl
  · exact (h'.slug_eq hslug).symm
  · rcases h' with ⟨names, hnames⟩ | hzip
    · have hplace : OfSite base slug (base ++ [other] ++ names) := Or.inr hnames
      exact hplace.slug_eq hother
    · have hname := (List.cons.inj (List.append_cancel_left hzip)).1
      have hlist := congrArg String.toList hname
      rw [String.toList_append, String.toList_append] at hlist
      exact String.toList_injective (List.append_cancel_right hlist)

/-- A run gives back the slug that it has claimed, however it ends, and changes no file, or, once
the output is there, none but those of its site. -/
theorem edits_generate {before after : Workspace} {result : Except GenerationError GeneratedSite}
    (hmade : before.files.createDirectories generator.output = (.ok (), made))
    (hbase : made.Enters generator.output base) (hbare : made.Bare base)
    (h : generator.generate spec before = (result, after)) :
    after.slugs = before.slugs ∧ (after.files = before.files ∨ ∃ slug,
      spec.siteSlug = .ok slug ∧ Edits (OfSite base slug) (OfSite base slug) made after.files) := by
  have hbuilt : ∀ {slug : String} {result : Except GenerationError Unit} {built : FileSystem},
      spec.siteSlug = .ok slug → generator.buildTree spec slug before.files = (result, built) →
      Edits (InTarget base slug) (InTarget base slug) made built := by
    intro slug result built hslug hbuild
    have hname := Slug.isName_of_isUrlSafe (Spec.isUrlSafe_of_siteSlug hslug)
    exact edits_buildTree hmade hbase hbare hname hbuild
  have hpacked : ∀ {slug : String} {result : Except GenerationError Nat}
      {built files : FileSystem}, Edits (InTarget base slug) (InTarget base slug) made built →
      Archive.packTree built (generator.treeOf slug) (generator.archiveOf slug) =
        (result, files) →
      Edits (OfSite base slug) (OfSite base slug) made files := by
    intro slug result built files hedits hpack
    have harchive := Archive.edits_packTree (hbare.edits hedits)
      ((leads_archiveOf hbase slug).edits hedits) hpack
    exact (hedits.mono (fun _ => Or.inl) fun _ => Or.inl).trans
      (harchive.mono (fun _ => False.elim) fun _ => Or.inr)
  cases outcome_of_generate h with
  | refused fault => exact ⟨rfl, Or.inl rfl⟩
  | unbuilt name checked free build =>
    refine ⟨rfl, Or.inr ⟨_, name, ?_⟩⟩
    exact (hbuilt name build).mono (fun _ => Or.inl) fun _ => Or.inl
  | unpacked name checked free build pack =>
    exact ⟨rfl, Or.inr ⟨_, name, hpacked (hbuilt name build) pack⟩⟩
  | made name checked free build pack =>
    exact ⟨rfl, Or.inr ⟨_, name, hpacked (hbuilt name build) pack⟩⟩

/-- A run that succeeds leaves at its tree the scaffold, laid over what was there before and
decorated, and an archive of that tree. -/
theorem decorated_of_generate {before after : Workspace} {site : GeneratedSite}
    (hmade : before.files.createDirectories generator.output = (.ok (), made))
    (hbase : made.Enters generator.output base) (hbare : made.Bare base)
    (hscaffold : made.locate (generator.scaffoldOf spec) = .ok root)
    (hapart : Apart root (base ++ [site.slug]))
    (h : generator.generate spec before = (.ok site, after)) :
    made.get? root = some .directory ∧
      spec.decorated (overlay (treeAt made root) (treeAt made (base ++ [site.slug]))) =
        some (treeAt after.files (base ++ [site.slug])) ∧
      after.files.get? (base ++ [site.slug]) = some .directory ∧
      after.files.get? (base ++ [site.slug ++ ".zip"]) =
        some (.file (.archive ⟨Archive.entriesBelow after.files (base ++ [site.slug])⟩)) ∧
      site.files = (Archive.entriesBelow after.files (base ++ [site.slug])).length := by
  obtain ⟨built, hslug, -, -, hbuild, hpack, htree, harchive, -⟩ := generate_eq_ok_iff.mp h
  have hsafe := Spec.isUrlSafe_of_siteSlug hslug
  have hname := Slug.isName_of_isUrlSafe hsafe
  have hzip : site.slug ++ ".zip" ≠ site.slug := Slug.zip_ne_of_isUrlSafe hsafe
  obtain ⟨hroot, hdirectory, hdecorated⟩ :=
    decorated_of_buildTree hmade hbase hbare hname hscaffold hapart hbuild
  have hedits := edits_buildTree hmade hbase hbare hname hbuild
  have hbare' := hbare.edits hedits
  have hleads := ((target_treeOf hbase hbare hname).edits hedits).leads
  have hzipLeads := (leads_archiveOf hbase site.slug).edits hedits
  rw [htree, harchive] at hpack
  have hpacked := Archive.edits_packTree hbare' hzipLeads hpack
  have hsame : ∀ names, after.files.get? (base ++ [site.slug] ++ names) =
      built.get? (base ++ [site.slug] ++ names) := by
    intro names
    refine hpacked.get?_eq not_false fun heq => hzip ?_
    rw [List.append_assoc] at heq
    exact (List.cons.inj (List.append_cancel_left heq)).1.symm
  have htreeAt : treeAt after.files (base ++ [site.slug]) = treeAt built (base ++ [site.slug]) :=
    funext hsame
  rw [htreeAt, Archive.entriesBelow_congr hsame]
  refine ⟨hroot, hdecorated, hpacked.directory hdirectory, ?_, ?_⟩
  · exact Archive.get?_of_packTree hbare' hleads hzipLeads hzip hdirectory hpack
  · exact ((Archive.packTree_eq_ok_iff hbare' hleads hzipLeads hzip hdirectory).mp hpack).2.1

end Tree

end Generator

end Siteworks
