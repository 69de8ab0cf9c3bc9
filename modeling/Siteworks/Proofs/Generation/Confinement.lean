import Mathlib
import Siteworks.Proofs.FileSystem.Ancestors
import Siteworks.Proofs.Generation.Histories

/-!
# What a run keeps to

A run makes the output with what is missing on the way to it, and then it keeps to the tree and the
archive of its slug, however it ends. A slug is made of words of lower-case letters and digits with a
hyphen between two, whatever the spec says, so that it names something in the output; and what
belongs to different slugs is different.
-/

namespace Siteworks

open FileSystem (Edits)

namespace Slug

/-- Words of lower-case ASCII letters and digits, with a hyphen between two. -/
def Hyphenated (slug : String) : Prop :=
  ∃ words : List (List Char), words ≠ [] ∧
    (∀ word ∈ words, word ≠ [] ∧ ∀ c ∈ word, isSlugChar c = true) ∧
    slug.toList = ['-'].intercalate words

/-- What is URL-safe is made of such words. -/
theorem hyphenated_of_isUrlSafe {slug : String} (h : isUrlSafe slug = true) : Hyphenated slug := by
  simp only [isUrlSafe, Bool.and_eq_true, decide_eq_true_eq] at h
  obtain ⟨hne, hself⟩ := h
  refine ⟨Text.runs isSlugChar (slug.toList.flatMap Text.lowercase), ?_, fun word hword => ?_, ?_⟩
  · intro hnil
    rw [ofName, ofChars_eq, hnil] at hself
    exact hne hself.symm
  · exact ⟨Text.ne_nil_of_mem_runs hword, fun c hc => Text.inClass_of_mem_runs hword hc⟩
  · conv_lhs => rw [← hself, ofName, String.toList_ofList, ofChars_eq]

/-- A slug has no slash. -/
theorem slash_not_mem_of_isUrlSafe {slug : String} (h : isUrlSafe slug = true) :
    '/' ∉ slug.toList := fun hmem => absurd (isSlugChar_of_isUrlSafe h '/' hmem) (by decide)

end Slug

namespace Generator

variable {generator : Generator} {spec : Spec} {before after : Workspace}
  {result : Except GenerationError GeneratedSite}

/-- A run changes no file, or it makes the output; once that is there it edits nothing but what
belongs to its site. -/
theorem edits_of_generate
    (hbare : ∀ base, (before.files.createDirectories generator.output).2.Enters generator.output base →
      before.files.Bare base)
    (h : generator.generate spec before = (result, after)) :
    after.files = before.files ∨
      after.files = (before.files.createDirectories generator.output).2 ∨
      ∃ slug base, spec.siteSlug = .ok slug ∧ after.files.Enters generator.output base ∧
        Edits (OfSite base slug) (OfSite base slug)
          (before.files.createDirectories generator.output).2 after.files := by
  have hmaking := FileSystem.edits_createDirectories before.files generator.output
  cases hmade : before.files.createDirectories generator.output with
  | mk outcome made =>
    rw [hmade] at hbare hmaking
    cases outcome with
    | error fault =>
      have hbuild : ∀ slug, generator.buildTree spec slug before.files =
          (.error (.io generator.output fault), made) := by
        intro slug
        unfold buildTree
        rw [hmade]
      cases outcome_of_generate h with
      | refused => exact Or.inl rfl
      | unbuilt name checked free build =>
        rw [hbuild] at build
        cases build
        exact Or.inr (Or.inl rfl)
      | unpacked name checked free build =>
        rw [hbuild] at build
        cases build
      | made name checked free build =>
        rw [hbuild] at build
        cases build
    | ok u =>
      obtain ⟨base, hbase⟩ := FileSystem.enters_of_createDirectories hmade
      obtain ⟨-, hsame | ⟨slug, hslug, hedits⟩⟩ :=
        edits_generate hmade hbase ((hbare base hbase).edits hmaking) h
      · exact Or.inl hsame
      · exact Or.inr (Or.inr ⟨slug, base, hslug, hbase.edits hedits, hedits⟩)

/-- A run, however it ends, changes no place but the output and what is missing on the way to it,
which become directories, and what belongs to the site of its slug. The slug is made of words with
hyphens between them, and names something. What belongs to the sites of two slugs is disjoint. -/
theorem confined_of_generate
    (hbare : ∀ base, (before.files.createDirectories generator.output).2.Enters generator.output base →
      before.files.Bare base)
    (h : generator.generate spec before = (result, after)) :
    (∀ place, after.files.get? place ≠ before.files.get? place →
      (before.files.get? place = none ∧ after.files.get? place = some .directory ∧
          after.files.OnPath generator.output place) ∨
        ∃ slug base, spec.siteSlug = .ok slug ∧ after.files.Enters generator.output base ∧
          OfSite base slug place) ∧
      ∀ slug, spec.siteSlug = .ok slug → Slug.Hyphenated slug ∧ IsName slug ∧ '/' ∉ slug.toList ∧
        ∀ (other : Spec) (otherSlug : String), other.siteSlug = .ok otherSlug → otherSlug ≠ slug →
          ∀ base place, ¬ (OfSite base slug place ∧ OfSite base otherSlug place) := by
  constructor
  · intro place hchanged
    have hmaking := FileSystem.edits_createDirectories_onPath before.files generator.output
    -- a place that changed while the output was made is on the way to it, and stays a directory
    have hway : ∀ {dirs files : Place → Prop},
        Edits dirs files (before.files.createDirectories generator.output).2 after.files →
        (before.files.createDirectories generator.output).2.get? place ≠ before.files.get? place →
        before.files.get? place = none ∧ after.files.get? place = some .directory ∧
          after.files.OnPath generator.output place := by
      intro dirs files hedits hnew
      rcases hmaking.changed place with hsame | ⟨hon, hfree, hmade⟩ | ⟨hfalse, -⟩
      · exact absurd hsame hnew
      · exact ⟨hfree, hedits.directory hmade, hon.edits hedits⟩
      · exact hfalse.elim
    rcases edits_of_generate hbare h with hsame | hsame | ⟨slug, base, hslug, hbase, hedits⟩
    · exact absurd (by rw [hsame]) hchanged
    · have hnothing : Edits (fun _ => False) (fun _ => False)
          (before.files.createDirectories generator.output).2 after.files := hsame ▸ Edits.refl _
      exact Or.inl (hway hnothing (hsame ▸ hchanged))
    · by_cases hmine : OfSite base slug place
      · exact Or.inr ⟨slug, base, hslug, hbase, hmine⟩
      · refine Or.inl (hway hedits fun hsame => hchanged ?_)
        exact (hedits.get?_eq hmine hmine).trans hsame
  · intro slug hslug
    have hsafe := Spec.isUrlSafe_of_siteSlug hslug
    refine ⟨Slug.hyphenated_of_isUrlSafe hsafe, Slug.isName_of_isUrlSafe hsafe,
      Slug.slash_not_mem_of_isUrlSafe hsafe, ?_⟩
    rintro other otherSlug hother hne base place ⟨hmine, htheirs⟩
    exact hne (hmine.eq_of_both hsafe (Spec.isUrlSafe_of_siteSlug hother) htheirs).symm

/-- A spec whose name is a path out of the output. -/
def escapingSpec : Spec where
  project := ⟨"../../Etc/Passwd", none⟩
  architecture := none
  theme := none
  pages := [⟨"home", "Home", "/", []⟩]

/-- The run for that name. -/
def escapingRun : Except GenerationError GeneratedSite × Workspace :=
  sideBySide.generate escapingSpec ⟨plainScaffold, .empty⟩

/-- The run for a name that is a path out of the output changes nothing but the output and what
belongs to a slug in it. -/
theorem confined_of_generate_escaping :
    escapingSpec.siteSlug = .ok "etc-passwd" ∧
      ∀ place, escapingRun.2.files.get? place ≠ plainScaffold.get? place →
        place = ["out"] ∨ OfSite ["out"] "etc-passwd" place := by
  have houtput : escapingRun.2.files.locate sideBySide.output = .ok ["out"] := by decide +kernel
  have hdirectory : escapingRun.2.files.get? ["out"] = some .directory := by decide +kernel
  have hparent : sideBySide.output.parent? = some ⟨[""]⟩ := by decide +kernel
  have hroot : Path.parent? ⟨[""]⟩ = none := by decide +kernel
  have hslug : escapingSpec.siteSlug = .ok "etc-passwd" := by decide +kernel
  have hnowhere : ∀ fs : FileSystem, fs.locate ⟨[""]⟩ = .error .notFound := fun _ => rfl
  have hrun : sideBySide.generate escapingSpec ⟨plainScaffold, .empty⟩ =
      (escapingRun.1, escapingRun.2) := (Prod.eta escapingRun).symm
  obtain ⟨hall, -⟩ := confined_of_generate
    (fun base _ names => bare_plainScaffold (base ++ names)) hrun
  refine ⟨hslug, fun place hchanged => ?_⟩
  rcases hall place hchanged with ⟨-, -, ancestor, habove, hlocate⟩ | ⟨slug, base, hs, hbase, hmine⟩
  · left
    rcases Relation.ReflTransGen.cases_head habove with rfl | ⟨parent, hstep, hmore⟩
    · exact Except.ok.inj (hlocate.symm.trans houtput)
    · -- the parent of the output is the empty path, which leads nowhere
      obtain rfl := Option.some.inj (hparent.symm.trans hstep)
      rcases Relation.ReflTransGen.cases_head hmore with rfl | ⟨above, hstep, -⟩
      · cases (hnowhere _).symm.trans hlocate
      · cases hroot.symm.trans hstep
  · right
    obtain rfl := Except.ok.inj (hslug.symm.trans hs)
    have hentered := (FileSystem.enters_of_locate houtput hdirectory).stem
    obtain rfl := FileSystem.Reach.found.inj (hentered.symm.trans hbase.stem)
    exact hmine

end Generator

end Siteworks
