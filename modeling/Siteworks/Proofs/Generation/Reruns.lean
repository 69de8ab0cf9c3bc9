import Mathlib
import Siteworks.Proofs.Generation.Sites

/-!
# Running again

A run that is repeated makes what is there already. The copy resets the files that the theme reads,
if the scaffold has them, and the page is written without a look at the one that is there; so the
tree comes out as it was, and with it the archive.
-/

namespace Siteworks

open FileSystem (Edits)
open Scaffold (Apart Copied Fits InTarget Target Tree isExcluded overlay treeAt)

namespace Scaffold.Tree

/-- The second tree comes from the first by files written at some places, but not over
directories. -/
def Rewritten (files : Place → Prop) (before after : Tree) : Prop :=
  ∀ m, after m = before m ∨
    (files m ∧ before m ≠ some .directory ∧ ∃ content, after m = some (.file content))

variable {files : Place → Prop} {before middle after : Tree} {names : Place}

/-- A tree comes from itself. -/
theorem Rewritten.refl (tree : Tree) : Rewritten files tree tree := fun _ => Or.inl rfl

/-- Files that are written at some places are written at more places. -/
theorem Rewritten.mono {files' : Place → Prop} (h : Rewritten files before after)
    (hfiles : ∀ m, files m → files' m) : Rewritten files' before after := fun m =>
  (h m).imp_right fun hm => ⟨hfiles m hm.1, hm.2⟩

/-- Files may be written one after the other. -/
theorem Rewritten.trans (h : Rewritten files before middle) (h' : Rewritten files middle after) :
    Rewritten files before after := by
  intro m
  rcases h' m with hsame' | ⟨hf, hmiddle, hafter⟩
  · rw [hsame']
    exact h m
  · rcases h m with hsame | ⟨-, hbefore, -⟩
    · exact Or.inr ⟨hf, hsame ▸ hmiddle, hafter⟩
    · exact Or.inr ⟨hf, hbefore, hafter⟩

/-- A file is written at its place. -/
theorem rewritten_write {content : Content} (h : before.write names content = some after)
    (hfiles : files names) : Rewritten files before after := by
  unfold write at h
  split at h
  next hadmits =>
    cases h
    intro m
    by_cases hm : m = names
    · subst hm
      exact Or.inr ⟨hfiles, hadmits.2, content, Function.update_self ..⟩
    · exact Or.inl (Function.update_of_ne hm ..)
  · cases h

/-- A text is written at its place, or not at all. -/
theorem rewritten_writeChanged {text text' : List Char}
    (h : before.writeChanged names text text' = some after) (hfiles : files names) :
    Rewritten files before after := by
  unfold writeChanged at h
  split at h
  · cases h
    exact Rewritten.refl before
  · exact rewritten_write h hfiles

/-- No directories are made. -/
theorem Rewritten.directory (h : Rewritten files before after) {m : Place}
    (hafter : after m = some .directory) : before m = some .directory := by
  rcases h m with hsame | ⟨-, -, content, hfile⟩
  · exact hsame.symm.trans hafter
  · cases hfile.symm.trans hafter

/-- What fits a tree fits it after files were written. -/
theorem Rewritten.fits (h : Rewritten files before after) (m : Place) :
    Fits (before m) (after m) := by
  rcases h m with hsame | ⟨-, hbefore, content, hafter⟩
  · rw [hsame]
    exact Fits.refl _
  · refine ⟨fun hdirectory => absurd hdirectory hbefore, fun _ _ => ?_⟩
    rw [hafter]
    exact nofun

/-- A file can be written to trees that differ at its place only, and makes them the same. -/
theorem write_congr {other : Tree} {content : Content} (hsame : ∀ m, m ≠ names → other m = before m)
    (hne : names ≠ []) (hother : other names ≠ some .directory)
    (h : before.write names content = some after) : other.write names content = some after := by
  have hparent : names.dropLast ≠ names := by
    intro heq
    have hlength := congrArg List.length heq
    have hpos := List.length_pos_of_ne_nil hne
    rw [List.length_dropLast] at hlength
    omega
  unfold write at h ⊢
  split at h
  next hadmits =>
    cases h
    rw [if_pos ⟨(hsame _ hparent).trans hadmits.1, hother⟩]
    refine congrArg some (funext fun m => ?_)
    by_cases hm : m = names
    · rw [hm, Function.update_self, Function.update_self]
    · rw [Function.update_of_ne hm, Function.update_of_ne hm, hsame m hm]
  · cases h

end Scaffold.Tree

open Scaffold.Tree (Rewritten)

/-- The files that a run may write behind the copy. -/
def decorations : List Path := [Page.file, Layout.file, Stylesheet.file]

/-- A page is written at its place. -/
theorem Spec.rewritten_of_paged {spec : Spec} {tree tree' : Tree}
    (h : spec.paged tree = some tree') : Rewritten (· = Page.file.segments) tree tree' := by
  unfold paged at h
  split at h
  · cases h
  · split at h
    · exact Scaffold.Tree.rewritten_write h rfl
    · cases h

/-- A page does not take the place of a directory. -/
theorem Spec.page_ne_directory_of_paged {spec : Spec} {tree tree' : Tree}
    (h : spec.paged tree = some tree') : tree Page.file.segments ≠ some .directory := by
  unfold paged at h
  split at h
  · cases h
  · split at h
    · unfold Scaffold.Tree.write at h
      split at h
      next hadmits => exact hadmits.2
      · cases h
    · cases h

/-- A page looks at the components and not at the page that is there. -/
theorem Spec.paged_congr {spec : Spec} {tree other tree' : Tree}
    (hsame : ∀ m, m ≠ Page.file.segments → other m = tree m)
    (hother : other Page.file.segments ≠ some .directory)
    (h : spec.paged tree = some tree') : spec.paged other = some tree' := by
  have hfile : ∀ component : Component,
      other.isFile component.names = tree.isFile component.names := by
    intro component
    have hne : component.names ≠ Page.file.segments := by simp [Component.names, Page.file]
    rw [Scaffold.Tree.isFile, Scaffold.Tree.isFile, hsame _ hne]
  unfold paged at h ⊢
  simp only [hfile]
  split at h
  · cases h
  · split at h
    next hall =>
      rw [if_pos hall]
      exact Scaffold.Tree.write_congr hsame (by decide) hother h
    · cases h

/-- A theme writes the layout and the stylesheet only. -/
theorem Theme.rewritten_of_restyled {theme : Theme} {tree tree' : Tree}
    (h : theme.restyled tree = some tree') :
    Rewritten (fun m => m = Layout.file.segments ∨ m = Stylesheet.file.segments) tree tree' := by
  unfold restyled at h
  split at h
  · cases h
  · split at h
    · cases h
    · exact Scaffold.Tree.rewritten_writeChanged h (Or.inr rfl)
    · obtain ⟨middle, hlayout, hlast⟩ := Option.bind_eq_some_iff.mp h
      exact (Scaffold.Tree.rewritten_write hlayout (Or.inl rfl)).trans
        (Scaffold.Tree.rewritten_writeChanged hlast (Or.inr rfl))

/-- A page and a theme write the three files only. -/
theorem Spec.rewritten_of_decorated {spec : Spec} {tree tree' : Tree}
    (h : spec.decorated tree = some tree') :
    Rewritten (fun m => ∃ file ∈ decorations, m = file.segments) tree tree' := by
  obtain ⟨middle, hpaged, hrest⟩ := Option.bind_eq_some_iff.mp h
  have hpage : Rewritten (fun m => ∃ file ∈ decorations, m = file.segments) tree middle :=
    (rewritten_of_paged hpaged).mono fun m hm => ⟨Page.file, by simp [decorations], hm⟩
  split at hrest
  · cases hrest
    exact hpage
  · refine hpage.trans ((Theme.rewritten_of_restyled hrest).mono ?_)
    rintro m (hm | hm)
    · exact ⟨Layout.file, by simp [decorations], hm⟩
    · exact ⟨Stylesheet.file, by simp [decorations], hm⟩

/-- At each place an overlay shows its upper tree, whatever the lower one is, or the lower one. -/
theorem Scaffold.overlay_or (scaffold : Tree) (m : Place) :
    (∀ lower, overlay scaffold lower m = scaffold m) ∨ ∀ lower, overlay scaffold lower m = lower m := by
  unfold overlay
  cases hexcluded : isExcluded m with
  | true => exact Or.inr fun _ => by simp
  | false =>
    cases hnode : scaffold m with
    | none => exact Or.inr fun _ => by simp
    | some node =>
      cases node with
      | directory => exact Or.inl fun _ => by simp
      | file content => exact Or.inl fun _ => by simp
      | link target => exact Or.inr fun _ => by simp

/-- The files of a scaffold cover what is below, unless they are left behind. -/
theorem Scaffold.overlay_file {scaffold : Tree} {m : Place} {content : Content}
    (hkept : isExcluded m = false) (hfile : scaffold m = some (.file content)) (lower : Tree) :
    overlay scaffold lower m = some (.file content) := by
  simp [overlay, hkept, hfile]

/-- A scaffold with the files that themes write, laid over a tree that was decorated with it, can be
decorated and gives that tree. -/
theorem Spec.decorated_again {spec : Spec} {scaffold before tree : Tree}
    (hfiles : ∀ file ∈ [Layout.file, Stylesheet.file],
      ∃ content, scaffold file.segments = some (.file content))
    (h : spec.decorated (overlay scaffold before) = some tree) :
    spec.decorated (overlay scaffold tree) = some tree := by
  have hrewritten := rewritten_of_decorated h
  have hkept : ∀ file ∈ [Layout.file, Stylesheet.file], isExcluded file.segments = false := by decide
  have hsame : ∀ m, m ≠ Page.file.segments →
      overlay scaffold tree m = overlay scaffold before m := by
    intro m hpage
    rcases Scaffold.overlay_or scaffold m with hupper | hlower
    · rw [hupper, hupper]
    · rcases hrewritten m with hsame | ⟨⟨file, hfile, rfl⟩, -⟩
      · rw [hlower, hsame]
      · -- the scaffold has what the theme writes
        have hthemed : file ∈ [Layout.file, Stylesheet.file] :=
          (List.mem_cons.mp hfile).resolve_left fun heq => hpage (heq ▸ rfl)
        obtain ⟨content, hcontent⟩ := hfiles file hthemed
        rw [Scaffold.overlay_file (hkept file hthemed) hcontent,
          Scaffold.overlay_file (hkept file hthemed) hcontent]
  obtain ⟨middle, hpaged, hrest⟩ := Option.bind_eq_some_iff.mp h
  have hpage : overlay scaffold tree Page.file.segments ≠ some .directory := by
    rcases Scaffold.overlay_or scaffold Page.file.segments with hupper | hlower
    · rw [hupper, ← hupper before]
      exact page_ne_directory_of_paged hpaged
    · rw [hlower]
      exact fun hdirectory => page_ne_directory_of_paged hpaged (hrewritten.directory hdirectory)
  exact Option.bind_eq_some_iff.mpr ⟨middle, paged_congr hsame hpage hpaged, hrest⟩

namespace Generator

variable {generator : Generator} {spec : Spec} {before after : Workspace} {site : GeneratedSite}

/-- Where no links are, a run that succeeds has made the output and found its scaffold where the
paths tell. -/
theorem exists_made_of_generate (hlinks : before.files.Bare [])
    (h : generator.generate spec before = (.ok site, after)) :
    ∃ made, before.files.createDirectories generator.output = (.ok (), made) ∧
      Edits (fun _ => True) (fun _ => False) before.files made ∧
      made.Enters generator.output (before.files.goal generator.output) ∧
      made.locate (generator.scaffoldOf spec) = .ok (before.files.goal generator.scaffolds ++
        [(spec.architecture.getD .landing).folder]) := by
  obtain ⟨built, -, -, -, hbuild, -⟩ := generate_eq_ok_iff.mp h
  obtain ⟨made, root, hmade, hscaffold⟩ := exists_of_buildTree hbuild
  obtain ⟨base, hbase⟩ := FileSystem.enters_of_createDirectories hmade
  have hmaking := FileSystem.edits_createDirectories before.files generator.output
  rw [hmade] at hmaking
  have hlinks' := hlinks.edits hmaking
  have hgoal : base = before.files.goal generator.output := by
    rw [hlinks'.eq_goal_of_enters hbase, hmaking.goal_eq]
  have hroot : root = before.files.goal generator.scaffolds ++
      [(spec.architecture.getD .landing).folder] := by
    rw [hlinks'.eq_goal_of_locate hscaffold, hmaking.goal_eq]
    exact before.files.goal_join generator.scaffolds (List.cons_ne_nil _ _)
      (by cases spec.architecture.getD .landing <;> decide)
  exact ⟨made, hmade, hmaking, hgoal ▸ hbase, hroot ▸ hscaffold⟩

/-- Where no links are and the scaffolds are apart from the output, a run that succeeds for a scaffold
with a layout and a stylesheet succeeds again with the same answer, and leaves everything as it is. -/
theorem generate_again (hlinks : before.files.Bare [])
    (hapart : Apart (before.files.goal generator.scaffolds) (before.files.goal generator.output))
    (hfiles : ∀ file ∈ [Layout.file, Stylesheet.file], ∃ content,
      before.files.get? (before.files.goal generator.scaffolds ++
        [(spec.architecture.getD .landing).folder] ++ file.segments) = some (.file content))
    (h : generator.generate spec before = (.ok site, after)) :
    generator.generate spec after = (.ok site, after) := by
  obtain ⟨made, hmade, hmaking, hbase, hscaffold⟩ := exists_made_of_generate hlinks h
  generalize before.files.goal generator.output = base at hapart hbase
  have hroots := hapart.below [(spec.architecture.getD .landing).folder] []
  rw [List.append_nil] at hroots
  generalize before.files.goal generator.scaffolds ++
    [(spec.architecture.getD .landing).folder] = root at hfiles hscaffold hroots
  obtain ⟨built, hslug, hcheck, hfree, hbuild, hpack, htree, harchive, hslugs⟩ :=
    generate_eq_ok_iff.mp h
  have hsafe := Spec.isUrlSafe_of_siteSlug hslug
  have hname := Slug.isName_of_isUrlSafe hsafe
  have hbare : made.Bare base := fun names => (hlinks.edits hmaking) (base ++ names)
  have hapart' := hroots.concat site.slug
  -- what the first run has edited, and what it has left
  have hedits : Edits (OfSite base site.slug) (OfSite base site.slug) made after.files := by
    have hbuilt := edits_buildTree hmade hbase hbare hname hbuild
    rw [htree, harchive] at hpack
    have hpacked := Archive.edits_packTree (hbare.edits hbuilt)
      ((leads_archiveOf hbase site.slug).edits hbuilt) hpack
    exact (hbuilt.mono (fun _ => Or.inl) fun _ => Or.inl).trans
      (hpacked.mono (fun _ => False.elim) fun _ => Or.inr)
  obtain ⟨hdirectory, hdecorated, htreeDirectory, hzip, hcount⟩ :=
    decorated_of_generate hmade hbase hbare hscaffold hapart' h
  have hroot : treeAt after.files root = treeAt made root := by
    funext names
    have hoff : ¬ OfSite base site.slug (root ++ names) := fun hmine =>
      hroots.outside names hmine.inBase
    exact hedits.get?_eq hoff hoff
  rw [← hroot] at hdecorated
  have hthemed : ∀ file ∈ [Layout.file, Stylesheet.file], ∃ content,
      treeAt after.files root file.segments = some (.file content) := by
    intro file hfile
    obtain ⟨content, hcontent⟩ := hfiles file hfile
    rw [hroot]
    exact hmaking.file hcontent
  -- the second run finds all of this
  have hmade' := hedits.createDirectories_eq hmade
  have hbase' := hbase.edits hedits
  have hbare' := hbare.edits hedits
  have hfits : ∀ m, Copied after.files root [] m →
      Fits (after.files.get? (root ++ m)) (after.files.get? (base ++ [site.slug] ++ m)) := by
    intro m hm
    rw [← (Scaffold.overlay_cases after.files root _ m).1 hm]
    exact (Spec.rewritten_of_decorated hdecorated).fits m
  obtain ⟨again, hbuildAgain, htreeAgain⟩ := buildTree_ok hmade' hbase' hbare' hname
    (hedits.locate_ok hscaffold) (hedits.directory hdirectory) hapart' hfits
    (Spec.decorated_again hthemed hdecorated)
  have hagain : again = after.files := by
    have hsame := edits_buildTree hmade' hbase' hbare' hname hbuildAgain
    refine FileSystem.ext_get? hsame.workingDirectory fun place => ?_
    by_cases hmine : InTarget base site.slug place
    · obtain ⟨names, rfl⟩ := hmine
      exact congrFun htreeAgain names
    · exact hsame.get?_eq hmine hmine
  rw [hagain] at hbuildAgain
  have hpackAgain : Archive.packTree after.files site.tree site.archive =
      (.ok site.files, after.files) := by
    rw [htree, harchive]
    refine (Archive.packTree_eq_ok_iff hbare' (target_treeOf hbase' hbare' hname).leads
      (leads_archiveOf hbase' site.slug) (Slug.zip_ne_of_isUrlSafe hsafe) htreeDirectory).mpr
      ⟨by simp [hzip], hcount, ?_⟩
    exact (FileSystem.put_put_of_file hzip .empty).symm
  exact generate_eq_ok_iff.mpr ⟨after.files, hslug, hcheck, hslugs ▸ hfree, hbuildAgain, hpackAgain,
    htree, harchive, rfl⟩

/-- The run for the font succeeds again and leaves everything as it is. -/
theorem generate_again_font : sideBySide.generate fontSpec fontRun.2 = (.ok fontSite, fontRun.2) := by
  have houtput : plainScaffold.goal sideBySide.output = ["out"] := by decide +kernel
  have hscaffold : plainScaffold.goal sideBySide.scaffolds = ["scaffold"] := by decide +kernel
  refine generate_again bare_plainScaffold ?_ (fun file hfile => ?_) fontRun_eq
  · rw [houtput, hscaffold]
    exact ⟨by decide, by decide⟩
  · rw [hscaffold]
    simp only [List.mem_cons, List.not_mem_nil, or_false] at hfile
    rcases hfile with rfl | rfl
    · exact ⟨.ofText
        "export default function Layout() \x7b\n  return <body className=\"bg\" />;\n\x7d\n",
        by decide +kernel⟩
    · exact ⟨.ofText ":root \x7b --font-sans: serif; \x7d\n", by decide +kernel⟩

end Generator

end Siteworks
