import Mathlib
import Siteworks.Proofs.FileSystem.Goals
import Siteworks.Proofs.Generation.Refusals
import Siteworks.Proofs.Generation.Runs
import Siteworks.Proofs.Theme.Application

/-!
# What a site consists of

The files of a new site are those of its scaffold that are not left behind, byte for byte, but for
the page, which the spec tells, and the stylesheet and the layout, which the theme makes of those of
the scaffold. The archive has exactly these files.
-/

namespace Siteworks

open FileSystem (Edits)
open Scaffold (Apart Target Tree isExcluded overlay treeAt)

/-- What the files of a tree hold, by the names that lead to them. -/
abbrev Files := Place → Option Data

/-- The text of a file. -/
def Files.text? (files : Files) (names : Place) : Option (List Char) :=
  ((files names).bind Data.text?).map String.toList

/-- A file that holds a text has it. -/
theorem Files.text?_eq_some_of_eq {files : Files} {names : Place} {text : List Char}
    (h : files names = some (.ofText (String.ofList text))) : files.text? names = some text := by
  simp [text?, h]

/-- What a file holds is known from its text. -/
theorem Files.eq_of_text? {files : Files} {names : Place} {text : List Char}
    (h : files.text? names = some text) : files names = some (.ofText (String.ofList text)) := by
  obtain ⟨string, hstring, rfl⟩ := Option.map_eq_some_iff.mp h
  obtain ⟨data, hdata, htext⟩ := Option.bind_eq_some_iff.mp hstring
  rw [hdata, Data.text?_eq_some_iff.mp htext, String.ofList_toList]

/-- Files that agree in a place have one text there. -/
theorem Files.text?_congr {files others : Files} {names : Place} (h : files names = others names) :
    files.text? names = others.text? names := by
  rw [text?, h, text?]

namespace Scaffold.Tree

/-- What the files of a tree hold. -/
def files (tree : Tree) : Files := fun names =>
  match tree names with
  | some (.file content) => some content.data
  | _ => none

/-- A file holds what was written to it, and the others hold what they held. -/
theorem files_write {tree tree' : Tree} {names : Place} {content : Content}
    (h : tree.write names content = some tree') (m : Place) :
    tree'.files m = if m = names then some content.data else tree.files m := by
  unfold write at h
  split at h
  · cases h
    by_cases hm : m = names <;> simp [files, hm]
  · cases h

/-- A text is what a file holds. -/
theorem text?_eq (tree : Tree) (names : Place) :
    tree.text? names = (tree.files names).bind Data.text? := by
  unfold text? files
  cases tree names with
  | none => rfl
  | some node => cases node <;> rfl

/-- Files hold something. -/
theorem isFile_eq (tree : Tree) (names : Place) :
    tree.isFile names = (tree.files names).isSome := by
  unfold isFile files
  cases tree names with
  | none => rfl
  | some node => cases node <;> rfl

/-- A file holds the text that it was to have, whether it was written or had it before. -/
theorem files_writeChanged {tree tree' : Tree} {names : Place} {before after : List Char}
    (hbefore : tree.files names = some (.ofText (String.ofList before)))
    (h : tree.writeChanged names before after = some tree') (m : Place) :
    tree'.files m =
      if m = names then some (.ofText (String.ofList after)) else tree.files m := by
  unfold writeChanged at h
  split at h
  next heq =>
    cases h
    by_cases hm : m = names
    · rw [if_pos hm, hm, heq, hbefore]
    · rw [if_neg hm]
  · exact files_write h m

end Scaffold.Tree

/-- The files of a scaffold laid over a tree without files. -/
theorem Scaffold.files_overlay {scaffold before : Tree} (h : ∀ names, before.files names = none)
    (names : Place) :
    (overlay scaffold before).files names =
      if isExcluded names then none else scaffold.files names := by
  have hbefore : ∀ tree : Tree, tree names = before names → tree.files names = none := by
    intro tree heq
    rw [← h names, Tree.files, Tree.files, heq]
  cases hexcluded : isExcluded names with
  | true => exact hbefore _ (by simp [overlay, hexcluded])
  | false =>
    simp only [Bool.false_eq_true, ite_false]
    cases hnode : scaffold names with
    | none =>
      rw [hbefore (overlay scaffold before) (by simp [overlay, hexcluded, hnode])]
      simp [Tree.files, hnode]
    | some node =>
      cases node with
      | directory => simp [Tree.files, overlay, hexcluded, hnode]
      | file content => simp [Tree.files, overlay, hexcluded, hnode]
      | link target =>
        rw [hbefore (overlay scaffold before) (by simp [overlay, hexcluded, hnode])]
        simp [Tree.files, hnode]

/-- The stylesheet and the layout of a site are what a theme makes of those of its scaffold: the
palette of its colour goes into the stylesheet, and then its font into both. -/
structure Theme.Styles (theme : Theme) (scaffold site : Files) : Prop where
  /-- Both texts are what the theme makes of them. -/
  restyles : ∃ stylesheet stylesheet', scaffold.text? Stylesheet.file.segments = some stylesheet ∧
    site.text? Stylesheet.file.segments = some stylesheet' ∧
      theme.Restyles stylesheet (scaffold.text? Layout.file.segments) stylesheet'
        (site.text? Layout.file.segments)
  /-- Without a font the layout is that of the scaffold, whatever it holds. -/
  layout : theme.font = none → site Layout.file.segments = scaffold Layout.file.segments

/-- The texts that a theme makes are what the theme makes of the texts. -/
theorem Theme.restyles_of_styled {theme : Theme} {stylesheet : List Char} {layout : Option (List Char)}
    {styled : List Char × Option (List Char)} (h : theme.styled? stylesheet layout = some styled) :
    theme.Restyles stylesheet layout styled.1 (styled.2.or layout) ∧
      (theme.font = none ↔ styled.2 = none) := by
  unfold styled? at h
  cases hcolor : theme.recolor stylesheet with
  | error e => simp [hcolor] at h
  | ok colored =>
    have hrecolors := recolor_eq_ok_iff.mp hcolor
    cases hname : theme.font with
    | none =>
      simp only [hcolor, hname, Option.map_none, Option.some.injEq] at h
      subst h
      exact ⟨.plain hname hrecolors, by simp⟩
    | some name =>
      cases hfont : Font.ofName name with
      | error e => simp [hcolor, hname, hfont] at h
      | ok font =>
        cases layout with
        | none => simp [hcolor, hname, hfont] at h
        | some layout =>
          cases htexts : applyFont font layout colored with
          | error e => simp [hcolor, hname, hfont, htexts] at h
          | ok texts =>
            simp only [hcolor, hname, hfont, htexts, Option.map_some, Option.some.injEq] at h
            subst h
            exact ⟨.fonted hname hfont hrecolors htexts, by simp⟩

/-- A site has the files that a spec makes of a scaffold, with the source of its page. -/
structure IsSite (spec : Spec) (page : String) (scaffold site : Files) : Prop where
  /-- The page is the source that was made for it. -/
  page : site Page.file.segments = some (.ofText page)
  /-- A theme has made the stylesheet and the layout. -/
  styled : ∀ theme ∈ spec.theme, theme.Styles scaffold site
  /-- Everything else is what the scaffold holds, but for what is left behind. -/
  kept : ∀ names, names ≠ Page.file.segments →
    (spec.theme.isSome → names ≠ Stylesheet.file.segments ∧ names ≠ Layout.file.segments) →
      site names = if isExcluded names then none else scaffold names

/-- Nothing of a site is of the kind that is left behind. -/
theorem IsSite.eq_none_of_isExcluded {spec : Spec} {page : String} {scaffold site : Files}
    (h : IsSite spec page scaffold site) {names : Place} (hexcluded : isExcluded names = true) :
    site names = none := by
  have hne : ∀ other : Place, isExcluded other = false → names ≠ other := by
    rintro other hother rfl
    exact Bool.false_ne_true (hother.symm.trans hexcluded)
  rw [h.kept names (hne _ (by decide)) fun _ => ⟨hne _ (by decide), hne _ (by decide)⟩,
    if_pos hexcluded]

/-- A theme changes nothing but the stylesheet and the layout of a tree, and makes these of what
they were. -/
theorem Theme.styles_of_restyled {theme : Theme} {tree tree' : Tree}
    (h : theme.restyled tree = some tree') :
    theme.Styles tree.files tree'.files ∧ ∀ names, names ≠ Stylesheet.file.segments →
      names ≠ Layout.file.segments → tree'.files names = tree.files names := by
  have hne : Layout.file.segments ≠ Stylesheet.file.segments := by decide
  have htext : ∀ names, (tree.text? names).map String.toList = tree.files.text? names := by
    intro names
    rw [Scaffold.Tree.text?_eq, Files.text?]
  unfold restyled at h
  rw [htext, htext] at h
  split at h
  · cases h
  next current hcurrent =>
    have hdata : tree.files Stylesheet.file.segments = some (.ofText (String.ofList current)) :=
      Files.eq_of_text? hcurrent
    split at h
    · cases h
    next stylesheet hstyled =>
      obtain ⟨hrestyles, hplain⟩ := restyles_of_styled hstyled
      have hfiles := Scaffold.Tree.files_writeChanged hdata h
      have hlayout : tree'.files Layout.file.segments = tree.files Layout.file.segments := by
        rw [hfiles, if_neg hne]
      refine ⟨⟨⟨current, stylesheet, hcurrent, ?_, ?_⟩, fun _ => hlayout⟩, fun names hcss _ => ?_⟩
      · exact Files.text?_eq_some_of_eq (by rw [hfiles, if_pos rfl])
      · rwa [Files.text?_congr hlayout]
      · rw [hfiles, if_neg hcss]
    next stylesheet layout hstyled =>
      obtain ⟨hrestyles, hplain⟩ := restyles_of_styled hstyled
      obtain ⟨middle, hwritten, hlast⟩ := Option.bind_eq_some_iff.mp h
      have hmiddle := Scaffold.Tree.files_write hwritten
      have hcurrent' : middle.files Stylesheet.file.segments =
          some (.ofText (String.ofList current)) := by
        rw [hmiddle, if_neg hne.symm, hdata]
      have hfiles := Scaffold.Tree.files_writeChanged hcurrent' hlast
      have hlayout : tree'.files.text? Layout.file.segments = some layout := by
        refine Files.text?_eq_some_of_eq ?_
        rw [hfiles, if_neg hne, hmiddle, if_pos rfl]
        rfl
      refine ⟨⟨⟨current, stylesheet, hcurrent, ?_, ?_⟩, fun hnone => ?_⟩, fun names hcss hl => ?_⟩
      · exact Files.text?_eq_some_of_eq (by rw [hfiles, if_pos rfl])
      · rwa [hlayout]
      · cases hplain.mp hnone
      · rw [hfiles, if_neg hcss, hmiddle, if_neg hl]

/-- A page changes nothing but its file, and needs its components. -/
theorem Spec.files_of_paged {spec : Spec} {tree tree' : Tree} (h : spec.paged tree = some tree') :
    ∃ used page, Page.draft? spec = some (used, page) ∧
      (∀ component ∈ used, tree.isFile component.names = true) ∧
      ∀ names, tree'.files names =
        if names = Page.file.segments then some (.ofText page) else tree.files names := by
  unfold paged at h
  split at h
  · cases h
  next used page hdraft =>
    split at h
    next hall =>
      exact ⟨used, page, hdraft, List.all_eq_true.mp hall, Scaffold.Tree.files_write h⟩
    · cases h

/-- The source file of a component is not one of the app. -/
theorem Component.names_ne_app (component : Component) {name : String} :
    component.names ≠ ["app", name] := by
  simp [names]

/-- A scaffold that was laid over a tree without files and decorated is the site of its spec. -/
theorem isSite_of_decorated {spec : Spec} {scaffold before site : Tree}
    (hbefore : ∀ names, before.files names = none)
    (h : spec.decorated (overlay scaffold before) = some site) :
    ∃ used page, Page.draft? spec = some (used, page) ∧
      (∀ component ∈ used, site.isFile component.names = true) ∧
      IsSite spec page scaffold.files site.files := by
  obtain ⟨paged, hpaged, hrest⟩ := Option.bind_eq_some_iff.mp h
  obtain ⟨used, page, hdraft, hused, hpage⟩ := Spec.files_of_paged hpaged
  have hscaffold : ∀ names, names ≠ Page.file.segments →
      paged.files names = if isExcluded names then none else scaffold.files names := by
    intro names hne
    rw [hpage, if_neg hne, Scaffold.files_overlay hbefore]
  have hstays : ∀ names, ((overlay scaffold before).files names).isSome →
      (paged.files names).isSome := by
    intro names hfile
    rw [hpage]
    split
    · rfl
    · exact hfile
  refine ⟨used, page, hdraft, ?_⟩
  simp only [Scaffold.Tree.isFile_eq] at hused ⊢
  cases htheme : spec.theme with
  | none =>
    simp only [htheme, Option.some.injEq] at hrest
    subst hrest
    refine ⟨fun component hc => hstays _ (hused component hc), ?_, ?_, fun names hne _ => ?_⟩
    · rw [hpage, if_pos rfl]
    · simp [htheme]
    · exact hscaffold names hne
  | some theme =>
    simp only [htheme] at hrest
    obtain ⟨hstyles, hother⟩ := Theme.styles_of_restyled hrest
    have hcssPaged : paged.files Stylesheet.file.segments =
        scaffold.files Stylesheet.file.segments := hscaffold _ (by decide)
    have hlayoutPaged : paged.files Layout.file.segments =
        scaffold.files Layout.file.segments := hscaffold _ (by decide)
    refine ⟨fun component hc => ?_, ?_, ?_, fun names hne hthemed => ?_⟩
    · rw [hother _ component.names_ne_app component.names_ne_app]
      exact hstays _ (hused component hc)
    · rw [hother _ (by decide) (by decide), hpage, if_pos rfl]
    · rintro other hmem
      obtain rfl : theme = other := Option.some.inj (htheme.symm.trans hmem)
      obtain ⟨⟨stylesheet, stylesheet', hbefore, hafter, hrestyles⟩, hplain⟩ := hstyles
      rw [Files.text?_congr hcssPaged] at hbefore
      rw [Files.text?_congr hlayoutPaged] at hrestyles
      rw [hlayoutPaged] at hplain
      exact ⟨⟨stylesheet, stylesheet', hbefore, hafter, hrestyles⟩, hplain⟩
    · obtain ⟨hcssNe, hlayoutNe⟩ := hthemed (by rw [htheme]; rfl)
      rw [hother names hcssNe hlayoutNe, hscaffold names hne]

/-- While only directories are made, files hold what they held. -/
theorem FileSystem.Edits.files_treeAt {dirs : Place → Prop} {before after : FileSystem}
    (h : Edits dirs (fun _ => False) before after) (place : Place) :
    (treeAt after place).files = (treeAt before place).files := by
  funext names
  unfold Scaffold.Tree.files treeAt
  rcases h.changed (place ++ names) with hsame | ⟨-, hfree, hmade⟩ | ⟨hfalse, -⟩
  · rw [hsame]
  · rw [hfree, hmade]
  · exact hfalse.elim

/-- Below something that is not there are no files. -/
theorem Scaffold.files_treeAt_of_none {fs : FileSystem} {place : Place}
    (h : fs.get? place = none) (names : Place) : (treeAt fs place).files names = none := by
  have hnone : fs.get? (place ++ names) = none := by
    cases names with
    | nil => simpa using h
    | cons first rest =>
      by_contra hsome
      have hdirectory := FileSystem.get?_eq_directory (Option.isSome_iff_ne_none.mpr hsome)
        (List.cons_ne_nil _ _)
      exact absurd (h.symm.trans hdirectory) nofun
  simp [Tree.files, treeAt, hnone]

/-- The entries of an archive are the files, each once, by the names that lead to it. -/
def IsArchiveOf (entries : List ArchiveEntry) (files : Files) : Prop :=
  ∃ listing : List (Place × Data),
    entries = listing.map (fun file => ⟨"/".intercalate file.1, file.2⟩) ∧
    (listing.map Prod.fst).Nodup ∧ ∀ names data, (names, data) ∈ listing ↔ files names = some data

/-- A tree without anything of the kind that is left behind is packed file by file. -/
theorem Archive.isArchiveOf_entriesBelow {fs : FileSystem} {root : Place}
    (h : ∀ names, isExcluded names = true → (treeAt fs root).files names = none) :
    IsArchiveOf (entriesBelow fs root) (treeAt fs root).files := by
  refine ⟨(packed fs root).map fun file => (file.1, file.2.data), ?_, ?_, fun names data => ?_⟩
  · rw [entriesBelow_eq_map, List.map_map]
    rfl
  · rw [List.map_map]
    exact nodup_map_fst_packed fs root
  · simp only [List.mem_map, Prod.mk.injEq, Prod.exists, mem_packed]
    constructor
    · rintro ⟨_, content, ⟨hfile, -⟩, rfl, rfl⟩
      simp [Scaffold.Tree.files, treeAt, hfile]
    · intro hfile
      have hkept : isExcluded names = false := by
        by_contra hexcluded
        cases (h names (by simpa using hexcluded)).symm.trans hfile
      unfold Scaffold.Tree.files treeAt at hfile
      split at hfile
      next content hnode =>
        cases hfile
        exact ⟨names, content, ⟨hnode, hkept⟩, rfl, rfl⟩
      · cases hfile

/-- Files whose names have no slashes have different paths in their archive. -/
theorem IsArchiveOf.nodup {entries : List ArchiveEntry} {files : Files}
    (h : IsArchiveOf entries files) (hroot : files [] = none)
    (hslash : ∀ names, (files names).isSome → ∀ name ∈ names, '/' ∉ name.toList) :
    (entries.map ArchiveEntry.name).Nodup := by
  obtain ⟨listing, rfl, hnodup, hmem⟩ := h
  have hsome : ∀ file ∈ listing, (files file.1).isSome := by
    rintro ⟨names, data⟩ hfile
    rw [(hmem names data).mp hfile]
    rfl
  have hne : ∀ file ∈ listing, file.1 ≠ [] := by
    intro file hfile hnil
    have hself := hsome file hfile
    rw [hnil, hroot] at hself
    cases hself
  rw [List.map_map]
  refine List.pairwise_map.mpr ((List.pairwise_map.mp hnodup).imp_of_mem ?_)
  intro file other hfile hother hdifferent hsame
  exact hdifferent (Archive.intercalate_slash_inj (hslash _ (hsome file hfile))
    (hslash _ (hsome other hother)) (hne file hfile) (hne other hother) hsame)

/-- A site has files at places of its scaffold's files, and at the three that are made for it. -/
theorem IsSite.eq_or_isSome {spec : Spec} {page : String} {scaffold site : Files}
    (h : IsSite spec page scaffold site) {names : Place} (hfile : (site names).isSome) :
    (names = Page.file.segments ∨ names = Stylesheet.file.segments ∨
      names = Layout.file.segments) ∨ (scaffold names).isSome := by
  by_cases hthree : names = Page.file.segments ∨ names = Stylesheet.file.segments ∨
      names = Layout.file.segments
  · exact Or.inl hthree
  · rw [not_or, not_or] at hthree
    rw [h.kept names hthree.1 fun _ => hthree.2] at hfile
    split at hfile
    · cases hfile
    · exact Or.inr hfile

namespace Generator

/-- Where no links are, a run that succeeds at a new place makes there the site of its spec, byte
for byte, from the files that the scaffold had. The archive has exactly the files of the site, each
once, and their number is answered. -/
theorem isSite_of_generate {generator : Generator} {spec : Spec} {before after : Workspace}
    {site : GeneratedSite} (hlinks : before.files.Bare [])
    (hapart : Apart
      (before.files.goal generator.scaffolds ++ [(spec.architecture.getD .landing).folder])
      (before.files.goal generator.output ++ [site.slug]))
    (hnew : before.files.get? (before.files.goal generator.output ++ [site.slug]) = none)
    (h : generator.generate spec before = (.ok site, after)) :
    let scaffold := (treeAt before.files (before.files.goal generator.scaffolds ++
      [(spec.architecture.getD .landing).folder])).files
    let files := (treeAt after.files (before.files.goal generator.output ++ [site.slug])).files
    spec.siteSlug = .ok site.slug ∧ site.tree = generator.treeOf site.slug ∧
    site.archive = generator.archiveOf site.slug ∧
    (∃ page, Page.source after.files spec site.tree = .ok page ∧
      IsSite spec page scaffold files) ∧
    ∃ entries, after.files.get? (before.files.goal generator.output ++ [site.slug ++ ".zip"]) =
        some (.file (.archive ⟨entries⟩)) ∧
      IsArchiveOf entries files ∧ site.files = entries.length ∧
      ((∀ names, (scaffold names).isSome → ∀ name ∈ names, '/' ∉ name.toList) →
        (entries.map ArchiveEntry.name).Nodup) := by
  intro scaffold files
  obtain ⟨built, hslug, -, -, hbuild, -, htree, harchive, -⟩ := generate_eq_ok_iff.mp h
  obtain ⟨made, root, hmade, hscaffold⟩ := exists_of_buildTree hbuild
  obtain ⟨base, hbase⟩ := FileSystem.enters_of_createDirectories hmade
  have hmaking : Edits (fun _ => True) (fun _ => False) before.files made := by
    have hall := FileSystem.edits_createDirectories before.files generator.output
    rwa [hmade] at hall
  have hlinks' := hlinks.edits hmaking
  have hbare : made.Bare base := fun names => hlinks' (base ++ names)
  have hgoal : before.files.goal generator.output = base := by
    rw [hlinks'.eq_goal_of_enters hbase, hmaking.goal_eq]
  have hroot : before.files.goal generator.scaffolds ++
      [(spec.architecture.getD .landing).folder] = root := by
    rw [hlinks'.eq_goal_of_locate hscaffold, hmaking.goal_eq]
    exact (before.files.goal_join generator.scaffolds (List.cons_ne_nil _ _)
      (by cases spec.architecture.getD .landing <;> decide)).symm
  rw [hgoal, hroot] at hapart
  rw [hgoal] at hnew
  obtain ⟨-, hdecorated, hdirectory, hpacked, hcount⟩ :=
    decorated_of_generate hmade hbase hbare hscaffold hapart h
  have hbefore : ∀ names, (treeAt made (base ++ [site.slug])).files names = none := by
    rw [hmaking.files_treeAt]
    exact Scaffold.files_treeAt_of_none hnew
  obtain ⟨used, page, hdraft, hused, hsite⟩ := isSite_of_decorated hbefore hdecorated
  have hsite' : IsSite spec page scaffold files := by
    simp only [scaffold, files, hgoal, hroot]
    rwa [hmaking.files_treeAt] at hsite
  have harchived : IsArchiveOf (Archive.entriesBelow after.files (base ++ [site.slug])) files := by
    simp only [files, hgoal]
    exact Archive.isArchiveOf_entriesBelow fun names => hsite.eq_none_of_isExcluded
  refine ⟨hslug, htree, harchive, ⟨page, ?_, hsite'⟩, _, hgoal ▸ hpacked, harchived, hcount, ?_⟩
  · -- The components that the page uses are still there.
    obtain ⟨-, hsame | ⟨slug, hslug', hedits⟩⟩ := edits_generate hmade hbase hbare h
    · rw [hsame, hnew] at hdirectory
      cases hdirectory
    · have hname := Slug.isName_of_isUrlSafe (Spec.isUrlSafe_of_siteSlug hslug)
      have htarget := (target_treeOf hbase hbare hname).edits hedits
      rw [htree]
      exact (Page.source_target_iff htarget).mpr ⟨used, hdraft, hused⟩
  · intro hslash
    refine harchived.nodup ?_ fun names hfile => ?_
    · simp [files, hgoal, Scaffold.Tree.files, treeAt, hdirectory]
    · rcases hsite'.eq_or_isSome hfile with hthree | hkept
      · rcases hthree with rfl | rfl | rfl <;> decide
      · exact hslash names hkept

/-- A scaffold with a layout, a stylesheet, another file, and something to leave behind. -/
def plainScaffold : FileSystem :=
  [(["scaffold"], Node.directory), (["scaffold", "landing"], .directory),
    (["scaffold", "landing", ".git"], .directory),
    (["scaffold", "landing", ".git", "HEAD"], .file .empty),
    (["scaffold", "landing", "app"], .directory),
    (["scaffold", "landing", "app", "layout.tsx"], .file (.ofText
      "export default function Layout() \x7b\n  return <body className=\"bg\" />;\n\x7d\n")),
    (["scaffold", "landing", "app", "globals.css"], .file (.ofText
      ":root \x7b --font-sans: serif; \x7d\n")),
    (["scaffold", "landing", "LICENSE"], .file (.ofText "None.\n"))].foldl
      (fun fs (place, node) => fs.put place node) .empty

/-- A spec with a font. -/
def fontSpec : Spec where
  project := ⟨"Demo", none⟩
  architecture := none
  theme := some ⟨none, some "Inter"⟩
  pages := [⟨"home", "Home", "/", []⟩]

/-- The run for the font. -/
def fontRun : Except GenerationError GeneratedSite × Workspace :=
  sideBySide.generate fontSpec ⟨plainScaffold, .empty⟩

/-- The site of the font. -/
def fontSite : GeneratedSite := ⟨"demo", ⟨["out", "demo"]⟩, ⟨["out", "demo.zip"]⟩, 4⟩

/-- The run for the font succeeds. -/
theorem fontRun_eq :
    sideBySide.generate fontSpec ⟨plainScaffold, .empty⟩ = (.ok fontSite, fontRun.2) := by
  have h : fontRun.1 = .ok fontSite := by decide +kernel
  rw [← h]
  exact (Prod.eta fontRun).symm

/-- There are no links beside the scaffold. -/
theorem bare_plainScaffold : plainScaffold.Bare [] :=
  FileSystem.bare_of_toList_nodes (by decide +kernel)

/-- The scaffold with a stylesheet that has a place for a colour in light and in dark mode. -/
def colorScaffold : FileSystem :=
  plainScaffold.put ["scaffold", "landing", "app", "globals.css"]
    (.file (.ofText Theme.modesStylesheet))

/-- A spec with a colour and a font. -/
def colorSpec : Spec := { fontSpec with theme := some Theme.blackInter }

/-- The run for the colour and the font. -/
def colorRun : Except GenerationError GeneratedSite × Workspace :=
  sideBySide.generate colorSpec ⟨colorScaffold, .empty⟩

/-- The run for the colour and the font makes the site of its spec, whose theme puts the palette of
black into the stylesheet, with four files in its archive. -/
theorem isSite_of_generate_black :
    (∃ page, IsSite colorSpec page (treeAt colorScaffold ["scaffold", "landing"]).files
      (treeAt colorRun.2.files ["out", "demo"]).files) ∧
    Theme.blackInter.Styles (treeAt colorScaffold ["scaffold", "landing"]).files
      (treeAt colorRun.2.files ["out", "demo"]).files ∧
    ∃ entries, colorRun.2.files.get? ["out", "demo.zip"] = some (.file (.archive ⟨entries⟩)) ∧
      IsArchiveOf entries (treeAt colorRun.2.files ["out", "demo"]).files ∧ entries.length = 4 := by
  have houtput : colorScaffold.goal sideBySide.output = ["out"] := by decide +kernel
  have hscaffold : colorScaffold.goal sideBySide.scaffolds = ["scaffold"] := by decide +kernel
  have hlinks : colorScaffold.Bare [] := FileSystem.bare_of_toList_nodes (by decide +kernel)
  have hnew : colorScaffold.get? (colorScaffold.goal sideBySide.output ++ ["demo"]) = none := by
    decide +kernel
  have hapart : Apart (colorScaffold.goal sideBySide.scaffolds ++ ["landing"])
      (colorScaffold.goal sideBySide.output ++ ["demo"]) := by
    rw [houtput, hscaffold]
    exact ⟨by decide, by decide⟩
  have hsuccess : colorRun.1 = .ok fontSite := by decide +kernel
  have hrun : sideBySide.generate colorSpec ⟨colorScaffold, .empty⟩ = (.ok fontSite, colorRun.2) := by
    rw [← hsuccess]
    exact (Prod.eta colorRun).symm
  obtain ⟨-, -, -, ⟨page, -, hsite⟩, entries, hentries, harchived, hcount, -⟩ :=
    isSite_of_generate hlinks hapart hnew hrun
  simp only [houtput, hscaffold] at hsite hentries harchived
  exact ⟨⟨page, hsite⟩, hsite.styled _ rfl, entries, hentries, harchived, hcount.symm⟩

end Generator

end Siteworks
