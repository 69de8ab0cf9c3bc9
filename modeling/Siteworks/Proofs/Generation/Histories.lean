import Mathlib
import Siteworks.Proofs.Generation.Sites

/-!
# What earlier runs leave to later ones

Runs take nothing away. What earlier runs have left at the place of a tree stays there unless the
scaffold, the page or the theme replaces it, and is packed with the rest. Nothing else of what they
have left matters: a run is as good as one on an empty output if its place is free.
-/

namespace Siteworks

open FileSystem (Edits)
open Scaffold (Apart Fits InTarget Tree overlay treeAt)

namespace Scaffold.Tree

/-- A tree laid over another one, which shows where the first has nothing. -/
def covering (upper lower : Tree) : Tree := fun names => (upper names).or (lower names)

/-- Nothing of the lower tree shows exactly if the upper one has something wherever it has. -/
theorem covering_eq_left_iff {upper lower : Tree} :
    upper.covering lower = upper ↔ ∀ names, upper names = none → lower names = none := by
  constructor
  · intro h names hnone
    have hnames := congrFun h names
    rwa [covering, hnone, Option.none_or] at hnames
  · intro h
    funext names
    rw [covering]
    cases hnode : upper names with
    | none => rw [Option.none_or, h names hnode]
    | some node => rfl

/-- A text of the upper tree is one of the whole. -/
theorem text?_covering {upper : Tree} {names : Place} {text : String}
    (h : upper.text? names = some text) (lower : Tree) :
    (upper.covering lower).text? names = some text := by
  unfold text? at h ⊢
  split at h
  next content hnode => simpa [covering, hnode] using h
  · cases h

/-- What is written to both is written to the upper tree. -/
theorem write_covering {upper upper' lower whole : Tree} {names : Place} {content : Content}
    (hupper : upper.write names content = some upper')
    (hwhole : (upper.covering lower).write names content = some whole) :
    whole = upper'.covering lower := by
  unfold write at hupper hwhole
  split at hupper
  · split at hwhole
    · cases hupper
      cases hwhole
      funext m
      by_cases hm : m = names <;> simp [covering, hm]
    · cases hwhole
  · cases hupper

/-- What is changed in both is changed in the upper tree. -/
theorem writeChanged_covering {upper upper' lower whole : Tree} {names : Place}
    {before after : List Char} (hupper : upper.writeChanged names before after = some upper')
    (hwhole : (upper.covering lower).writeChanged names before after = some whole) :
    whole = upper'.covering lower := by
  unfold writeChanged at hupper hwhole
  split at hupper
  next hsame =>
    rw [if_pos hsame] at hwhole
    cases hupper
    cases hwhole
    rfl
  next hdifferent =>
    rw [if_neg hdifferent] at hwhole
    exact write_covering hupper hwhole

end Scaffold.Tree

/-- A scaffold laid over a tree is laid over nothing and then over the tree. -/
theorem Scaffold.overlay_eq_covering (scaffold before : Tree) :
    overlay scaffold before = (overlay scaffold fun _ => none).covering before := by
  funext names
  unfold overlay Tree.covering
  cases hexcluded : isExcluded names with
  | true => simp [hexcluded]
  | false =>
    cases hnode : scaffold names with
    | none => simp [hexcluded, hnode]
    | some node => cases node <;> simp [hexcluded, hnode]

/-- A page that is put into both is put into the upper tree. -/
theorem Spec.paged_covering {spec : Spec} {upper upper' lower whole : Tree}
    (hupper : spec.paged upper = some upper')
    (hwhole : spec.paged (upper.covering lower) = some whole) : whole = upper'.covering lower := by
  cases hdraft : Page.draft? spec with
  | none => simp [paged, hdraft] at hupper
  | some draft =>
    obtain ⟨used, text⟩ := draft
    simp only [paged, hdraft] at hupper hwhole
    split at hupper
    · split at hwhole
      · exact Scaffold.Tree.write_covering hupper hwhole
      · cases hwhole
    · cases hupper

/-- A theme that can do without a layout does not look at it. -/
theorem Theme.styled?_mono {theme : Theme} {stylesheet : List Char} {layout layout' : Option (List Char)}
    {styled : List Char × Option (List Char)}
    (h : theme.styled? stylesheet layout = some styled)
    (hlayout : ∀ text, layout = some text → layout' = some text) :
    theme.styled? stylesheet layout' = some styled := by
  unfold styled? at h ⊢
  cases hcolor : theme.recolor stylesheet with
  | error e => simp [hcolor] at h
  | ok colored =>
    cases hfont : theme.font.map Font.ofName with
    | none => simpa [hcolor, hfont] using h
    | some font =>
      cases font with
      | error e => simp [hcolor, hfont] at h
      | ok font =>
        cases layout with
        | none => simp [hcolor, hfont] at h
        | some text =>
          rw [hlayout text rfl]
          simpa [hcolor, hfont] using h

/-- A theme that is applied to both is applied to the upper tree. -/
theorem Theme.restyled_covering {theme : Theme} {upper upper' lower whole : Tree}
    (hupper : theme.restyled upper = some upper')
    (hwhole : theme.restyled (upper.covering lower) = some whole) : whole = upper'.covering lower := by
  have htext : ∀ {names : Place} {text : List Char},
      (upper.text? names).map String.toList = some text →
        ((upper.covering lower).text? names).map String.toList = some text := by
    intro names text h
    obtain ⟨string, hstring, rfl⟩ := Option.map_eq_some_iff.mp h
    rw [Scaffold.Tree.text?_covering hstring]
    rfl
  unfold restyled at hupper hwhole
  split at hupper
  · cases hupper
  next current hcurrent =>
    rw [htext hcurrent] at hwhole
    simp only at hwhole
    split at hupper
    · cases hupper
    next stylesheet hstyled =>
      rw [styled?_mono hstyled fun text => htext] at hwhole
      exact Scaffold.Tree.writeChanged_covering hupper hwhole
    next stylesheet layout hstyled =>
      rw [styled?_mono hstyled fun text => htext] at hwhole
      obtain ⟨middle, hmiddle, hlast⟩ := Option.bind_eq_some_iff.mp hupper
      obtain ⟨middle', hmiddle', hlast'⟩ := Option.bind_eq_some_iff.mp hwhole
      obtain rfl := Scaffold.Tree.write_covering hmiddle hmiddle'
      exact Scaffold.Tree.writeChanged_covering hlast hlast'

/-- What is decorated in both is decorated in the upper tree. -/
theorem Spec.decorated_covering {spec : Spec} {upper upper' lower whole : Tree}
    (hupper : spec.decorated upper = some upper')
    (hwhole : spec.decorated (upper.covering lower) = some whole) : whole = upper'.covering lower := by
  obtain ⟨middle, hmiddle, hlast⟩ := Option.bind_eq_some_iff.mp hupper
  obtain ⟨middle', hmiddle', hlast'⟩ := Option.bind_eq_some_iff.mp hwhole
  obtain rfl := paged_covering hmiddle hmiddle'
  cases htheme : spec.theme with
  | none =>
    simp only [htheme, Option.some.injEq] at hlast hlast'
    rw [← hlast, ← hlast']
  | some theme =>
    simp only [htheme] at hlast hlast'
    exact Theme.restyled_covering hlast hlast'

namespace Generator

variable {generator : Generator} {made : FileSystem} {base : Place}

/-- The workspace after runs for some specs, one after the other. -/
def history (generator : Generator) (specs : List Spec) (workspace : Workspace) : Workspace :=
  specs.foldl (fun workspace spec => (generator.generate spec workspace).2) workspace

/-- The output is empty: it is there without anything in it, or it is made when it is needed. -/
structure EmptyOutput (generator : Generator) (fs made : FileSystem) (base : Place) : Prop where
  /-- The output can be made. -/
  makes : fs.createDirectories generator.output = (.ok (), made)
  /-- Paths behind the output start at the base. -/
  enters : made.Enters generator.output base
  /-- There is nothing below the base. -/
  empty : ∀ names, names ≠ [] → made.get? (base ++ names) = none

/-- The scaffold of a spec is there, and the output is not in it. -/
structure FixedScaffold (generator : Generator) (spec : Spec) (made : FileSystem)
    (base root : Place) : Prop where
  /-- The scaffold is found at the root. -/
  found : made.locate (generator.scaffoldOf spec) = .ok root
  /-- The root is a directory. -/
  directory : made.get? root = some .directory
  /-- The output is not below the root. -/
  outside : ¬ root <+: base

/-- Where nothing is no links are. -/
theorem EmptyOutput.bare {fs : FileSystem} (h : EmptyOutput generator fs made base) :
    made.Bare base := by
  intro names target
  by_cases hnil : names = []
  · rw [hnil, List.append_nil, h.enters.directory]
    exact nofun
  · rw [h.empty names hnil]
    exact nofun

/-- There is no tree in an empty output. -/
theorem EmptyOutput.treeAt_eq_none {fs : FileSystem} (h : EmptyOutput generator fs made base)
    (slug : String) : treeAt made (base ++ [slug]) = fun _ => none := by
  funext names
  rw [treeAt, List.append_assoc]
  exact h.empty _ (List.cons_ne_nil _ _)

/-- A fixed scaffold is apart from an empty output. -/
theorem FixedScaffold.apart {fs : FileSystem} {spec : Spec} {root : Place}
    (h : FixedScaffold generator spec made base root) (hout : EmptyOutput generator fs made base) :
    Apart root base := by
  refine ⟨h.outside, ?_⟩
  rintro ⟨names, rfl⟩
  by_cases hnil : names = []
  · exact h.outside (by simp [hnil])
  · exact absurd ((hout.empty names hnil).symm.trans h.directory) nofun

/-- Runs from a workspace have left nothing but what is at some places. -/
structure LeavesOnly (places : Place → Prop) (made : FileSystem) (start workspace : Workspace) :
    Prop where
  /-- Every slug was given back. -/
  slugs : workspace.slugs = start.slugs
  /-- No file was changed yet, or the output was made and the places were edited. -/
  files : workspace.files = start.files ∨ Edits places places made workspace.files

/-- What a run finds when it has made sure of the output. -/
theorem LeavesOnly.settled {places : Place → Prop} {start workspace : Workspace}
    (h : LeavesOnly places made start workspace)
    (hout : EmptyOutput generator start.files made base) :
    ∃ settled, workspace.files.createDirectories generator.output = (.ok (), settled) ∧
      Edits places places made settled ∧
      ∀ slug, treeAt settled (base ++ [slug]) = treeAt workspace.files (base ++ [slug]) := by
  rcases h.files with hsame | hedits
  · refine ⟨made, by rw [hsame, hout.makes], Edits.refl made, fun slug => funext fun names => ?_⟩
    have hmaking := FileSystem.edits_createDirectories start.files generator.output
    rw [hout.makes] at hmaking
    have hnone : made.get? (base ++ [slug] ++ names) = none :=
      congrFun (hout.treeAt_eq_none slug) names
    rw [treeAt, treeAt, hnone, hsame]
    by_contra hsome
    have hstill := hmaking.isSome (Option.isSome_iff_ne_none.mpr (Ne.symm hsome))
    rw [hnone] at hstill
    cases hstill
  · exact ⟨workspace.files, hedits.createDirectories_eq hout.makes, hedits, fun _ => rfl⟩

/-- A run leaves nothing but what belongs to its site. -/
theorem LeavesOnly.generate {places : Place → Prop} {start workspace : Workspace}
    (h : LeavesOnly places made start workspace)
    (hout : EmptyOutput generator start.files made base) {spec : Spec}
    (hplaces : ∀ slug, spec.siteSlug = .ok slug → ∀ place, OfSite base slug place → places place) :
    LeavesOnly places made start (generator.generate spec workspace).2 := by
  obtain ⟨settled, hsettled, hedits, -⟩ := h.settled hout
  obtain ⟨hslugs, hfiles⟩ := edits_generate hsettled (hout.enters.edits hedits)
    (hout.bare.edits hedits) (Prod.eta (generator.generate spec workspace)).symm
  refine ⟨hslugs.trans h.slugs, ?_⟩
  rcases hfiles with hsame | ⟨slug, hslug, hrun⟩
  · rw [hsame]
    exact h.files
  · exact Or.inr (hedits.trans (hrun.mono (hplaces slug hslug) (hplaces slug hslug)))

/-- The place belongs to the site of one of some specs. -/
def OfSites (base : Place) (specs : List Spec) (place : Place) : Prop :=
  ∃ spec ∈ specs, ∃ slug, spec.siteSlug = .ok slug ∧ OfSite base slug place

/-- Runs leave nothing but what belongs to their sites. -/
theorem leavesOnly_history {start : Workspace}
    (hout : EmptyOutput generator start.files made base) (specs : List Spec) :
    LeavesOnly (OfSites base specs) made start (generator.history specs start) := by
  suffices hall : ∀ (rest : List Spec) (workspace : Workspace), (∀ spec ∈ rest, spec ∈ specs) →
      LeavesOnly (OfSites base specs) made start workspace →
      LeavesOnly (OfSites base specs) made start (generator.history rest workspace) from
    hall specs start (fun _ => id) ⟨rfl, Or.inl rfl⟩
  intro rest
  induction rest with
  | nil => exact fun _ _ h => h
  | cons spec rest ih =>
    intro workspace hmem h
    rw [history, List.foldl_cons, ← history]
    refine ih _ (fun other ho => hmem other (List.mem_cons_of_mem _ ho)) ?_
    refine h.generate hout fun slug hslug place hplace => ?_
    exact ⟨spec, hmem spec List.mem_cons_self, slug, hslug, hplace⟩

section Compare

variable {spec : Spec} {earlier : List Spec} {start after : Workspace} {root : Place}
  {site : GeneratedSite}

/-- Where none of the earlier runs was for a slug, nothing is left at its tree. -/
theorem treeAt_history_eq_none {slug : String} (hout : EmptyOutput generator start.files made base)
    (hsafe : Slug.isUrlSafe slug = true) (hothers : ∀ other ∈ earlier, other.siteSlug ≠ .ok slug) :
    treeAt (generator.history earlier start).files (base ++ [slug]) = fun _ => none := by
  obtain ⟨settled, -, hedits, hsettled⟩ := (leavesOnly_history hout earlier).settled hout
  rw [← hsettled slug, ← hout.treeAt_eq_none slug]
  funext names
  have hoff : ¬ OfSites base earlier (base ++ [slug] ++ names) := by
    rintro ⟨other, hother, slug', hslug', hplace⟩
    refine hothers other hother ?_
    rw [hslug', hplace.slug_eq hsafe]
  exact hedits.get?_eq hoff hoff

/-- A run after others decorates the scaffold, laid over what these have left at its tree. -/
theorem decorated_after_history (hout : EmptyOutput generator start.files made base)
    (hscaffold : FixedScaffold generator spec made base root)
    (h : generator.generate spec (generator.history earlier start) = (.ok site, after)) :
    spec.decorated (overlay (treeAt made root)
        (treeAt (generator.history earlier start).files (base ++ [site.slug]))) =
      some (treeAt after.files (base ++ [site.slug])) ∧
    after.files.get? (base ++ [site.slug ++ ".zip"]) =
      some (.file (.archive ⟨Archive.entriesBelow after.files (base ++ [site.slug])⟩)) ∧
    site.files = (Archive.entriesBelow after.files (base ++ [site.slug])).length := by
  obtain ⟨settled, hsettled, hedits, htree⟩ := (leavesOnly_history hout earlier).settled hout
  have hapart := hscaffold.apart hout
  have hroot : treeAt settled root = treeAt made root := by
    funext names
    have hoff : ¬ OfSites base earlier (root ++ names) := by
      rintro ⟨other, -, slug, -, hplace⟩
      exact hapart.outside names hplace.inBase
    exact hedits.get?_eq hoff hoff
  obtain ⟨-, hdecorated, -, hpacked, hcount⟩ :=
    decorated_of_generate hsettled (hout.enters.edits hedits) (hout.bare.edits hedits)
      (hedits.locate_ok hscaffold.found) (hapart.concat site.slug) h
  rw [hroot, htree site.slug] at hdecorated
  exact ⟨hdecorated, hpacked, hcount⟩

/-- A run on an empty output decorates the scaffold, laid over nothing. -/
theorem decorated_of_emptyOutput (hout : EmptyOutput generator start.files made base)
    (hscaffold : FixedScaffold generator spec made base root)
    (h : generator.generate spec start = (.ok site, after)) :
    spec.decorated (overlay (treeAt made root) fun _ => none) =
      some (treeAt after.files (base ++ [site.slug])) ∧
    after.files.get? (base ++ [site.slug ++ ".zip"]) =
      some (.file (.archive ⟨Archive.entriesBelow after.files (base ++ [site.slug])⟩)) ∧
    site.files = (Archive.entriesBelow after.files (base ++ [site.slug])).length := by
  have hfirst : generator.generate spec (generator.history [] start) = (.ok site, after) := h
  obtain ⟨-, hslug, -⟩ := generate_eq_ok_iff.mp h
  have hnone := treeAt_history_eq_none hout (Spec.isUrlSafe_of_siteSlug hslug)
    (List.forall_mem_nil fun other : Spec => other.siteSlug ≠ .ok site.slug)
  exact hnone ▸ decorated_after_history hout hscaffold hfirst

/-- A run whose scaffold can be decorated succeeds on an empty output. -/
theorem exists_generate_of_decorated (hout : EmptyOutput generator start.files made base)
    (hscaffold : FixedScaffold generator spec made base root) {slug : String}
    (hslug : spec.siteSlug = .ok slug) (hcheck : spec.check = .ok ())
    (hfree : slug ∉ start.slugs.held) {tree : Tree}
    (hdecorated : spec.decorated (overlay (treeAt made root) fun _ => none) = some tree) :
    ∃ site fresh, generator.generate spec start = (.ok site, fresh) := by
  have hsafe := Spec.isUrlSafe_of_siteSlug hslug
  have hname := Slug.isName_of_isUrlSafe hsafe
  have hzip : slug ++ ".zip" ≠ slug := Slug.zip_ne_of_isUrlSafe hsafe
  have hapart := (hscaffold.apart hout).concat slug
  have hnone := hout.treeAt_eq_none slug
  have hplace : ∀ m, made.get? (base ++ [slug] ++ m) = none := congrFun hnone
  obtain ⟨built, hbuild, -⟩ := buildTree_ok hout.makes hout.enters hout.bare hname
    hscaffold.found hscaffold.directory hapart (fun m _ => (hplace m).symm ▸ .of_none _)
    (hnone ▸ hdecorated)
  have hedits := edits_buildTree hout.makes hout.enters hout.bare hname hbuild
  have hdirectory : built.get? (base ++ [slug]) = some .directory :=
    (decorated_of_buildTree hout.makes hout.enters hout.bare hname hscaffold.found hapart hbuild).2.1
  have hleads := ((target_treeOf hout.enters hout.bare hname).edits hedits).leads
  have hzipLeads := (leads_archiveOf hout.enters slug).edits hedits
  have hzipFree : built.get? (base ++ [slug ++ ".zip"]) ≠ some .directory := by
    have hoff : ¬ InTarget base slug (base ++ [slug ++ ".zip"]) := by
      rintro ⟨more, hmore⟩
      rw [List.append_assoc] at hmore
      exact hzip (List.cons.inj (List.append_cancel_left hmore)).1.symm
    rw [hedits.get?_eq hoff hoff, hout.empty _ (List.cons_ne_nil _ _)]
    exact nofun
  have hpack := (Archive.packTree_eq_ok_iff (hout.bare.edits hedits) hleads hzipLeads hzip
    hdirectory).mpr ⟨hzipFree, rfl, rfl⟩
  exact ⟨⟨slug, _, _, _⟩, ⟨_, start.slugs⟩, generate_eq_ok_iff.mpr
    ⟨built, hslug, hcheck, hfree, hbuild, hpack, rfl, rfl, rfl⟩⟩

/-- What a run makes after others, started from an empty output with a fixed scaffold. It puts the
page and the theme into the scaffold, laid over what the others have left at its tree, and nothing
else of what they have left matters. If they have left nothing there, as when none of them was for
its slug, it makes what it makes of the empty output. On the empty output it succeeds exactly if the
page and the theme can be put into the scaffold alone; if it does, the tree that it makes there is
laid over what the others have left. The archive has the entries of the whole. -/
theorem generate_after_history (hout : EmptyOutput generator start.files made base)
    (hscaffold : FixedScaffold generator spec made base root)
    (h : generator.generate spec (generator.history earlier start) = (.ok site, after)) :
    let place := base ++ [site.slug]
    let archive := base ++ [site.slug ++ ".zip"]
    let leftover := treeAt (generator.history earlier start).files place
    ((∀ other ∈ earlier, other.siteSlug ≠ .ok site.slug) → ∀ names, leftover names = none) ∧
    (spec.decorated (overlay (treeAt made root) leftover) = some (treeAt after.files place) ∧
      after.files.get? archive =
        some (.file (.archive ⟨Archive.entriesBelow after.files place⟩)) ∧
      site.files = (Archive.entriesBelow after.files place).length) ∧
    ((∀ names, leftover names = none) → ∃ fresh,
      generator.generate spec start = (.ok site, fresh) ∧
        treeAt after.files place = treeAt fresh.files place ∧
        after.files.get? archive = fresh.files.get? archive) ∧
    ((∃ site' fresh, generator.generate spec start = (.ok site', fresh)) ↔
      ∃ tree, spec.decorated (overlay (treeAt made root) fun _ => none) = some tree) ∧
    (∀ site' fresh, generator.generate spec start = (.ok site', fresh) →
      site'.slug = site.slug ∧ site'.tree = site.tree ∧ site'.archive = site.archive ∧
        (∀ names, treeAt after.files place names =
          (treeAt fresh.files place names).or (leftover names)) ∧
        after.files.get? archive =
          some (.file (.archive ⟨Archive.entriesBelow after.files place⟩)) ∧
        fresh.files.get? archive =
          some (.file (.archive ⟨Archive.entriesBelow fresh.files place⟩)) ∧
        (treeAt after.files place = treeAt fresh.files place ↔
          ∀ names, treeAt fresh.files place names = none → leftover names = none)) := by
  intro place archive leftover
  obtain ⟨hdecorated, hpacked, hcount⟩ := decorated_after_history hout hscaffold h
  obtain ⟨built, hslug, hcheck, hfree, -, -, htree, harchive, -⟩ := generate_eq_ok_iff.mp h
  rw [(leavesOnly_history hout earlier).slugs] at hfree
  -- What a run on the empty output answers but for the number of files, and what it leaves.
  have hfresh : ∀ site' fresh, generator.generate spec start = (.ok site', fresh) →
      (site'.slug = site.slug ∧ site'.tree = site.tree ∧ site'.archive = site.archive) ∧
        spec.decorated (overlay (treeAt made root) fun _ => none) =
          some (treeAt fresh.files place) ∧
        fresh.files.get? archive =
          some (.file (.archive ⟨Archive.entriesBelow fresh.files place⟩)) ∧
        site'.files = (Archive.entriesBelow fresh.files place).length := by
    intro site' fresh hrun
    obtain ⟨-, hslug', -, -, -, -, htree', harchive', -⟩ := generate_eq_ok_iff.mp hrun
    have hsame : site'.slug = site.slug := Except.ok.inj (hslug'.symm.trans hslug)
    have hmade := decorated_of_emptyOutput hout hscaffold hrun
    rw [hsame] at htree' harchive' hmade
    exact ⟨⟨hsame, htree'.trans htree.symm, harchive'.trans harchive.symm⟩, hmade⟩
  refine ⟨fun hothers => ?_, ⟨hdecorated, hpacked, hcount⟩, fun hnone => ?_, ⟨?_, ?_⟩,
    fun site' fresh hrun => ?_⟩
  · exact congrFun (treeAt_history_eq_none hout (Spec.isUrlSafe_of_siteSlug hslug) hothers)
  · have hempty : treeAt (generator.history earlier start).files place = fun _ => none :=
      funext hnone
    rw [hempty] at hdecorated
    obtain ⟨site', fresh, hrun⟩ :=
      exists_generate_of_decorated hout hscaffold hslug hcheck hfree hdecorated
    obtain ⟨⟨hslugs, htrees, harchives⟩, hdecorated', hpacked', hcount'⟩ := hfresh site' fresh hrun
    have hsame := Option.some.inj (hdecorated.symm.trans hdecorated')
    have hentries : Archive.entriesBelow fresh.files place = Archive.entriesBelow after.files place :=
      Archive.entriesBelow_congr (congrFun hsame.symm)
    have hfiles : site'.files = site.files := by rw [hcount', hentries, ← hcount]
    have hsite : site' = site := by
      cases site'
      cases site
      rw [GeneratedSite.mk.injEq]
      exact ⟨hslugs, htrees, harchives, hfiles⟩
    exact ⟨fresh, hsite ▸ hrun, hsame, by rw [hpacked, hpacked', hentries]⟩
  · rintro ⟨site', fresh, hrun⟩
    exact ⟨_, (hfresh site' fresh hrun).2.1⟩
  · rintro ⟨tree, hmade⟩
    exact exists_generate_of_decorated hout hscaffold hslug hcheck hfree hmade
  · obtain ⟨⟨hslugs, htrees, harchives⟩, hdecorated', hpacked', -⟩ := hfresh site' fresh hrun
    rw [Scaffold.overlay_eq_covering] at hdecorated
    have hcovers : treeAt after.files place = (treeAt fresh.files place).covering leftover :=
      Spec.decorated_covering hdecorated' hdecorated
    refine ⟨hslugs, htrees, harchives, congrFun hcovers, hpacked, hpacked', ?_⟩
    rw [hcovers, Scaffold.Tree.covering_eq_left_iff]

end Compare

/-- A scaffold for landing pages, and one for shops that has a file and a component more. -/
def twoScaffolds : FileSystem :=
  [(["scaffold"], Node.directory), (["scaffold", "landing"], .directory),
    (["scaffold", "landing", "app"], .directory), (["scaffold", "ecommerce"], .directory),
    (["scaffold", "ecommerce", "SHOP.md"], .file (.ofText "Sold out.\n")),
    (["scaffold", "ecommerce", "app"], .directory),
    (["scaffold", "ecommerce", "components"], .directory),
    (["scaffold", "ecommerce", "components", "sections"], .directory),
    (["scaffold", "ecommerce", "components", "sections", "hero.tsx"], .file .empty)].foldl
      (fun fs (place, node) => fs.put place node) .empty

/-- A spec with a page of some sections. -/
def pageSpec (architecture : Architecture) (sections : List Section) : Spec where
  project := ⟨"Demo", none⟩
  architecture := some architecture
  theme := none
  pages := [⟨"home", "Home", "/", sections⟩]

/-- A landing page without sections. -/
def bareSpec : Spec := pageSpec .landing []

/-- A landing page with the component that only the scaffold for shops has. -/
def heroSpec : Spec := pageSpec .landing [⟨"top", "hero", none, none⟩]

/-- What a run for a shop leaves. -/
def shopHistory : Workspace :=
  sideBySide.history [pageSpec .ecommerce []] ⟨twoScaffolds, .empty⟩

/-- The run for the landing page. -/
def cleanRun : Except GenerationError GeneratedSite × Workspace :=
  sideBySide.generate bareSpec ⟨twoScaffolds, .empty⟩

/-- The same run after the one for the shop. -/
def staleRun : Except GenerationError GeneratedSite × Workspace :=
  sideBySide.generate bareSpec shopHistory

/-- The run for the landing page with the component, after the one for the shop. -/
def heroRun : Except GenerationError GeneratedSite × Workspace :=
  sideBySide.generate heroSpec shopHistory

/-- The answer of a run for the landing page, with a number of files. -/
def landingSite (files : Nat) : GeneratedSite :=
  ⟨"demo", ⟨["out", "demo"]⟩, ⟨["out", "demo.zip"]⟩, files⟩

/-- How the runs for the landing page end: with the component it is made after the shop only, whose
file stays beside it. -/
private theorem runs_end :
    cleanRun.1 = .ok (landingSite 1) ∧ staleRun.1 = .ok (landingSite 3) ∧
      heroRun.1 = .ok (landingSite 3) ∧
      (sideBySide.generate heroSpec ⟨twoScaffolds, .empty⟩).1.isOk = false ∧
      cleanRun.2.files.get? ["out", "demo", "SHOP.md"] = none ∧
      staleRun.2.files.get? ["out", "demo", "SHOP.md"] =
        some (.file (.ofText "Sold out.\n")) := by
  decide +kernel

private theorem cleanRun_eq : sideBySide.generate bareSpec ⟨twoScaffolds, .empty⟩ =
    (.ok (landingSite 1), cleanRun.2) := by
  rw [← runs_end.1]
  exact (Prod.eta cleanRun).symm

private theorem staleRun_eq : sideBySide.generate bareSpec
    (sideBySide.history [pageSpec .ecommerce []] ⟨twoScaffolds, .empty⟩) =
      (.ok (landingSite 3), staleRun.2) := by
  rw [← runs_end.2.1]
  exact (Prod.eta staleRun).symm

private theorem heroRun_eq : sideBySide.generate heroSpec
    (sideBySide.history [pageSpec .ecommerce []] ⟨twoScaffolds, .empty⟩) =
      (.ok (landingSite 3), heroRun.2) := by
  rw [← runs_end.2.2.1]
  exact (Prod.eta heroRun).symm

/-- Without the shop's component the landing page cannot be made. -/
private theorem not_generate_heroSpec :
    ¬ ∃ site fresh, sideBySide.generate heroSpec ⟨twoScaffolds, .empty⟩ = (.ok site, fresh) := by
  obtain ⟨-, -, -, h, -⟩ := runs_end
  rintro ⟨site, fresh, hrun⟩
  rw [hrun] at h
  cases h

/-- The scaffolds beside an empty output. -/
def madeOutput : FileSystem := (twoScaffolds.createDirectories sideBySide.output).2

private theorem emptyOutput_twoScaffolds :
    EmptyOutput sideBySide twoScaffolds madeOutput ["out"] := by
  have hmade : (twoScaffolds.createDirectories sideBySide.output).1 = .ok () := rfl
  have hlocate : madeOutput.locate sideBySide.output = .ok ["out"] := rfl
  have hdirectory : madeOutput.get? ["out"] = some .directory := rfl
  have hbelow : madeOutput.below ["out"] = [([], .directory)] := rfl
  refine ⟨Prod.ext hmade rfl, FileSystem.enters_of_locate hlocate hdirectory, ?_⟩
  intro names hne
  refine Option.eq_none_iff_forall_ne_some.mpr fun node hnode => ?_
  have hmem := FileSystem.mem_below.mpr hnode
  rw [hbelow, List.mem_singleton] at hmem
  exact hne (Prod.mk.inj hmem).1

private theorem fixedScaffold_landing (sections : List Section) : FixedScaffold sideBySide
    (pageSpec .landing sections) madeOutput ["out"] ["scaffold", "landing"] := by
  have hfound : madeOutput.locate ⟨["scaffold", "landing"]⟩ = .ok ["scaffold", "landing"] := rfl
  exact ⟨hfound, rfl, by decide⟩

/-- The landing page after the shop is the landing page laid over the shop, and the one with the
shop's component is made after the shop only. -/
theorem generate_after_history_shop :
    (∀ names, treeAt staleRun.2.files ["out", "demo"] names =
      (treeAt cleanRun.2.files ["out", "demo"] names).or
        (treeAt shopHistory.files ["out", "demo"] names)) ∧
    staleRun.2.files.get? ["out", "demo.zip"] =
      some (.file (.archive ⟨Archive.entriesBelow staleRun.2.files ["out", "demo"]⟩)) ∧
    heroSpec.decorated (overlay (treeAt madeOutput ["scaffold", "landing"])
      (treeAt shopHistory.files ["out", "demo"])) =
        some (treeAt heroRun.2.files ["out", "demo"]) ∧
    ¬ ∃ tree, heroSpec.decorated (overlay (treeAt madeOutput ["scaffold", "landing"])
      fun _ => none) = some tree := by
  obtain ⟨-, -, -, -, hlater⟩ := generate_after_history emptyOutput_twoScaffolds
    (fixedScaffold_landing []) staleRun_eq
  obtain ⟨-, -, -, htree, harchive, -⟩ := hlater _ _ cleanRun_eq
  obtain ⟨-, ⟨hdecorated, -⟩, -, hiff, -⟩ := generate_after_history emptyOutput_twoScaffolds
    (fixedScaffold_landing _) heroRun_eq
  exact ⟨htree, harchive, hdecorated, fun hmade => not_generate_heroSpec (hiff.mpr hmade)⟩

/-- What a run makes of an empty output and what it makes after others is not always the same, and
there are runs that succeed after others only. -/
theorem exists_generate_after_history_ne :
    (¬ ∀ (generator : Generator) (spec : Spec) (earlier : List Spec)
      (start after fresh : Workspace) (made : FileSystem) (base root : Place)
      (site site' : GeneratedSite), EmptyOutput generator start.files made base →
        FixedScaffold generator spec made base root →
        generator.generate spec (generator.history earlier start) = (.ok site, after) →
        generator.generate spec start = (.ok site', fresh) →
        treeAt after.files (base ++ [site.slug]) = treeAt fresh.files (base ++ [site.slug])) ∧
    ¬ ∀ (generator : Generator) (spec : Spec) (earlier : List Spec) (start after : Workspace)
      (made : FileSystem) (base root : Place) (site : GeneratedSite),
        EmptyOutput generator start.files made base →
        FixedScaffold generator spec made base root →
        generator.generate spec (generator.history earlier start) = (.ok site, after) →
        ∃ site' fresh, generator.generate spec start = (.ok site', fresh) := by
  refine ⟨fun hall => ?_, fun hall => ?_⟩
  · have hsame := congrFun (hall _ _ _ _ _ _ _ _ _ _ _ emptyOutput_twoScaffolds
      (fixedScaffold_landing []) staleRun_eq cleanRun_eq) ["SHOP.md"]
    obtain ⟨-, -, -, -, hclean, hstale⟩ := runs_end
    exact absurd (hclean.symm.trans (hsame.symm.trans hstale)) nofun
  · exact not_generate_heroSpec (hall _ _ _ _ _ _ _ _ _ emptyOutput_twoScaffolds
      (fixedScaffold_landing _) heroRun_eq)

end Generator

end Siteworks
