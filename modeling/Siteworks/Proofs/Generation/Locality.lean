import Mathlib
import Siteworks.Proofs.Generation.Runs
import Siteworks.Proofs.Scaffold.Agreement
import Siteworks.Proofs.Turns

/-!
# What runs see of each other

Once the output is there, a run sees nothing below it but what belongs to its own site, and changes
nothing else. So runs for different slugs, or parts of such runs, answer the same in either order and
leave the same.
-/

namespace Siteworks

open FileSystem (Agree AgreeOn Edits LeadsAlike)
open Scaffold (Apart InTarget Target TargetAlike)

namespace Scaffold.TargetAlike

variable {places : Place → Prop} {a b : FileSystem} {target : Path} {base : Place} {name : String}

/-- Names behind the target lead alike. -/
theorem leads_join (h : TargetAlike places a b target base name) {names : List String}
    (hne : names ≠ []) (hnames : ∀ other ∈ names, IsName other) :
    LeadsAlike a b (target.join ⟨names⟩) base (name :: names) [] :=
  h.leads (h.one.leads_join hne hnames) (h.other.leads_join hne hnames)

/-- A text behind the target is read alike. -/
theorem readText_eq (h : TargetAlike places a b target base name) {names : List String}
    (hne : names ≠ []) (hnames : ∀ other ∈ names, IsName other) :
    Theme.readText a (target.join ⟨names⟩) = Theme.readText b (target.join ⟨names⟩) := by
  rw [Theme.readText, Theme.readText, (h.leads_join hne hnames).readText_eq (List.cons_ne_nil _ _)]

/-- A file behind the target is written alike. -/
theorem agree_writeText (h : TargetAlike places a b target base name) {names : List String}
    (hne : names ≠ []) (hnames : ∀ other ∈ names, IsName other) (content : Content)
    (e : IoFault → GenerationError) {α : Type} (x : α) :
    Agree (α := Except GenerationError α) places
      (match a.write (target.join ⟨names⟩) content with
        | .error fault => (.error (e fault), a)
        | .ok fs => (.ok x, fs))
      (match b.write (target.join ⟨names⟩) content with
        | .error fault => (.error (e fault), b)
        | .ok fs => (.ok x, fs)) := by
  rcases (h.leads_join hne hnames).write_cases (List.cons_ne_nil _ _) content with
    ⟨fault, hwrite, hwrite'⟩ | ⟨hadmits, hadmits', hwrite, hwrite'⟩
  · rw [hwrite, hwrite']
    exact ⟨rfl, h.agree⟩
  · rw [hwrite, hwrite']
    exact ⟨rfl, h.agree.put hadmits hadmits' _⟩

/-- The source of a page is drawn alike. -/
theorem source_eq (h : TargetAlike places a b target base name) (spec : Spec) :
    Page.source a spec target = Page.source b spec target := by
  have hfiles : ∀ component : Component, a.isFile (component.sourceFile target) =
      b.isFile (component.sourceFile target) := by
    intro component
    rw [Component.sourceFile_eq]
    exact (h.leads_join (by simp [Component.names]) Component.isName_of_mem_names).isFile_eq
      (List.cons_ne_nil _ _)
  unfold Page.source
  simp only [hfiles]

/-- A page is written alike. -/
theorem agree_page (h : TargetAlike places a b target base name) (spec : Spec) :
    Agree places (Page.write a spec target) (Page.write b spec target) := by
  unfold Page.write
  rw [h.source_eq]
  split
  · exact ⟨rfl, h.agree⟩
  · exact h.agree_writeText (by decide) (by decide) _ _ _

/-- A stylesheet is written alike. -/
theorem agree_writeChanged (h : TargetAlike places a b target base name) (before after : List Char) :
    Agree places (Theme.writeChanged a (target.join Stylesheet.file) before after)
      (Theme.writeChanged b (target.join Stylesheet.file) before after) := by
  unfold Theme.writeChanged
  split
  · exact ⟨rfl, h.agree⟩
  · exact h.agree_writeText (by decide) (by decide) _ _ _

/-- A theme is applied alike. -/
theorem agree_theme (h : TargetAlike places a b target base name) (theme : Theme) :
    Agree places (theme.apply a target) (theme.apply b target) := by
  have hstylesheet : Theme.readText a (target.join Stylesheet.file) =
      Theme.readText b (target.join Stylesheet.file) := h.readText_eq (by decide) (by decide)
  have hlayout : Theme.readText a (target.join Layout.file) =
      Theme.readText b (target.join Layout.file) := h.readText_eq (by decide) (by decide)
  unfold Theme.apply
  simp only [hstylesheet, hlayout]
  split
  · exact ⟨rfl, h.agree⟩
  split
  · exact ⟨rfl, h.agree⟩
  split
  · exact h.agree_writeChanged _ _
  split
  · exact ⟨rfl, h.agree⟩
  split
  · exact ⟨rfl, h.agree⟩
  split
  · exact ⟨rfl, h.agree⟩
  next layout stylesheet _ =>
    have hwritten : Agree places (Theme.writeText a (target.join Layout.file) layout)
        (Theme.writeText b (target.join Layout.file) layout) :=
      h.agree_writeText (by decide) (by decide) _ _ _
    have hedits : Follows base name a (Theme.writeText a (target.join Layout.file) layout) _ :=
      h.one.follows_writeText (by decide) (by decide) ()
    have hedits' : Follows base name b (Theme.writeText b (target.join Layout.file) layout) _ :=
      h.other.follows_writeText (by decide) (by decide) ()
    rcases hwritten.cases with ⟨e, fs, fs', hwrite, hwrite', hleft⟩ |
      ⟨u, fs, fs', hwrite, hwrite', hleft⟩
    · rw [hwrite, hwrite']
      exact ⟨rfl, hleft⟩
    · rw [hwrite] at hedits ⊢
      rw [hwrite'] at hedits' ⊢
      exact (h.edits hedits.edits hedits'.edits hleft).agree_writeChanged _ _

/-- A tree is decorated alike. -/
theorem agree_decorate (h : TargetAlike places a b target base name) (spec : Spec) :
    Agree places (spec.decorate target a) (spec.decorate target b) := by
  have hedits := Page.follows_write h.one spec
  have hedits' := Page.follows_write h.other spec
  unfold Spec.decorate
  rcases (h.agree_page spec).cases with ⟨e, fs, fs', hwrite, hwrite', hleft⟩ |
    ⟨path, fs, fs', hwrite, hwrite', hleft⟩
  · rw [hwrite, hwrite']
    exact ⟨rfl, hleft⟩
  · rw [hwrite] at hedits ⊢
    rw [hwrite'] at hedits' ⊢
    cases spec.theme with
    | none => exact ⟨rfl, hleft⟩
    | some theme => exact (h.edits hedits.edits hedits'.edits hleft).agree_theme theme

end Scaffold.TargetAlike

namespace Generator

variable {generator : Generator} {base root : Place} {slug : String}

/-- The output is there, at the base, and the scaffolds are found, at the root and apart from it. -/
structure Ready (generator : Generator) (base root : Place) (fs : FileSystem) : Prop where
  /-- There are no links. -/
  bare : fs.Bare []
  /-- Nothing has to be made for the output. -/
  made : fs.createDirectories generator.output = (.ok (), fs)
  /-- Paths behind the output start at the base. -/
  output : fs.Enters generator.output base
  /-- Paths behind the scaffolds start at the root. -/
  scaffolds : fs.Enters generator.scaffolds root
  /-- The root and the base are apart. -/
  apart : Apart root base

/-- What is ready stays so. -/
theorem Ready.edits {fs after : FileSystem} {dirs files : Place → Prop}
    (h : Ready generator base root fs) (hedits : Edits dirs files fs after) :
    Ready generator base root after :=
  ⟨h.bare.edits hedits, hedits.createDirectories_eq h.made, h.output.edits hedits,
    h.scaffolds.edits hedits, h.apart⟩

/-- What a run for a slug may look at: of what is below the base only what belongs to its site. -/
def Seen (base : Place) (slug : String) (place : Place) : Prop :=
  base <+: place → place = base ∨ OfSite base slug place

/-- What is apart from the base is seen. -/
theorem seen_of_apart (h : Apart root base) (names : Place) : Seen base slug (root ++ names) :=
  fun hpre => absurd hpre (h.outside names)

/-- The tree is seen. -/
theorem seen_tree (names : Place) : Seen base slug (base ++ slug :: names) :=
  fun _ => Or.inr (Or.inl ⟨names, by simp⟩)

/-- A target is written alike where the same is seen. -/
theorem Ready.targetAlike {a b : FileSystem} (ha : Ready generator base root a)
    (hb : Ready generator base root b) (hslug : IsName slug) (hagree : AgreeOn (Seen base slug) a b) :
    TargetAlike (Seen base slug) a b (generator.treeOf slug) base slug :=
  ⟨target_treeOf ha.output (fun names => ha.bare (base ++ names)) hslug,
    target_treeOf hb.output (fun names => hb.bare (base ++ names)) hslug, ha.bare, hb.bare, hagree,
    fun _ => Or.inl rfl, seen_tree⟩

/-- A tree is built alike where the same is seen. -/
theorem Ready.agree_buildTree {a b : FileSystem} (ha : Ready generator base root a)
    (hb : Ready generator base root b) (hslug : IsName slug) (hagree : AgreeOn (Seen base slug) a b)
    (spec : Spec) :
    Agree (Seen base slug) (generator.buildTree spec slug a) (generator.buildTree spec slug b) := by
  have htarget := ha.targetAlike hb hslug hagree
  have hfolder : ∀ name ∈ [(spec.architecture.getD .landing).folder], IsName name := by
    cases spec.architecture.getD .landing <;> decide
  have hscaffold : LeadsAlike a b (generator.scaffoldOf spec) root
      [(spec.architecture.getD .landing).folder] [] :=
    ⟨ha.scaffolds.leads (List.cons_ne_nil _ _) hfolder,
      hb.scaffolds.leads (List.cons_ne_nil _ _) hfolder, ha.bare, hb.bare,
      fun init _ => hagree _ (seen_of_apart ha.apart init)⟩
  have hlocate := hscaffold.locate_eq (List.cons_ne_nil _ _)
  unfold buildTree
  rw [ha.made, hb.made]
  cases hfound : a.locate (generator.scaffoldOf spec) with
  | error fault =>
    simp only [Scaffold.copyTree, ← hlocate, hfound]
    exact ⟨rfl, hagree⟩
  | ok place =>
    obtain rfl := hscaffold.one.eq_of_locate (List.cons_ne_nil _ _)
      (fun names => ha.bare (root ++ names)) hfound
    have hcopied := htarget.agree_copyTree hfound (hlocate.symm.trans hfound)
      (ha.apart.below _ [slug]) fun names => by
        rw [List.append_assoc]
        exact seen_of_apart ha.apart _
    simp only
    rcases hcopied.cases with ⟨e, fs, fs', hcopy, hcopy', hleft⟩ |
      ⟨count, fs, fs', hcopy, hcopy', hleft⟩
    · rw [hcopy, hcopy']
      exact ⟨rfl, hleft⟩
    · rw [hcopy, hcopy']
      exact (htarget.edits (htarget.one.edits_copyTree hcopy) (htarget.other.edits_copyTree hcopy')
        hleft).agree_decorate spec

/-- An archive is written alike where the same is seen. -/
theorem Ready.archive_cases {a b : FileSystem} (ha : Ready generator base root a)
    (hb : Ready generator base root b) (hagree : AgreeOn (Seen base slug) a b) (content : Content) :
    (∃ fault, a.write (generator.archiveOf slug) content = .error fault ∧
        b.write (generator.archiveOf slug) content = .error fault) ∨
      ∃ after after', a.write (generator.archiveOf slug) content = .ok after ∧
        b.write (generator.archiveOf slug) content = .ok after' ∧ Ready generator base root after ∧
        Ready generator base root after' ∧ AgreeOn (Seen base slug) after after' := by
  have hzip : Seen base slug (base ++ [slug ++ ".zip"]) := fun _ => Or.inr (Or.inr rfl)
  have hleads : LeadsAlike a b (generator.archiveOf slug) base [slug ++ ".zip"] [] := by
    refine ⟨leads_archiveOf ha.output slug, leads_archiveOf hb.output slug, ha.bare, hb.bare,
      fun init hinit => hagree _ ?_⟩
    rcases List.prefix_cons_iff.mp hinit with rfl | ⟨rest, rfl, hrest⟩
    · exact fun _ => Or.inl (List.append_nil base)
    · rwa [List.prefix_nil.mp hrest]
  refine (hleads.write_cases (List.cons_ne_nil _ _) content).imp_right ?_
  rintro ⟨hadmits, hadmits', hwrite, hwrite'⟩
  have hedits := hleads.one.edits_of_write (List.cons_ne_nil _ _)
    (fun names => ha.bare (base ++ names)) hwrite
  have hedits' := hleads.other.edits_of_write (List.cons_ne_nil _ _)
    (fun names => hb.bare (base ++ names)) hwrite'
  exact ⟨_, _, hwrite, hwrite', ha.edits hedits, hb.edits hedits', hagree.put hadmits hadmits' _⟩

/-- A tree is packed alike where the same is seen. -/
theorem Ready.agree_packTree {a b : FileSystem} (ha : Ready generator base root a)
    (hb : Ready generator base root b) (hslug : IsName slug)
    (hagree : AgreeOn (Seen base slug) a b) :
    Agree (Seen base slug)
      (Archive.packTree a (generator.treeOf slug) (generator.archiveOf slug))
      (Archive.packTree b (generator.treeOf slug) (generator.archiveOf slug)) := by
  unfold Archive.packTree
  simp only
  rcases ha.archive_cases hb hagree .empty with
    ⟨fault, hwrite, hwrite'⟩ | ⟨fs, fs', hwrite, hwrite', hready, hready', hleft⟩
  · rw [hwrite, hwrite']
    exact ⟨rfl, hagree⟩
  · have htarget := hready.targetAlike hready' hslug hleft
    have htree := htarget.leads htarget.one.leads htarget.other.leads
    have hlocate := htree.locate_eq (List.cons_ne_nil _ _)
    rw [hwrite, hwrite']
    simp only [← hlocate]
    cases hfound : fs.locate (generator.treeOf slug) with
    | error fault =>
      simp only
      rcases hready.archive_cases hready' hleft (.archive ⟨[]⟩) with
        ⟨fault, hlast, hlast'⟩ | ⟨_, _, hlast, hlast', -, -, hlast''⟩
      · rw [hlast, hlast']
        exact ⟨rfl, hleft⟩
      · rw [hlast, hlast']
        exact ⟨rfl, hlast''⟩
    | ok place =>
      obtain rfl := htree.one.eq_of_locate (List.cons_ne_nil _ _)
        (fun names => hready.bare (base ++ names)) hfound
      have hentries : Archive.entriesOf fs (generator.treeOf slug) (base ++ [slug]) =
          Archive.entriesOf fs' (generator.treeOf slug) (base ++ [slug]) := by
        rw [Archive.entriesOf_eq, Archive.entriesOf_eq, hready.bare.isLink_eq, hready'.bare.isLink_eq]
        refine Archive.entriesBelow_congr fun names => hleft _ ?_
        rw [List.append_assoc]
        exact seen_tree names
      simp only [hentries]
      rcases hready.archive_cases hready' hleft
          (.archive ⟨Archive.entriesOf fs' (generator.treeOf slug) (base ++ [slug])⟩) with
        ⟨fault, hlast, hlast'⟩ | ⟨_, _, hlast, hlast', -, -, hlast''⟩
      · rw [hlast, hlast']
        exact ⟨rfl, hleft⟩
      · rw [hlast, hlast']
        exact ⟨rfl, hlast''⟩

/-- A step of a run for a slug: what it answers and what it leaves depends on nothing but what is seen,
and it changes nothing but what belongs to its site. -/
structure Keeps (generator : Generator) (base root : Place) (slug : String) {α : Type}
    (step : FileSystem → α × FileSystem) : Prop where
  /-- Nothing is changed but what belongs to the site. -/
  edits : ∀ fs, Ready generator base root fs →
    Edits (OfSite base slug) (OfSite base slug) fs (step fs).2
  /-- Nothing is looked at but what is seen. -/
  agree : ∀ a b, Ready generator base root a → Ready generator base root b →
    AgreeOn (Seen base slug) a b → Agree (Seen base slug) (step a) (step b)

namespace Keeps

variable {other : String} {α β : Type} {step : FileSystem → α × FileSystem}
  {step' : FileSystem → β × FileSystem} {fs : FileSystem}

/-- What is ready stays so. -/
theorem ready (h : Keeps generator base root slug step) (hfs : Ready generator base root fs) :
    Ready generator base root (step fs).2 := hfs.edits (h.edits fs hfs)

/-- A step for another slug is not seen. -/
theorem agreeOn (h : Keeps generator base root slug step) (hslug : Slug.isUrlSafe slug = true)
    (hother : Slug.isUrlSafe other = true) (hne : slug ≠ other) (hfs : Ready generator base root fs) :
    AgreeOn (Seen base other) fs (step fs).2 := by
  intro place hseen
  have hoff : ¬ OfSite base slug place := by
    intro hmine
    rcases hseen hmine.inBase with rfl | htheirs
    · exact hmine.ne_base rfl
    · exact hne (hmine.eq_of_both hslug hother htheirs)
  exact ((h.edits fs hfs).get?_eq hoff hoff).symm

/-- Steps for different slugs commute. -/
theorem commute (h : Keeps generator base root slug step) (h' : Keeps generator base root other step')
    (hslug : Slug.isUrlSafe slug = true) (hother : Slug.isUrlSafe other = true) (hne : slug ≠ other)
    (hfs : Ready generator base root fs) : CommuteAt step step' fs := by
  have hfirst := h.agree _ _ hfs (h'.ready hfs) (h'.agreeOn hother hslug hne.symm hfs)
  have hsecond := h'.agree _ _ hfs (h.ready hfs) (h.agreeOn hslug hother hne hfs)
  have hedits := h.edits _ (h'.ready hfs)
  have hedits' := h'.edits _ (h.ready hfs)
  refine ⟨hfirst.answer.symm, hsecond.answer.symm, FileSystem.ext_get? ?_ fun place => ?_⟩
  · rw [hedits.workingDirectory, hedits'.workingDirectory, (h.edits _ hfs).workingDirectory,
      (h'.edits _ hfs).workingDirectory]
  · by_cases hmine : OfSite base slug place
    · have hnot : ¬ OfSite base other place := fun htheirs =>
        hne (hmine.eq_of_both hslug hother htheirs)
      rw [← hfirst.left place fun _ => Or.inr hmine, hedits'.get?_eq hnot hnot]
    · rw [hedits.get?_eq hmine hmine]
      by_cases htheirs : OfSite base other place
      · exact hsecond.left place fun _ => Or.inr htheirs
      · rw [hedits'.get?_eq htheirs htheirs, (h.edits _ hfs).get?_eq hmine hmine,
          (h'.edits _ hfs).get?_eq htheirs htheirs]

end Keeps

/-- Building a tree keeps to its site. -/
theorem keeps_buildTree (generator : Generator) (spec : Spec) (hslug : IsName slug) :
    Keeps generator base root slug (generator.buildTree spec slug) := by
  refine ⟨fun fs hfs => ?_, fun a b ha hb hagree => ha.agree_buildTree hb hslug hagree spec⟩
  exact (edits_buildTree hfs.made hfs.output (fun names => hfs.bare (base ++ names)) hslug
    (Prod.eta _).symm).mono (fun _ => Or.inl) fun _ => Or.inl

/-- Packing a tree keeps to its site. -/
theorem keeps_packTree (generator : Generator) (hslug : IsName slug) :
    Keeps generator base root slug fun fs =>
      Archive.packTree fs (generator.treeOf slug) (generator.archiveOf slug) := by
  refine ⟨fun fs hfs => ?_, fun a b ha hb hagree => ha.agree_packTree hb hslug hagree⟩
  exact (Archive.edits_packTree (fun names => hfs.bare (base ++ names))
    (leads_archiveOf hfs.output slug) (Prod.eta _).symm).mono (fun _ => False.elim) fun _ => Or.inr

end Generator

end Siteworks
