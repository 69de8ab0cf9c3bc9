import Mathlib
import Siteworks.Generation
import Siteworks.Proofs.Scaffold.Copying

/-!
# Decorating a tree

Behind the copy of its scaffold a run writes the page and applies the theme. Both read and write
below the tree only, so that what they make of it, and whether they succeed, is a function of the
tree: `Spec.decorated`.
-/

namespace Siteworks

open FileSystem (Edits)
open Scaffold (InTarget Target Tree treeAt)

namespace Scaffold.Tree

/-- The text of a file. -/
def text? (tree : Tree) (names : Place) : Option String :=
  match tree names with
  | some (.file content) => content.data.text?
  | _ => none

/-- There is a file. -/
def isFile (tree : Tree) (names : Place) : Bool :=
  match tree names with
  | some (.file _) => true
  | _ => false

/-- The tree with a file written; there must be a directory for it, and none in its place. -/
def write (tree : Tree) (names : Place) (content : Content) : Option Tree :=
  if tree names.dropLast = some .directory ∧ tree names ≠ some .directory then
    some (Function.update tree names (some (.file content)))
  else none

/-- The tree with a text written, unless it is as it was. -/
def writeChanged (tree : Tree) (names : Place) (before after : List Char) : Option Tree :=
  if after = before then some tree else tree.write names (.ofText (String.ofList after))

end Scaffold.Tree

/-- A stage of a run changes its target only; it succeeds exactly if a change of trees does, and
then it makes the same of the target. -/
structure Follows (base : Place) (name : String) {α : Type} (fs : FileSystem)
    (stage : Except GenerationError α × FileSystem) (tree? : Option Tree) : Prop where
  /-- Nothing but the target is changed, even by a stage that fails. -/
  edits : Edits (InTarget base name) (InTarget base name) fs stage.2
  /-- A stage that succeeds has made the tree. -/
  sound : ∀ a, stage.1 = .ok a → tree? = some (treeAt stage.2 (base ++ [name]))
  /-- A stage succeeds if the change of trees does. -/
  complete : ∀ tree, tree? = some tree → ∃ a, stage.1 = .ok a

namespace Follows

variable {base : Place} {name : String} {α β : Type} {fs middle : FileSystem} {tree? : Option Tree}

/-- A stage may fail where no tree is made. -/
theorem error (e : GenerationError) :
    Follows base name fs ((.error e, fs) : Except GenerationError α × FileSystem) none :=
  ⟨Edits.refl fs, nofun, nofun⟩

/-- A stage may leave the tree as it is. -/
theorem ok (a : α) :
    Follows base name fs (.ok a, fs) (some (treeAt fs (base ++ [name]))) :=
  ⟨Edits.refl fs, fun _ _ => rfl, fun _ _ => ⟨a, rfl⟩⟩

/-- Behind a stage that fails nothing is made. -/
theorem bind_error {e : GenerationError}
    (h : Follows base name fs ((.error e, middle) : Except GenerationError α × FileSystem) tree?)
    (e' : GenerationError) (next : Tree → Option Tree) :
    Follows base name fs ((.error e', middle) : Except GenerationError β × FileSystem)
      (tree?.bind next) := by
  cases tree? with
  | none => exact ⟨h.edits, nofun, nofun⟩
  | some tree =>
    obtain ⟨a, ha⟩ := h.complete tree rfl
    cases ha

/-- Behind a stage that succeeds the next one starts with the tree that was made. -/
theorem bind_ok {a : α} {stage : Except GenerationError β × FileSystem}
    {next : Tree → Option Tree} (h : Follows base name fs (.ok a, middle) tree?)
    (h' : Follows base name middle stage (next (treeAt middle (base ++ [name])))) :
    Follows base name fs stage (tree?.bind next) := by
  rw [h.sound a rfl]
  exact ⟨h.edits.trans h'.edits, h'.sound, h'.complete⟩

end Follows

namespace Scaffold.Target

variable {fs after : FileSystem} {target : Path} {base : Place} {name : String}

/-- Names behind the target lead on from its name. -/
theorem leads_join (h : Target fs target base name) {names : List String} (hne : names ≠ [])
    (hnames : ∀ other ∈ names, IsName other) :
    fs.Leads (target.join ⟨names⟩) base (name :: names) [] :=
  h.leads.join (List.cons_ne_nil _ _) hne hnames

/-- A file behind the target is one of its tree. -/
theorem isFile_eq (h : Target fs target base name) {names : List String} (hne : names ≠ [])
    (hnames : ∀ other ∈ names, IsName other) :
    fs.isFile (target.join ⟨names⟩) = (treeAt fs (base ++ [name])).isFile names := by
  have hiff := (h.leads_join hne hnames).isFile_eq_true_iff (List.cons_ne_nil _ _) h.bare
  have hplace : base ++ name :: names = base ++ [name] ++ names := by simp
  rw [hplace] at hiff
  rw [Bool.eq_iff_iff, hiff, Tree.isFile, treeAt]
  cases fs.get? (base ++ [name] ++ names) with
  | none => simp
  | some node => cases node <;> simp

/-- A text behind the target is one of its tree. -/
theorem readText_eq_ok_iff (h : Target fs target base name) {names : List String} (hne : names ≠ [])
    (hnames : ∀ other ∈ names, IsName other) {text : List Char} :
    Theme.readText fs (target.join ⟨names⟩) = .ok text ↔
      ((treeAt fs (base ++ [name])).text? names).map String.toList = some text := by
  have hread : ∀ {content}, fs.read (target.join ⟨names⟩) = .ok content ↔
      treeAt fs (base ++ [name]) names = some (.file content) := by
    intro content
    have hplace : base ++ name :: names = base ++ [name] ++ names := by simp
    rw [(h.leads_join hne hnames).read_eq_ok_iff (List.cons_ne_nil _ _) h.bare, hplace, treeAt]
  unfold Theme.readText FileSystem.readText Tree.text?
  cases hcontent : fs.read (target.join ⟨names⟩) with
  | error fault =>
    have hnone : ∀ content, treeAt fs (base ++ [name]) names ≠ some (.file content) := by
      intro content hfile
      cases (hread.mpr hfile).symm.trans hcontent
    cases hnode : treeAt fs (base ++ [name]) names with
    | none => simp
    | some node =>
      cases node with
      | file content => exact absurd hnode (hnone content)
      | directory => simp
      | link linked => simp
  | ok content =>
    rw [hread.mp hcontent]
    cases htext : content.data.text? <;> simp [htext]

/-- A file is written behind the target exactly if one is written in its tree. -/
theorem follows_writeText (h : Target fs target base name) {names : List String} (hne : names ≠ [])
    (hnames : ∀ other ∈ names, IsName other) {content : Content} {e : IoFault → GenerationError}
    {α : Type} (a : α) :
    Follows base name fs
      (match fs.write (target.join ⟨names⟩) content with
        | .error fault => (.error (e fault), fs)
        | .ok fs => (.ok a, fs))
      ((treeAt fs (base ++ [name])).write names content) := by
  have hleads := h.leads_join hne hnames
  have hplace : ∀ m, base ++ name :: m = base ++ [name] ++ m := by simp
  have hadmits : fs.Admits (base ++ [name] ++ names) ↔
      treeAt fs (base ++ [name]) names.dropLast = some .directory ∧
        treeAt fs (base ++ [name]) names ≠ some .directory := by
    rw [← hplace names, hleads.admits_iff (List.cons_ne_nil _ _),
      List.dropLast_cons_of_ne_nil hne, hplace names.dropLast, hplace names]
    rfl
  have hwrite : ∀ {after}, fs.write (target.join ⟨names⟩) content = .ok after ↔
      fs.Admits (base ++ [name] ++ names) ∧
        after = fs.put (base ++ [name] ++ names) (.file content) := by
    intro after
    rw [hleads.write_eq_ok_iff (List.cons_ne_nil _ _) h.bare, hplace names]
  have hlink : ∀ linked, fs.get? (base ++ [name] ++ names) ≠ some (.link linked) := by
    intro linked
    rw [List.append_assoc]
    exact h.bare _ linked
  cases hresult : fs.write (target.join ⟨names⟩) content with
  | error fault =>
    have hnot : ¬ fs.Admits (base ++ [name] ++ names) := fun hyes => by
      cases (hwrite.mpr ⟨hyes, rfl⟩).symm.trans hresult
    rw [Tree.write, if_neg fun htree => hnot (hadmits.mpr htree)]
    exact Follows.error _
  | ok after =>
    obtain ⟨hyes, rfl⟩ := hwrite.mp hresult
    rw [Tree.write, if_pos (hadmits.mp hyes)]
    refine ⟨Edits.put_file content hlink ⟨names, rfl⟩, fun _ _ => ?_, fun _ _ => ⟨a, rfl⟩⟩
    refine congrArg some (funext fun m => ?_)
    rw [treeAt, FileSystem.get?_put hyes, Function.update_apply]
    simp only [List.append_cancel_left_eq, eq_comm, treeAt]

end Scaffold.Target

namespace Component

/-- Where the source file of a component is in a tree. -/
def names (component : Component) : Place :=
  ["components", "sections", component.module ++ ".tsx"]

/-- The source file of a component is behind the root by its names. -/
theorem sourceFile_eq (root : Path) (component : Component) :
    component.sourceFile root = root.join ⟨component.names⟩ := by
  have hdirectory : Path.ofString directory = ⟨["components", "sections"]⟩ := by decide +kernel
  rw [sourceFile, hdirectory]
  simp [Path.join, Path.isAbsolute, Path.stem, names]

/-- The names of a component's source file are names. -/
theorem isName_of_mem_names {component : Component} : ∀ name ∈ component.names, IsName name := by
  have hfile : IsName (component.module ++ ".tsx") := FileSystem.isName_append _ (by decide)
  intro name hname
  simp only [names, List.mem_cons, List.not_mem_nil, or_false] at hname
  rcases hname with rfl | rfl | rfl
  · decide
  · decide
  · exact hfile

end Component

namespace Page

/-- The components of the first page of a spec and its source, whatever tree it is for. -/
def draft? (spec : Spec) : Option (List Component × String) :=
  match spec.pages with
  | [] => none
  | page :: _ =>
    match Component.ofSections page.sections with
    | .error _ => none
    | .ok components =>
      let used := Component.distinct components
      match tagLines (page.sections.zip components) with
      | .error _ => none
      | .ok tags => some (used, sourceText (used.map Component.importLine) tags)

/-- A page has its source if no source file of a component is missing. -/
theorem source_eq_ok_iff {fs : FileSystem} {spec : Spec} {root : Path} {text : String} :
    source fs spec root = .ok text ↔ ∃ used, draft? spec = some (used, text) ∧
      ∀ component ∈ used, fs.isFile (component.sourceFile root) = true := by
  unfold source draft?
  cases spec.pages with
  | nil => simp
  | cons page pages =>
    cases hcomponents : Component.ofSections page.sections with
    | error e => simp [hcomponents]
    | ok components =>
      simp only [hcomponents]
      cases hmissing : (Component.distinct components).find? fun component =>
          !fs.isFile (component.sourceFile root) with
      | some component =>
        have hnot := List.find?_some hmissing
        have hmem := List.mem_of_find?_eq_some hmissing
        simp only [Bool.not_eq_true'] at hnot
        refine iff_of_false (by simp) ?_
        rintro ⟨used, hdraft, hfiles⟩
        split at hdraft
        · cases hdraft
        · cases hdraft
          cases hnot.symm.trans (hfiles component hmem)
      | none =>
        have hfiles : ∀ component ∈ Component.distinct components,
            fs.isFile (component.sourceFile root) = true := by
          simpa using hmissing
        cases tagLines (page.sections.zip components) with
        | error e => simp
        | ok tags =>
          simp only [Except.ok.injEq, Option.some.injEq, Prod.mk.injEq]
          constructor
          · rintro rfl
            exact ⟨_, ⟨rfl, rfl⟩, hfiles⟩
          · rintro ⟨used, ⟨-, rfl⟩, -⟩
            rfl

end Page

/-- A tree with the page of a spec. -/
def Spec.paged (spec : Spec) (tree : Tree) : Option Tree :=
  match Page.draft? spec with
  | none => none
  | some (used, text) =>
    if used.all fun component => tree.isFile component.names then
      tree.write Page.file.segments (.ofText text)
    else none

/-- The page of a spec is drawn for a target where the components that it uses are in its tree. -/
theorem Page.source_target_iff {fs : FileSystem} {target : Path} {base : Place} {name : String}
    (h : Target fs target base name) {spec : Spec} {text : String} :
    source fs spec target = .ok text ↔ ∃ used, draft? spec = some (used, text) ∧
      ∀ component ∈ used, (treeAt fs (base ++ [name])).isFile component.names = true := by
  have hfiles : ∀ component : Component, fs.isFile (component.sourceFile target) =
      (treeAt fs (base ++ [name])).isFile component.names := by
    intro component
    rw [Component.sourceFile_eq]
    exact h.isFile_eq (by simp [Component.names]) Component.isName_of_mem_names
  simp only [source_eq_ok_iff, hfiles]

/-- A page is written exactly if one can be put into the tree. -/
theorem Page.follows_write {fs : FileSystem} {target : Path} {base : Place} {name : String}
    (h : Target fs target base name) (spec : Spec) :
    Follows base name fs (Page.write fs spec target)
      (spec.paged (treeAt fs (base ++ [name]))) := by
  unfold Page.write Spec.paged
  cases hsource : source fs spec target with
  | error e =>
    have hnone : (match draft? spec with
        | none => none
        | some (used, text) =>
          if used.all fun component => (treeAt fs (base ++ [name])).isFile component.names then
            (treeAt fs (base ++ [name])).write Page.file.segments (.ofText text)
          else none) = none := by
      split
      · rfl
      next used text hdraft =>
        refine if_neg fun hall => ?_
        have hok := (source_target_iff h).mpr ⟨used, hdraft, List.all_eq_true.mp hall⟩
        cases hok.symm.trans hsource
    rw [hnone]
    exact Follows.error e
  | ok text =>
    obtain ⟨used, hdraft, hall⟩ := (source_target_iff h).mp hsource
    simp only [hdraft, List.all_eq_true.mpr hall, if_true]
    exact h.follows_writeText (by decide) (by decide) _

namespace Theme

/-- The stylesheet of a theme, and its layout if it has a font, made of a stylesheet and a layout:
first the colour, then the font. -/
def styled? (theme : Theme) (stylesheet : List Char) (layout : Option (List Char)) :
    Option (List Char × Option (List Char)) :=
  match theme.recolor stylesheet, theme.font.map Font.ofName with
  | .ok colored, none => some (colored, none)
  | .ok colored, some (.ok font) =>
    match layout.map fun layout => applyFont font layout colored with
    | some (.ok (layout, stylesheet)) => some (stylesheet, some layout)
    | _ => none
  | _, _ => none

/-- A tree with a theme. -/
def restyled (theme : Theme) (tree : Tree) : Option Tree :=
  match (tree.text? Stylesheet.file.segments).map String.toList with
  | none => none
  | some current =>
    match theme.styled? current ((tree.text? Layout.file.segments).map String.toList) with
    | none => none
    | some (stylesheet, none) => tree.writeChanged Stylesheet.file.segments current stylesheet
    | some (stylesheet, some layout) =>
      (tree.write Layout.file.segments (.ofText (String.ofList layout))).bind fun tree =>
        tree.writeChanged Stylesheet.file.segments current stylesheet

end Theme

/-- A tree with the page and the theme of a spec. -/
def Spec.decorated (spec : Spec) (tree : Tree) : Option Tree :=
  (spec.paged tree).bind fun tree =>
    match spec.theme with
    | none => some tree
    | some theme => theme.restyled tree

namespace Theme

variable {fs : FileSystem} {target : Path} {base : Place} {name : String}

/-- A stylesheet is written exactly if it can be put into the tree. -/
theorem follows_writeChanged (h : Target fs target base name) (before after : List Char) :
    Follows base name fs (writeChanged fs (target.join Stylesheet.file) before after)
      ((treeAt fs (base ++ [name])).writeChanged Stylesheet.file.segments before after) := by
  unfold writeChanged Tree.writeChanged
  split
  · exact Follows.ok ()
  · exact h.follows_writeText (by decide) (by decide) ()

/-- A theme is applied exactly if it can be applied to the tree. -/
theorem follows_apply (h : Target fs target base name) (theme : Theme) :
    Follows base name fs (theme.apply fs target) (theme.restyled (treeAt fs (base ++ [name]))) := by
  have hread : ∀ {file : Path}, file.segments ≠ [] → (∀ other ∈ file.segments, IsName other) →
      ∀ {text}, readText fs (target.join file) = .ok text ↔
        ((treeAt fs (base ++ [name])).text? file.segments).map String.toList = some text :=
    fun hne hnames => h.readText_eq_ok_iff hne hnames
  have hnone : ∀ {file : Path}, file.segments ≠ [] → (∀ other ∈ file.segments, IsName other) →
      ∀ {e}, readText fs (target.join file) = .error e →
        ((treeAt fs (base ++ [name])).text? file.segments).map String.toList = none := by
    intro file hne hnames e herror
    refine Option.eq_none_iff_forall_ne_some.mpr fun text htext => ?_
    cases ((hread hne hnames).mpr htext).symm.trans herror
  unfold apply restyled
  simp only
  cases hcurrent : readText fs (target.join Stylesheet.file) with
  | error e =>
    rw [hnone (by decide) (by decide) hcurrent]
    exact Follows.error e
  | ok current =>
    rw [(hread (by decide) (by decide)).mp hcurrent]
    simp only [styled?]
    cases recolor theme current with
    | error e => exact Follows.error e
    | ok colored =>
      cases theme.font with
      | none => exact follows_writeChanged h current colored
      | some fontName =>
        simp only [Option.map_some]
        cases Font.ofName fontName with
        | error e => exact Follows.error e
        | ok font =>
          simp only
          cases hlayout : readText fs (target.join Layout.file) with
          | error e =>
            rw [hnone (by decide) (by decide) hlayout]
            exact Follows.error e
          | ok layout =>
            rw [(hread (by decide) (by decide)).mp hlayout]
            simp only [Option.map_some]
            cases applyFont font layout colored with
            | error e => exact Follows.error e
            | ok texts =>
              obtain ⟨layout', stylesheet⟩ := texts
              simp only
              have hwrite : Follows base name fs
                  (writeText fs (target.join Layout.file) layout')
                  ((treeAt fs (base ++ [name])).write Layout.file.segments
                    (.ofText (String.ofList layout'))) :=
                h.follows_writeText (by decide) (by decide) ()
              cases hstep : writeText fs (target.join Layout.file) layout' with
              | mk result middle =>
                rw [hstep] at hwrite
                cases result with
                | error e => exact hwrite.bind_error e _
                | ok u => exact hwrite.bind_ok (follows_writeChanged (h.edits hwrite.edits) _ _)

end Theme

/-- A tree is decorated exactly if the page and the theme can be put into it. -/
theorem Spec.follows_decorate {fs : FileSystem} {target : Path} {base : Place} {name : String}
    (h : Target fs target base name) (spec : Spec) :
    Follows base name fs (spec.decorate target fs)
      (spec.decorated (treeAt fs (base ++ [name]))) := by
  have hpage := Page.follows_write h spec
  unfold Spec.decorate Spec.decorated
  cases hstep : Page.write fs spec target with
  | mk result middle =>
    rw [hstep] at hpage
    cases result with
    | error e => exact hpage.bind_error e _
    | ok path =>
      refine hpage.bind_ok ?_
      cases spec.theme with
      | none => exact Follows.ok ()
      | some theme => exact Theme.follows_apply (h.edits hpage.edits) theme

end Siteworks
