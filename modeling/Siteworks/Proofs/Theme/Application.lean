import Mathlib
import Siteworks.Proofs.FileSystem.Directories
import Siteworks.Proofs.FileSystem.Listing
import Siteworks.Theme

/-!
# What applying a theme leaves

Both texts are read and rewritten before the first file is written, and a file that has been read can
be written. So a theme that cannot be applied changes nothing, and one that is applied leaves exactly
the rewritten texts.
-/

namespace Siteworks

open FileSystem (Edits)

namespace FileSystem

/-- The text of the file at a place. -/
def textAt? (fs : FileSystem) (place : Place) : Option (List Char) :=
  match fs.get? place with
  | some (.file content) => content.data.text?.map String.toList
  | _ => none

/-- The text of a file that has been given one. -/
theorem textAt?_eq_of_get? {fs : FileSystem} {place : Place} {text : List Char}
    (h : fs.get? place = some (.file (.ofText (String.ofList text)))) : fs.textAt? place = some text := by
  simp [textAt?, h, Content.ofText, Content.data]

/-- What two file systems have at a place makes the text there. -/
theorem textAt?_congr {fs after : FileSystem} {place : Place} (h : after.get? place = fs.get? place) :
    after.textAt? place = fs.textAt? place := by
  rw [textAt?, h, textAt?]

/-- The second file system has a text at a place, and is otherwise the first one. -/
structure Sets (fs : FileSystem) (place : Place) (text : List Char) (after : FileSystem) : Prop where
  /-- Nothing is changed at another place. -/
  edits : Edits (fun _ => False) (· = place) fs after
  /-- The text is there. -/
  textAt?_eq : after.textAt? place = some text

/-- Another place is as it was. -/
theorem Sets.get?_eq {fs after : FileSystem} {place other : Place} {text : List Char}
    (h : fs.Sets place text after) (hother : other ≠ place) : after.get? other = fs.get? other :=
  h.edits.get?_eq not_false hother

/-- A path behind a directory that leads somewhere leads into a directory. -/
theorem exists_enters_of_locate {fs : FileSystem} {root : Path} {names : List String} {place : Place}
    (hne : names ≠ []) (hnames : ∀ name ∈ names, IsName name)
    (h : fs.locate (root.join ⟨names⟩) = .ok place) : ∃ base, fs.Enters root base := by
  have habsolute := Path.isAbsolute_of_isName hnames
  obtain ⟨-, hfound⟩ := locate_eq_ok_iff.mp h
  rw [Path.segments_join _ habsolute, fs.start_join _ habsolute hne] at hfound
  obtain ⟨base, hstem, hdirectory⟩ := followLinks_of_append (fs.get?_start root) hne hfound
  exact ⟨base, hstem, hdirectory⟩

end FileSystem

namespace Theme

variable {fs : FileSystem} {root path : Path} {base place : Place} {names : List String}
  {text : List Char}

/-- A text that is read behind a root is in a directory to which the root leads. -/
theorem exists_enters_of_readText (hne : names ≠ []) (hnames : ∀ name ∈ names, IsName name)
    (h : readText fs (root.join ⟨names⟩) = .ok text) : ∃ base, fs.Enters root base := by
  unfold readText FileSystem.readText FileSystem.read at h
  cases hlocate : fs.locate (root.join ⟨names⟩) with
  | error fault => simp [hlocate] at h
  | ok place => exact FileSystem.exists_enters_of_locate hne hnames hlocate

section Below

variable (h : fs.Leads path base names []) (hne : names ≠ []) (hbare : fs.Bare base)
include h hne hbare

/-- The text that is read is that of the file to which the names lead. -/
theorem readText_eq_ok_iff :
    readText fs path = .ok text ↔ fs.textAt? (base ++ names) = some text := by
  have hread : ∀ {content}, fs.read path = .ok content ↔
      fs.get? (base ++ names) = some (.file content) := h.read_eq_ok_iff hne hbare
  unfold readText FileSystem.readText FileSystem.textAt?
  cases hcontent : fs.read path with
  | error fault =>
    simp only [reduceCtorEq, false_iff]
    split
    next content hfile => cases (hread.mpr hfile).symm.trans hcontent
    · exact nofun
  | ok content =>
    rw [hread.mp hcontent]
    cases htext : content.data.text? <;> simp [htext]

/-- A file that has been read is written. -/
theorem exists_writeText (htext : fs.textAt? (base ++ names) = some text) (other : List Char) :
    ∃ after, writeText fs path other = (.ok (), after) ∧ fs.Sets (base ++ names) other after := by
  obtain ⟨content, hcontent⟩ : ∃ content, fs.get? (base ++ names) = some (.file content) := by
    unfold FileSystem.textAt? at htext
    split at htext
    next content hcontent => exact ⟨content, hcontent⟩
    · cases htext
  have hadmits := FileSystem.admits_of_file hcontent
  have hwrite : fs.write path (.ofText (String.ofList other)) =
      .ok (fs.put (base ++ names) (.file (.ofText (String.ofList other)))) :=
    (h.write_eq_ok_iff hne hbare).mpr ⟨hadmits, rfl⟩
  refine ⟨_, by rw [writeText, hwrite], Edits.put_file _ (hbare names) rfl, ?_⟩
  exact FileSystem.textAt?_eq_of_get? (FileSystem.get?_put_self hadmits _)

/-- A file that has been read is written if its text changes. -/
theorem exists_writeChanged (htext : fs.textAt? (base ++ names) = some text) (other : List Char) :
    ∃ after, writeChanged fs path text other = (.ok (), after) ∧
      fs.Sets (base ++ names) other after := by
  unfold writeChanged
  split
  next hsame => exact ⟨fs, rfl, Edits.refl fs, hsame ▸ htext⟩
  · exact exists_writeText h hne hbare htext other

end Below

/-- What the colour of a theme makes of a stylesheet. -/
inductive Recolors (theme : Theme) (stylesheet : List Char) : List Char → Prop
  /-- Without a colour the stylesheet stays as it is. -/
  | plain (hcolor : theme.primaryColor = none) : theme.Recolors stylesheet stylesheet
  /-- The palette that the colour stands for goes into the stylesheet. -/
  | colored {text : String} {palette : Palette} {colored : List Char}
      (hcolor : theme.primaryColor = some text) (hpalette : Palette.ofHex text = .ok palette)
      (happlied : Stylesheet.applyPalette palette stylesheet = .ok colored) :
    theme.Recolors stylesheet colored

/-- The colour of a theme makes of a stylesheet what is put into it. -/
theorem recolor_eq_ok_iff {theme : Theme} {stylesheet colored : List Char} :
    theme.recolor stylesheet = .ok colored ↔ theme.Recolors stylesheet colored := by
  constructor
  · intro h
    unfold recolor at h
    split at h
    next hnone =>
      cases h
      exact .plain hnone
    next text hsome =>
      split at h
      · cases h
      next palette hpalette => exact .colored hsome hpalette h
  · intro h
    cases h with
    | plain hnone => simp only [recolor, hnone]
    | colored hsome hpalette happlied => simp only [recolor, hsome, hpalette, happlied]

/-- What a theme makes of a stylesheet and of a layout, if there is one: the colour goes into the
stylesheet, and then the font into both. -/
inductive Restyles (theme : Theme) (stylesheet : List Char) :
    Option (List Char) → List Char → Option (List Char) → Prop
  /-- Without a font the layout stays as it is. -/
  | plain {layout : Option (List Char)} {colored : List Char} (hfont : theme.font = none)
      (hcolor : theme.Recolors stylesheet colored) :
    theme.Restyles stylesheet layout colored layout
  /-- A font goes into the layout and the stylesheet with the colour. -/
  | fonted {layout colored layout' stylesheet' : List Char} {name : String} {font : Font}
      (hname : theme.font = some name) (hfont : Font.ofName name = .ok font)
      (hcolor : theme.Recolors stylesheet colored)
      (htexts : applyFont font layout colored = .ok (layout', stylesheet')) :
    theme.Restyles stylesheet (some layout) stylesheet' (some layout')

/-- The second file system has the stylesheet and the layout below a base that a theme makes of those
in the first one, and is otherwise the same. -/
structure Rewrites (theme : Theme) (fs : FileSystem) (base : Place) (after : FileSystem) : Prop where
  /-- Both texts are what the theme makes of them. -/
  restyles : ∃ stylesheet stylesheet',
    fs.textAt? (base ++ ["app", "globals.css"]) = some stylesheet ∧
      after.textAt? (base ++ ["app", "globals.css"]) = some stylesheet' ∧
        theme.Restyles stylesheet (fs.textAt? (base ++ ["app", "layout.tsx"])) stylesheet'
          (after.textAt? (base ++ ["app", "layout.tsx"]))
  /-- Without a font the file of the layout is as it was. -/
  layout : theme.font = none →
    after.get? (base ++ ["app", "layout.tsx"]) = fs.get? (base ++ ["app", "layout.tsx"])
  /-- All other places are as they were. -/
  others : ∀ place, place ≠ base ++ ["app", "globals.css"] → place ≠ base ++ ["app", "layout.tsx"] →
    after.get? place = fs.get? place
  /-- Relative paths start where they did. -/
  workingDirectory : after.workingDirectory = fs.workingDirectory

namespace Rewrites

variable {theme : Theme} {after middle : FileSystem} {stylesheet colored : List Char}

/-- The stylesheet and the layout are not one file. -/
theorem stylesheet_ne_layout (base : Place) :
    base ++ ["app", "globals.css"] ≠ base ++ ["app", "layout.tsx"] := by
  simp

/-- A theme without a font leaves the stylesheet with its colour. -/
theorem of_plain (hfont : theme.font = none) (hcolor : theme.Recolors stylesheet colored)
    (htext : fs.textAt? (base ++ ["app", "globals.css"]) = some stylesheet)
    (hsets : fs.Sets (base ++ ["app", "globals.css"]) colored after) :
    theme.Rewrites fs base after := by
  have hlayout := hsets.get?_eq (stylesheet_ne_layout base).symm
  refine ⟨⟨stylesheet, colored, htext, hsets.textAt?_eq, ?_⟩, fun _ => hlayout,
    fun place hplace _ => hsets.get?_eq hplace, hsets.edits.workingDirectory⟩
  rw [FileSystem.textAt?_congr hlayout]
  exact .plain hfont hcolor

/-- A theme with a font leaves the layout with the font, and the stylesheet with both. -/
theorem of_fonted {name : String} {font : Font} {layout layout' stylesheet' : List Char}
    (hname : theme.font = some name) (hfont : Font.ofName name = .ok font)
    (hcolor : theme.Recolors stylesheet colored)
    (htexts : applyFont font layout colored = .ok (layout', stylesheet'))
    (htext : fs.textAt? (base ++ ["app", "globals.css"]) = some stylesheet)
    (hlayout : fs.textAt? (base ++ ["app", "layout.tsx"]) = some layout)
    (hsets : fs.Sets (base ++ ["app", "layout.tsx"]) layout' middle)
    (hsets' : middle.Sets (base ++ ["app", "globals.css"]) stylesheet' after) :
    theme.Rewrites fs base after := by
  have hkept := FileSystem.textAt?_congr (hsets'.get?_eq (stylesheet_ne_layout base).symm)
  refine ⟨⟨stylesheet, stylesheet', htext, hsets'.textAt?_eq, ?_⟩, fun hnone => ?_,
    fun place hplace hplace' => (hsets'.get?_eq hplace).trans (hsets.get?_eq hplace'),
    hsets'.edits.workingDirectory.trans hsets.edits.workingDirectory⟩
  · rw [hkept, hsets.textAt?_eq, hlayout]
    exact .fonted hname hfont hcolor htexts
  · cases hnone.symm.trans hname

end Rewrites

/-- The texts below a root are such that a theme makes something of them. -/
def Fits (theme : Theme) (fs : FileSystem) (root : Path) : Prop :=
  ∃ base stylesheet stylesheet' layout', fs.Enters root base ∧
    fs.textAt? (base ++ ["app", "globals.css"]) = some stylesheet ∧
      theme.Restyles stylesheet (fs.textAt? (base ++ ["app", "layout.tsx"])) stylesheet' layout'

section Applied

variable {theme : Theme} {name : String}

/-- A file of the app is where the root leads. -/
theorem leads_app (hbase : fs.Enters root base) (hname : IsName name) :
    fs.Leads (root.join ⟨["app", name]⟩) base ["app", name] [] :=
  hbase.leads (List.cons_ne_nil _ _) (by simpa using ⟨by decide, hname⟩)

/-- The text of a file of the app is read where the root leads. -/
theorem readText_app_eq_ok_iff (hbase : fs.Enters root base) (hbare : fs.Bare base)
    (hname : IsName name) : readText fs (root.join ⟨["app", name]⟩) = .ok text ↔
      fs.textAt? (base ++ ["app", name]) = some text :=
  readText_eq_ok_iff (leads_app hbase hname) (List.cons_ne_nil _ _) hbare

/-- A theme that makes something of the texts is applied. -/
theorem apply_of_restyles {stylesheet stylesheet' : List Char} {layout' : Option (List Char)}
    (hbase : fs.Enters root base) (hbare : fs.Bare base)
    (htext : fs.textAt? (base ++ ["app", "globals.css"]) = some stylesheet)
    (h : theme.Restyles stylesheet (fs.textAt? (base ++ ["app", "layout.tsx"])) stylesheet' layout') :
    ∃ after, theme.apply fs root = (.ok (), after) ∧ theme.Rewrites fs base after := by
  have hcurrent : readText fs (root.join Stylesheet.file) = .ok stylesheet :=
    (readText_app_eq_ok_iff hbase hbare (by decide)).mpr htext
  generalize hlayoutText : fs.textAt? (base ++ ["app", "layout.tsx"]) = layout? at h
  cases h with
  | plain hfont hcolor =>
    obtain ⟨after, hwrite, hsets⟩ := exists_writeChanged (leads_app hbase (by decide))
      (List.cons_ne_nil _ _) hbare htext stylesheet'
    refine ⟨after, ?_, .of_plain hfont hcolor htext hsets⟩
    simp only [apply, hcurrent, recolor_eq_ok_iff.mpr hcolor, hfont]
    exact hwrite
  | @fonted layout colored layout' _ name font hname hfont hcolor htexts =>
    have hlayout : readText fs (root.join Layout.file) = .ok layout :=
      (readText_app_eq_ok_iff hbase hbare (by decide)).mpr hlayoutText
    obtain ⟨middle, hwrite, hsets⟩ := exists_writeText (leads_app hbase (by decide))
      (List.cons_ne_nil _ _) hbare hlayoutText layout'
    -- the stylesheet is still there when the layout is written
    have hstill := FileSystem.textAt?_congr (hsets.get?_eq (Rewrites.stylesheet_ne_layout base))
    obtain ⟨after, hwrite', hsets'⟩ := exists_writeChanged
      (leads_app (hbase.edits hsets.edits) (by decide)) (List.cons_ne_nil _ _)
      (hbare.edits hsets.edits) (hstill.trans htext) stylesheet'
    have hfirst : writeText fs (root.join Layout.file) layout' = (.ok (), middle) := hwrite
    refine ⟨after, ?_, .of_fonted hname hfont hcolor htexts htext hlayoutText hsets hsets'⟩
    simp only [apply, hcurrent, recolor_eq_ok_iff.mpr hcolor, hname, hfont, hlayout, htexts, hfirst]
    exact hwrite'

/-- At each stage a theme is refused and nothing is changed, or it goes on, until the theme is seen to
fit. -/
theorem apply_eq_error_or_fits (theme : Theme)
    (hbare : ∀ base, fs.Enters root base → fs.Bare base) :
    (∃ e, theme.apply fs root = (.error e, fs)) ∨ theme.Fits fs root := by
  cases hcurrent : readText fs (root.join Stylesheet.file) with
  | error e => exact Or.inl ⟨e, by simp only [apply, hcurrent]⟩
  | ok current =>
    obtain ⟨base, hbase⟩ := exists_enters_of_readText (by decide) (by decide) hcurrent
    have htext := (readText_app_eq_ok_iff hbase (hbare base hbase) (by decide)).mp hcurrent
    cases hcolor : theme.recolor current with
    | error e => exact Or.inl ⟨e, by simp only [apply, hcurrent, hcolor]⟩
    | ok colored =>
      have hrecolors := recolor_eq_ok_iff.mp hcolor
      cases hname : theme.font with
      | none => exact Or.inr ⟨base, current, colored, _, hbase, htext, .plain hname hrecolors⟩
      | some name =>
        cases hfont : Font.ofName name with
        | error e => exact Or.inl ⟨e, by simp only [apply, hcurrent, hcolor, hname, hfont]⟩
        | ok font =>
          cases hlayout : readText fs (root.join Layout.file) with
          | error e => exact Or.inl ⟨e, by simp only [apply, hcurrent, hcolor, hname, hfont, hlayout]⟩
          | ok layout =>
            cases htexts : applyFont font layout colored with
            | error e =>
              exact Or.inl ⟨e, by simp only [apply, hcurrent, hcolor, hname, hfont, hlayout, htexts]⟩
            | ok texts =>
              have hlayoutText := (readText_app_eq_ok_iff hbase (hbare base hbase) (by decide)).mp
                hlayout
              refine Or.inr ⟨base, current, texts.2, some texts.1, hbase, htext, ?_⟩
              rw [hlayoutText]
              exact .fonted hname hfont hrecolors htexts

end Applied

/-- A theme is applied in full or not at all: one that is refused changes nothing, one that is applied
leaves the texts that it makes, and one that fits is not refused. -/
theorem apply_all_or_nothing (theme : Theme) (hbare : ∀ base, fs.Enters root base → fs.Bare base) :
    (∀ e after, theme.apply fs root = (.error e, after) → after = fs) ∧
      (∀ after, theme.apply fs root = (.ok (), after) →
        ∃ base, fs.Enters root base ∧ theme.Rewrites fs base after) ∧
      (theme.Fits fs root → ∃ after, theme.apply fs root = (.ok (), after)) := by
  have happlied (hfits : theme.Fits fs root) : ∃ base after,
      theme.apply fs root = (.ok (), after) ∧ fs.Enters root base ∧ theme.Rewrites fs base after := by
    obtain ⟨base, stylesheet, stylesheet', layout', hbase, htext, hrestyles⟩ := hfits
    obtain ⟨after, hrun, hrewrites⟩ := apply_of_restyles hbase (hbare base hbase) htext hrestyles
    exact ⟨base, after, hrun, hbase, hrewrites⟩
  refine ⟨fun e after h => ?_, fun after h => ?_, fun hfits => ?_⟩
  · rcases apply_eq_error_or_fits theme hbare with ⟨e, hrun⟩ | hfits
    · exact (Prod.mk.inj (h.symm.trans hrun)).2
    · obtain ⟨-, other, hrun, -⟩ := happlied hfits
      cases h.symm.trans hrun
  · rcases apply_eq_error_or_fits theme hbare with ⟨e, hrun⟩ | hfits
    · cases h.symm.trans hrun
    · obtain ⟨base, other, hrun, hbase, hrewrites⟩ := happlied hfits
      obtain rfl := (Prod.mk.inj (h.symm.trans hrun)).2
      exact ⟨base, hbase, hrewrites⟩
  · obtain ⟨-, after, hrun, -⟩ := happlied hfits
    exact ⟨after, hrun⟩

/-- A layout without fonts. -/
def plainLayout : String :=
  "export default function Layout() \x7b\n  return <body className=\"bg\" />;\n\x7d\n"

/-- A stylesheet with a place for a colour in light and in dark mode, and for a font. -/
def modesStylesheet : String :=
  ":root\x7b--primary:a;--primary-foreground:b;--font-sans:c;\x7d\n" ++
    ".dark\x7b--primary:d;--primary-foreground:e;\x7d\n"

/-- A site with a stylesheet and a layout. -/
def plainSite : FileSystem :=
  [(["site"], Node.directory), (["site", "app"], .directory),
    (["site", "app", "layout.tsx"], .file (.ofText plainLayout)),
    (["site", "app", "globals.css"], .file (.ofText modesStylesheet))].foldl
      (fun fs (place, node) => fs.put place node) .empty

/-- A theme with a colour and a font. -/
def blackInter : Theme := ⟨some "#000000", some "Inter"⟩

/-- The colour and the font go into the stylesheet and the layout. -/
theorem exists_restyles_black : ∃ stylesheet layout,
    blackInter.Restyles modesStylesheet.toList (some plainLayout.toList) stylesheet (some layout) := by
  have hmade : ((blackInter.recolor modesStylesheet.toList).bind fun colored =>
      (Font.ofName "Inter").bind fun font => applyFont font plainLayout.toList colored).isOk := by
    -- the characters of both texts are written out, so that no step has to decode them again
    have hstylesheet : modesStylesheet.toList = _ :=
      String.toList_append.trans (congrArg₂ (· ++ ·) String.toList_ofList String.toList_ofList)
    have hlayout : plainLayout.toList = _ := String.toList_ofList
    rw [hstylesheet, hlayout]
    decide +kernel
  revert hmade
  cases hcolor : blackInter.recolor modesStylesheet.toList with
  | error e => exact nofun
  | ok colored =>
    cases hfont : Font.ofName "Inter" with
    | error e => exact nofun
    | ok font =>
      cases htexts : applyFont font plainLayout.toList colored with
      | error e =>
        intro hmade
        simp only [Except.bind, htexts] at hmade
        cases hmade
      | ok texts =>
        exact fun _ => ⟨_, _, .fonted rfl hfont (recolor_eq_ok_iff.mp hcolor) htexts⟩

/-- A colour and a font are applied to the site in full, so the palette of the colour is in the
stylesheet into which the font goes. -/
theorem apply_all_or_nothing_black :
    ∃ after base, blackInter.apply plainSite ⟨["site"]⟩ = (.ok (), after) ∧
      plainSite.Enters ⟨["site"]⟩ base ∧ blackInter.Rewrites plainSite base after := by
  have hbare : plainSite.Bare [] := FileSystem.bare_of_toList_nodes (by decide +kernel)
  have hbase : plainSite.Enters ⟨["site"]⟩ ["site"] := ⟨rfl, rfl⟩
  have hlayout : plainSite.textAt? (["site"] ++ ["app", "layout.tsx"]) = some plainLayout.toList :=
    FileSystem.textAt?_eq_of_get? (by rw [String.ofList_toList]; rfl)
  have hstylesheet : plainSite.textAt? (["site"] ++ ["app", "globals.css"]) =
      some modesStylesheet.toList :=
    FileSystem.textAt?_eq_of_get? (by rw [String.ofList_toList]; rfl)
  obtain ⟨stylesheet, layout, hrestyles⟩ := exists_restyles_black
  obtain ⟨-, happlied, hfits⟩ := apply_all_or_nothing blackInter
    fun base (_ : plainSite.Enters ⟨["site"]⟩ base) names => hbare (base ++ names)
  obtain ⟨after, hrun⟩ := hfits
    ⟨["site"], _, stylesheet, some layout, hbase, hstylesheet, hlayout ▸ hrestyles⟩
  obtain ⟨base, hbase, hmade⟩ := happlied after hrun
  exact ⟨after, base, hrun, hbase, hmade⟩

end Theme

end Siteworks
