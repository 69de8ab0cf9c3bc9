import Mathlib
import Siteworks.Proofs.Archive.Walking
import Siteworks.Proofs.FileSystem.Contents
import Siteworks.Proofs.FileSystem.Storing

/-!
# What is packed

An archive holds each file of its tree once, whatever was at its place before. Nothing but the
archive is changed while a tree is packed.
-/

namespace Siteworks.Archive

open FileSystem (Edits)

/-- Names without slashes are told apart by what they are in an archive. -/
theorem intercalate_slash_inj {names names' : Place}
    (hslash : ∀ name ∈ names, '/' ∉ name.toList) (hslash' : ∀ name ∈ names', '/' ∉ name.toList)
    (hne : names ≠ []) (hne' : names' ≠ [])
    (h : "/".intercalate names = "/".intercalate names') : names = names' := by
  have hsplit : ∀ names : Place, names ≠ [] → (∀ name ∈ names, '/' ∉ name.toList) →
      ("/".intercalate names).toList.splitOn '/' = names.map String.toList := by
    intro names hne hslash
    rw [String.toList_intercalate]
    exact List.splitOn_intercalate '/' (by simpa using hslash) (by simpa using hne)
  have hsame : names.map String.toList = names'.map String.toList := by
    rw [← hsplit names hne hslash, h, hsplit names' hne' hslash']
  exact List.map_injective_iff.mpr (fun _ _ => String.toList_injective) hsame

section Pack

variable {fs after : FileSystem} {source archive : Path} {base : Place} {name zip : String}

/-- Nothing but the archive is changed by packing, however it ends. -/
theorem edits_packTree {result : Except GenerationError Nat}
    (hbare : fs.Bare base) (harchive : fs.Leads archive base [zip] [])
    (h : packTree fs source archive = (result, after)) :
    Edits (fun _ => False) (· = base ++ [zip]) fs after := by
  have hstep : ∀ {before after : FileSystem} {content : Content}, before.Bare base →
      before.Leads archive base [zip] [] → before.write archive content = .ok after →
      Edits (fun _ => False) (· = base ++ [zip]) before after :=
    fun hbare hleads hwrite => hleads.edits_of_write (List.cons_ne_nil _ _) hbare hwrite
  unfold packTree at h
  simp only at h
  split at h
  · cases h
    exact Edits.refl _
  next middle hempty =>
    have hfirst := hstep hbare harchive hempty
    have hsecond : ∀ {content : Content} {last : FileSystem},
        middle.write archive content = .ok last →
        Edits (fun _ => False) (· = base ++ [zip]) fs last :=
      fun hwrite => hfirst.trans (hstep (hbare.edits hfirst) (harchive.edits hfirst) hwrite)
    split at h
    · split at h
      · cases h
        exact hfirst
      next hwrite =>
        cases h
        exact hsecond hwrite
    · split at h
      · cases h
        exact hfirst
      next hwrite =>
        cases h
        exact hsecond hwrite

/-- A tree can be packed exactly if no directory is where the archive is due; then the archive has
the entries of the tree as it is, and their number is answered. -/
theorem packTree_eq_ok_iff {count : Nat} (hbare : fs.Bare base)
    (hsource : fs.Leads source base [name] []) (harchive : fs.Leads archive base [zip] [])
    (hzip : zip ≠ name) (htree : fs.get? (base ++ [name]) = some .directory) :
    packTree fs source archive = (.ok count, after) ↔
      fs.get? (base ++ [zip]) ≠ some .directory ∧
        count = (entriesBelow fs (base ++ [name])).length ∧
        after = (fs.put (base ++ [zip]) (.file .empty)).put (base ++ [zip])
          (.file (.archive ⟨entriesBelow fs (base ++ [name])⟩)) := by
  have hwrite : ∀ {before : FileSystem} {content : Content}, before.Bare base →
      before.Leads archive base [zip] [] → before.get? (base ++ [zip]) ≠ some .directory →
      before.write archive content = .ok (before.put (base ++ [zip]) (.file content)) := by
    intro before content hbare hleads hfree
    refine (hleads.write_eq_ok_iff (List.cons_ne_nil _ _) hbare).mpr ⟨?_, rfl⟩
    refine (hleads.admits_iff (List.cons_ne_nil _ _)).mpr ⟨?_, hfree⟩
    simpa using hleads.directory
  by_cases hdirectory : fs.get? (base ++ [zip]) = some .directory
  · refine iff_of_false (fun h => ?_) fun h => h.1 hdirectory
    unfold packTree at h
    simp only at h
    split at h
    · cases h
    next hempty =>
      obtain ⟨hadmits, -⟩ :=
        (harchive.write_eq_ok_iff (List.cons_ne_nil _ _) hbare).mp hempty
      exact hadmits.2.2 hdirectory
  · have hempty : fs.write archive .empty = .ok (fs.put (base ++ [zip]) (.file .empty)) :=
      hwrite hbare harchive hdirectory
    have hedits := harchive.edits_of_write (List.cons_ne_nil _ _) hbare hempty
    have hadmits := ((harchive.write_eq_ok_iff (List.cons_ne_nil _ _) hbare).mp hempty).1
    have hfile : (fs.put (base ++ [zip]) (.file .empty)).get? (base ++ [zip]) ≠
        some .directory := by
      rw [FileSystem.get?_put hadmits, if_pos rfl]
      exact nofun
    have hsame : ∀ names, (fs.put (base ++ [zip]) (.file .empty)).get? (base ++ [name] ++ names) =
        fs.get? (base ++ [name] ++ names) := by
      intro names
      refine hedits.get?_eq not_false fun heq => hzip ?_
      rw [List.append_assoc] at heq
      exact (List.cons.inj (List.append_cancel_left heq)).1.symm
    have htree' : (fs.put (base ++ [zip]) (.file .empty)).get? (base ++ [name]) =
        some .directory := by
      have hself := hsame []
      rwa [List.append_nil, htree] at hself
    have hlocate := (hsource.edits hedits).locate_eq (List.cons_ne_nil _ _) htree' nofun
    have hentries : entriesOf (fs.put (base ++ [zip]) (.file .empty)) source (base ++ [name]) =
        entriesBelow fs (base ++ [name]) := by
      rw [entriesOf_eq, if_neg (by simp [htree']), entriesBelow_congr hsame]
    have hlast : (fs.put (base ++ [zip]) (.file .empty)).write archive
        (.archive ⟨entriesBelow fs (base ++ [name])⟩) =
          .ok ((fs.put (base ++ [zip]) (.file .empty)).put (base ++ [zip])
            (.file (.archive ⟨entriesBelow fs (base ++ [name])⟩))) :=
      hwrite (hbare.edits hedits) (harchive.edits hedits) hfile
    unfold packTree
    simp only [hempty, hlocate, hentries, hlast, Prod.mk.injEq, Except.ok.injEq, ne_eq,
      hdirectory, not_false_eq_true, true_and, eq_comm]

/-- An archive that was packed is there with the entries of its tree. -/
theorem get?_of_packTree {count : Nat} (hbare : fs.Bare base)
    (hsource : fs.Leads source base [name] []) (harchive : fs.Leads archive base [zip] [])
    (hzip : zip ≠ name) (htree : fs.get? (base ++ [name]) = some .directory)
    (h : packTree fs source archive = (.ok count, after)) :
    after.get? (base ++ [zip]) =
      some (.file (.archive ⟨entriesBelow fs (base ++ [name])⟩)) := by
  obtain ⟨hfree, -, rfl⟩ := (packTree_eq_ok_iff hbare hsource harchive hzip htree).mp h
  have hadmits : fs.Admits (base ++ [zip]) :=
    (harchive.admits_iff (List.cons_ne_nil _ _)).mpr ⟨by simpa using harchive.directory, hfree⟩
  exact FileSystem.get?_put_self (hadmits.put_file .empty) _

/-- A tree that was packed, whatever it is, can be read as an archive by the path it is packed to. -/
theorem read_of_packTree {count : Nat} (h : packTree fs source archive = (.ok count, after)) :
    ∃ entries, after.read archive = .ok (.archive ⟨entries⟩) := by
  unfold packTree at h
  simp only at h
  split at h
  · cases h
  · split at h
    · split at h <;> cases h
    · split at h
      · cases h
      next hwrite =>
        cases h
        exact ⟨_, FileSystem.read_of_write hwrite⟩

end Pack

end Siteworks.Archive
