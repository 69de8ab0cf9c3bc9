import Mathlib
import Siteworks.Proofs.Archive.Packing
import Siteworks.Proofs.Generation.Sites

/-!
# What is in an archive

A tree of files is packed wherever an archive can be made outside of it. The archive has the files
of the tree whose way is not left behind at any place, each once and byte for byte, in the order of
the bytes of the names that lead to them. So it depends on nothing but these files.
-/

namespace Siteworks

namespace Data

/-- The UTF-8 form of a smaller character is in front of that of a greater one, whatever follows. -/
private theorem utf8EncodeChar_append_lt {c d : Char} (h : c < d) (front back : List UInt8) :
    String.utf8EncodeChar c ++ front < String.utf8EncodeChar d ++ back := by
  have hlt : c.val.toNat < d.val.toNat := h
  have hbound : d.val.toNat < 1114112 := by
    rcases d.valid with h | h
    · exact h.trans (by decide)
    · exact h.2
  have hbyte : ∀ n < 256, (UInt8.ofNat n).toNat = n := fun n h => UInt8.toNat_ofNat_of_lt' h
  unfold String.utf8EncodeChar
  simp only
  generalize c.val.toNat = v at *
  generalize d.val.toNat = w at *
  -- the bytes are the digits to the base 64, and the first digit that differs decides
  have hdigit : ∀ v w : Nat, v < w → v / 64 < w / 64 ∨ v / 64 = w / 64 ∧ v % 64 < w % 64 := by
    omega
  have hlast := hdigit v w hlt
  have hthird := hdigit (v / 64) (w / 64)
  have hsecond := hdigit (v / 64 / 64) (w / 64 / 64)
  have hdigits : v / 4096 = v / 64 / 64 ∧ v / 262144 % 8 = v / 64 / 64 / 64 ∧
      w / 4096 = w / 64 / 64 ∧ w / 262144 % 8 = w / 64 / 64 / 64 := by
    omega
  simp only [hdigits]
  split_ifs <;>
    simp (disch := omega) only [List.cons_append, List.nil_append, List.cons_lt_cons_iff,
      UInt8.lt_iff_toNat_lt, ← UInt8.toNat_inj, hbyte] <;>
    omega

/-- The bytes of texts are in the order of the texts. -/
theorem bytes_ofText_lt {text other : String} (h : text < other) :
    (ofText text).bytes < (ofText other).bytes := by
  have hbytes : ∀ text, (ofText text).bytes = text.toList.flatMap String.utf8EncodeChar := by
    intro text
    rw [ofText, String.toUTF8, ← String.utf8Encode_toList, List.utf8Encode, List.data_toByteArray]
  have hlists : ∀ chars others : List Char, chars < others →
      chars.flatMap String.utf8EncodeChar < others.flatMap String.utf8EncodeChar := by
    intro chars others hlt
    induction hlt with
    | @nil c rest =>
      obtain ⟨first, more, hfirst⟩ := List.exists_cons_of_ne_nil (String.utf8EncodeChar_ne_nil (c := c))
      rw [List.flatMap_cons, hfirst]
      exact List.Lex.nil
    | rel hlt =>
      rw [List.flatMap_cons, List.flatMap_cons]
      exact utf8EncodeChar_append_lt hlt _ _
    | cons _ ih => exact List.append_left_lt ih
  rw [hbytes, hbytes]
  exact hlists _ _ (String.lt_iff_toList_lt.mp h)

end Data

/-- The names are in the order of their bytes, component by component. -/
def Place.BytesLt (names other : Place) : Prop :=
  names.map (fun name => (Data.ofText name).bytes) < other.map fun name => (Data.ofText name).bytes

/-- It is not the order of the names joined by slashes: a slash stands behind other characters. -/
example : Place.BytesLt ["a", "x"] ["a.txt"] ∧ "a.txt" < "a/x" := by
  unfold Place.BytesLt
  decide

/-- Places are listed in that order. -/
theorem Place.bytesLt_of_compare {names other : Place} (h : compare names other = .lt) :
    names.BytesLt other := by
  induction names generalizing other with
  | nil =>
    cases other with
    | nil => cases h
    | cons name rest => exact List.Lex.nil
  | cons name rest ih =>
    cases other with
    | nil => cases h
    | cons name' rest' =>
      rw [List.compare_cons_cons, Ordering.then_eq_lt] at h
      rcases h with hname | ⟨hname, hrest⟩
      · exact List.Lex.rel (Data.bytes_ofText_lt (compare_lt_iff_lt.mp hname))
      · obtain rfl := compare_eq_iff_eq.mp hname
        exact List.Lex.cons (ih hrest)

namespace FileSystem.Stores

variable {fs middle after : FileSystem} {path : Path} {content content' : Content} {place : Place}

/-- What is stored can be replaced by a write to the same path. -/
theorem exists_write (h : fs.Stores path content place middle) (content' : Content) :
    ∃ after, middle.write path content' = .ok after ∧ fs.Stores path content' place after := by
  have hreach : middle.reach path = .found place := by
    have hlocate := h.locate
    cases hreach : middle.reach path <;> simp_all [FileSystem.locate]
  have hwrite : middle.write path content' = .ok (middle.put place (.file content')) := by
    simp [write, hreach, h.stored]
  obtain ⟨place', hstores⟩ := exists_stores_of_write hwrite
  have hsame : middle.locate path = .ok place := h.locate
  have hplace : place' = place := by
    have hlocate := hstores.edits.locate_ok hsame
    exact Except.ok.inj (hstores.locate.symm.trans hlocate)
  subst hplace
  exact ⟨_, hwrite, hstores.locate, hstores.stored, h.was,
    fun other hother => (hstores.get?_eq other hother).trans (h.get?_eq other hother),
    hstores.workingDirectory.trans h.workingDirectory⟩

end FileSystem.Stores

namespace Archive

open Scaffold (isExcluded treeAt)

/-- A tree can be packed: a path leads to the directory that is its root, and another one to a place
outside of it where a file can be made. -/
structure Packable (fs : FileSystem) (source archive : Path) (root place : Place) : Prop where
  /-- The path of the tree leads to its root. -/
  source : fs.locate source = .ok root
  /-- The root is a directory. -/
  directory : fs.get? root = some .directory
  /-- A file can be made by the path of the archive, and is at the place then. -/
  archive : ∃ middle, fs.write archive .empty = .ok middle ∧ middle.locate archive = .ok place
  /-- The place is not in the tree. -/
  outside : ¬ root <+: place

section Packable

variable {fs : FileSystem} {source archive : Path} {root place : Place}

/-- Such a tree is packed with the entries for its files, and nothing but the archive changes. -/
theorem Packable.exists_stores (h : Packable fs source archive root place) :
    ∃ after, packTree fs source archive = (.ok (packed fs root).length, after) ∧
      fs.Stores archive (.archive ⟨(packed fs root).map fun file => entryOf file.1 file.2⟩)
        place after := by
  obtain ⟨middle, hwrite, hlocate⟩ := h.archive
  obtain ⟨place', hstores⟩ := FileSystem.exists_stores_of_write hwrite
  obtain rfl : place' = place := Except.ok.inj (hstores.locate.symm.trans hlocate)
  have hroot : middle.locate source = .ok root := hstores.edits.locate_ok h.source
  have hdirectory := hstores.edits.directory h.directory
  have hentries : entriesOf middle source root =
      (packed fs root).map fun file => entryOf file.1 file.2 := by
    rw [entriesOf_eq, if_neg (by simp [hdirectory]), ← entriesBelow_eq_map]
    refine entriesBelow_congr fun names => hstores.get?_eq _ fun hplace => h.outside ?_
    exact hplace ▸ List.prefix_append root names
  obtain ⟨after, hlast, hafter⟩ := hstores.exists_write
    (.archive ⟨(packed fs root).map fun file => entryOf file.1 file.2⟩)
  refine ⟨after, ?_, hafter⟩
  simp only [packTree, hwrite, hroot, hentries, hlast, List.length_map]

/-- The files of the tree that are packed, by the names that lead to them. -/
def listing (fs : FileSystem) (root : Place) : List (Place × Data) :=
  (packed fs root).map fun file => (file.1, file.2.data)

/-- They are those whose way is not left behind at any place. -/
theorem mem_listing {names : Place} {data : Data} :
    (names, data) ∈ listing fs root ↔
      (treeAt fs root).files names = some data ∧ isExcluded names = false := by
  simp only [listing, List.mem_map, Prod.mk.injEq, Prod.exists, mem_packed]
  constructor
  · rintro ⟨_, content, ⟨hfile, hkept⟩, rfl, rfl⟩
    exact ⟨by simp [Scaffold.Tree.files, treeAt, hfile], hkept⟩
  · rintro ⟨hfile, hkept⟩
    unfold Scaffold.Tree.files treeAt at hfile
    split at hfile
    next content hnode =>
      cases hfile
      exact ⟨names, content, ⟨hnode, hkept⟩, rfl, rfl⟩
    · cases hfile

/-- They are listed in the order of the names that lead to them. -/
theorem pairwise_listing (fs : FileSystem) (root : Place) :
    ((listing fs root).map Prod.fst).Pairwise fun a b => compare a b = .lt := by
  have hnames : (listing fs root).map Prod.fst = (packed fs root).map Prod.fst := by
    rw [listing, List.map_map]
    rfl
  rw [hnames]
  exact pairwise_packed fs root

/-- The listing depends on nothing but these files. -/
theorem listing_congr {other : FileSystem} {otherRoot : Place}
    (h : ∀ names, isExcluded names = false →
      (treeAt other otherRoot).files names = (treeAt fs root).files names) :
    listing other otherRoot = listing fs root := by
  refine FileSystem.eq_of_pairwise_compare (pairwise_listing other otherRoot)
    (pairwise_listing fs root) fun file => ?_
  obtain ⟨names, data⟩ := file
  rw [mem_listing, mem_listing]
  exact and_congr_left fun hkept => by rw [h names hkept]

/-- The entries for the files are their bytes under the names that lead to them, joined by slashes. -/
def entriesFor (files : List (Place × Data)) : List ArchiveEntry :=
  files.map fun file => ⟨"/".intercalate file.1, file.2⟩

/-- A tree that can be packed is packed. The archive lists the files of the tree that are not left
behind at any place of their way: each once, with its bytes and the names that lead to it joined by
slashes, in the order of the bytes of these names; their number is answered. Any other tree with the
same files, as far as they are not left behind, is packed with the same entries. -/
theorem packTree_lists_files (h : Packable fs source archive root place) :
    ∃ files : List (Place × Data),
      (∃ after, packTree fs source archive = (.ok (entriesFor files).length, after) ∧
        fs.Stores archive (.archive ⟨entriesFor files⟩) place after) ∧
      (∀ names data, (names, data) ∈ files ↔
        (treeAt fs root).files names = some data ∧ isExcluded names = false) ∧
      (files.map Prod.fst).Pairwise Place.BytesLt ∧
      ∀ other otherSource otherArchive otherRoot otherPlace,
        Packable other otherSource otherArchive otherRoot otherPlace →
        (∀ names, isExcluded names = false →
          (treeAt other otherRoot).files names = (treeAt fs root).files names) →
        ∃ after, packTree other otherSource otherArchive = (.ok (entriesFor files).length, after) ∧
          other.Stores otherArchive (.archive ⟨entriesFor files⟩) otherPlace after := by
  have hpacks : ∀ {fs source archive root place}, Packable fs source archive root place →
      ∃ after, packTree fs source archive = (.ok (entriesFor (listing fs root)).length, after) ∧
        fs.Stores archive (.archive ⟨entriesFor (listing fs root)⟩) place after := by
    intro fs source archive root place hpackable
    simpa [entriesFor, listing, entryOf, Function.comp_def] using hpackable.exists_stores
  refine ⟨listing fs root, hpacks h, fun names data => mem_listing,
    (pairwise_listing fs root).imp Place.bytesLt_of_compare, ?_⟩
  intro other otherSource otherArchive otherRoot otherPlace hother hfiles
  rw [← listing_congr hfiles]
  exact hpacks hother

end Packable

/-- The scaffold of a site can be packed beside the scaffolds. -/
theorem packable_plainScaffold :
    Packable Generator.plainScaffold ⟨["scaffold", "landing"]⟩ ⟨["site.zip"]⟩
      ["scaffold", "landing"] ["site.zip"] := by
  refine ⟨by decide +kernel, by decide +kernel, ?_, by decide⟩
  have hmade : ((Generator.plainScaffold.write ⟨["site.zip"]⟩ .empty).bind
      fun middle => middle.locate ⟨["site.zip"]⟩) = .ok ["site.zip"] := by
    decide +kernel
  cases hwrite : Generator.plainScaffold.write ⟨["site.zip"]⟩ .empty with
  | error fault => simp [hwrite, Except.bind] at hmade
  | ok middle => exact ⟨middle, rfl, by simpa [hwrite, Except.bind] using hmade⟩

/-- Packed there, it has its license in the archive, and nothing of its version control. -/
theorem packTree_lists_files_plain :
    ∃ files after, packTree Generator.plainScaffold ⟨["scaffold", "landing"]⟩ ⟨["site.zip"]⟩ =
        (.ok (entriesFor files).length, after) ∧
      (["LICENSE"], .ofText "None.\n") ∈ files ∧ ([".git", "HEAD"], .empty) ∉ files := by
  obtain ⟨files, ⟨after, hpacked, -⟩, hfiles, -, -⟩ :=
    packTree_lists_files packable_plainScaffold
  refine ⟨files, after, hpacked, (hfiles _ _).mpr ⟨by decide +kernel, by decide⟩, fun hmem => ?_⟩
  exact absurd ((hfiles _ _).mp hmem).2 (by decide)

end Archive

end Siteworks
