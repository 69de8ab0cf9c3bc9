import Mathlib
import Siteworks.Layout.Basic

/-!
# Blocks that are found again

A list of blocks is parsed if it is what its own lines are parsed to. What each block needs for that
is local, but for one thing: a line that begins a call is a plain line only as long as no line
behind it ends the call. So lists of parsed blocks can be put one behind the other if the calls of
the first one are closed.
-/

namespace Siteworks.Layout

/-- Every call that one of the lines begins is ended by a line behind it. -/
def closesCalls : List (List Char) → Bool
  | [] => true
  | line :: rest => ((factoryBinding? line).isNone || rest.any closesCall) && closesCalls rest

/-- The lines of a call: the first one begins it, and the last one is the first that ends it. -/
structure IsCall (line binding : List Char) (body : List (List Char)) (close : List Char) :
    Prop where
  /-- The first line is not an import that is told apart. -/
  not_import : importBlock? line = none
  /-- The first line binds a constant. -/
  binds : factoryBinding? line = some binding
  /-- No line in between ends the call. -/
  inside : ∀ other ∈ body, closesCall other = false
  /-- The last line ends it. -/
  closes : closesCall close = true

/-- The blocks are what their lines are parsed to. -/
inductive Parsed : List Block → Prop
  /-- No lines make no block. -/
  | nil : Parsed []
  /-- An import that is told apart is a block of its own. -/
  | importLine {line : List Char} {block : Block} {rest : List Block} :
    importBlock? line = some block → Parsed rest → Parsed (block :: rest)
  /-- A line is plain if it is no import and begins no call that is ended. -/
  | plain {line : List Char} {rest : List Block} : importBlock? line = none →
    factory? line (rest.flatMap Block.lines) = none → Parsed rest → Parsed (.plain line :: rest)
  /-- A call that configures a font is a block of its own. -/
  | font {line binding close : List Char} {body : List (List Char)} {rest : List Block} :
    IsCall line binding body close → configuresFont (line :: (body ++ [close])) = true →
      Parsed rest → Parsed (.fontFactory binding (line :: (body ++ [close])) :: rest)
  /-- Any other call is carried along line by line. -/
  | call {line binding close : List Char} {body : List (List Char)} {rest : List Block} :
    IsCall line binding body close → configuresFont (line :: (body ++ [close])) = false →
      Parsed rest → Parsed ((line :: (body ++ [close])).map .plain ++ rest)

variable {line binding close : List Char} {body rest : List (List Char)} {count : Nat}
  {blocks others : List Block}

/-- Plain lines have their lines. -/
@[simp]
theorem flatMap_lines_map_plain (lines : List (List Char)) :
    (lines.map Block.plain).flatMap Block.lines = lines := by
  induction lines with
  | nil => rfl
  | cons line lines ih => simpa [Block.lines] using ih

/-- An import that is told apart imports types or fonts. -/
theorem eq_of_importBlock? {block : Block} (h : importBlock? line = some block) :
    block = .typeImport line ∨ block = .fontImport line := by
  simp only [importBlock?] at h
  split at h
  · cases h; exact Or.inl rfl
  · split at h
    · cases h; exact Or.inr rfl
    · cases h

/-- A line begins no call that is ended if it begins none, or if none is ended behind it. -/
theorem factory?_eq_none_iff :
    factory? line rest = none ↔ factoryBinding? line = none ∨ rest.any closesCall = false := by
  unfold factory?
  cases factoryBinding? line with
  | none => simp
  | some binding =>
    cases hindex : rest.findIdx? closesCall with
    | none => simpa using hindex
    | some index =>
      have hclose : rest.any closesCall = true := by
        obtain ⟨hlt, hclose, -⟩ := List.findIdx?_eq_some_iff_getElem.mp hindex
        exact List.any_eq_true.mpr ⟨_, List.getElem_mem hlt, hclose⟩
      simp [hclose]

/-- A call goes up to the first line that ends it. -/
theorem factory?_eq_some_iff : factory? line rest = some (binding, count) ↔
    factoryBinding? line = some binding ∧ ∃ body close follow, rest = body ++ close :: follow ∧
      count = body.length + 1 ∧ (∀ other ∈ body, closesCall other = false) ∧
        closesCall close = true := by
  unfold factory?
  constructor
  · intro found
    split at found
    · cases found
    next hbinding =>
      split at found
      · cases found
      next index hindex =>
        cases found
        obtain ⟨hlt, hclose, hbefore⟩ := List.findIdx?_eq_some_iff_getElem.mp hindex
        refine ⟨hbinding, rest.take index, rest[index], rest.drop (index + 1), ?_, ?_, ?_, hclose⟩
        · rw [List.getElem_cons_drop, List.take_append_drop]
        · rw [List.length_take, Nat.min_eq_left hlt.le]
        · intro other hother
          obtain ⟨i, hi, rfl⟩ := List.mem_take_iff_getElem.mp hother
          simpa using hbefore i (by omega)
  · rintro ⟨hbinding, body, close, follow, rfl, rfl, hinside, hclose⟩
    have hindex : (body ++ close :: follow).findIdx? closesCall = some body.length := by
      rw [List.findIdx?_append, List.findIdx?_eq_none_iff.mpr hinside, Option.none_or,
        List.findIdx?_cons, hclose]
      simp
    rw [hbinding]
    simp only [hindex]

/-- The lines up to the one that ends a call. -/
theorem take_append_cons (body : List (List Char)) (close : List Char)
    (follow : List (List Char)) :
    (body ++ close :: follow).take (body.length + 1) = body ++ [close] := by
  rw [List.append_cons, List.take_left' (by simp)]

/-- Lines that belong to the block before are passed over. -/
theorem blocksFrom_length_append (skipped rest : List (List Char)) :
    blocksFrom skipped.length (skipped ++ rest) = blocksFrom 0 rest := by
  induction skipped with
  | nil => rfl
  | cons line skipped ih => exact ih

/-- What lines are parsed to is parsed. -/
theorem parsed_blocksFrom (pending : Nat) (lines : List (List Char)) :
    Parsed (blocksFrom pending lines) := by
  fun_induction blocksFrom pending lines with
  | case1 => exact .nil
  | case2 pending line rest ih => exact ih
  | case3 line rest block found ih => exact .importLine found ih
  | case4 line rest found none ih =>
    refine .plain found ?_ ih
    rwa [flatMap_lines_blocksFrom]
  | case5 line rest found binding count factory lines configures ih =>
    obtain ⟨hbinds, body, close, follow, rfl, rfl, hinside, hcloses⟩ :=
      factory?_eq_some_iff.mp factory
    have hlines : lines = line :: (body ++ [close]) :=
      congrArg (line :: ·) (take_append_cons body close follow)
    rw [hlines] at configures ⊢
    exact .font ⟨found, hbinds, hinside, hcloses⟩ configures ih
  | case6 line rest found binding count factory lines configures ih =>
    obtain ⟨hbinds, body, close, follow, rfl, rfl, hinside, hcloses⟩ :=
      factory?_eq_some_iff.mp factory
    have hlines : lines = line :: (body ++ [close]) :=
      congrArg (line :: ·) (take_append_cons body close follow)
    rw [hlines] at configures ⊢
    exact .call ⟨found, hbinds, hinside, hcloses⟩ (by simpa using configures) ih

/-- The lines of a call are the lines up to where the call is ended. -/
theorem IsCall.factory?_eq (h : IsCall line binding body close) (follow : List (List Char)) :
    factory? line (body ++ close :: follow) = some (binding, body.length + 1) :=
  factory?_eq_some_iff.mpr ⟨h.binds, body, close, follow, rfl, rfl, h.inside, h.closes⟩

/-- Parsed blocks are found in their lines. -/
theorem Parsed.blocksFrom_eq (h : Parsed blocks) :
    blocksFrom 0 (blocks.flatMap Block.lines) = blocks := by
  have hcut : ∀ (line close : List Char) (body rest : List (List Char)),
      line :: (body ++ [close]) ++ rest = line :: (body ++ close :: rest) := by simp
  have hskip : ∀ (close : List Char) (body rest : List (List Char)),
      blocksFrom (body.length + 1) (body ++ close :: rest) = blocksFrom 0 rest := by
    intro close body rest
    simpa using blocksFrom_length_append (body ++ [close]) rest
  induction h with
  | nil => rfl
  | importLine found hrest ih =>
    rw [List.flatMap_cons, lines_of_importBlock? found, List.singleton_append, blocksFrom]
    simp only [found, ih]
  | @plain line rest found none hrest ih =>
    rw [List.flatMap_cons, Block.lines, List.singleton_append, blocksFrom]
    simp only [found, none, ih]
  | @font line binding close body rest hcall configures hrest ih =>
    rw [List.flatMap_cons, Block.lines, hcut, blocksFrom]
    simp only [hcall.not_import, hcall.factory?_eq, take_append_cons, configures, if_true, hskip, ih]
  | @call line binding close body rest hcall configures hrest ih =>
    rw [List.flatMap_append, flatMap_lines_map_plain, hcut, blocksFrom]
    simp only [hcall.not_import, hcall.factory?_eq, take_append_cons, configures, hskip, ih]
    rfl

/-! ## Closed calls -/

/-- Lines that end no call close none. -/
theorem closesCalls_append_of_not_closes (hbinds : factoryBinding? line = some binding)
    (hrest : rest.any closesCall = false) : closesCalls (line :: rest) = false := by
  simp [closesCalls, hbinds, hrest]

/-- Behind a call that is closed the calls are closed as before. -/
theorem closesCalls_of_append {before : List (List Char)} (h : closesCalls (before ++ rest) = true) :
    closesCalls rest = true := by
  induction before with
  | nil => exact h
  | cons line before ih => exact ih (Bool.and_eq_true _ _ ▸ h).2

/-- Parsed blocks behind parsed blocks whose calls are closed are parsed. -/
theorem Parsed.append (h : Parsed blocks) (hclosed : closesCalls (blocks.flatMap Block.lines) = true)
    (hothers : Parsed others) : Parsed (blocks ++ others) := by
  induction h with
  | nil => exact hothers
  | @importLine line block rest found hrest ih =>
    rw [List.flatMap_cons] at hclosed
    exact .importLine found (ih (closesCalls_of_append hclosed))
  | @plain line rest found none hrest ih =>
    rw [List.flatMap_cons, Block.lines] at hclosed
    refine .plain found ?_ (ih (closesCalls_of_append hclosed))
    rw [factory?_eq_none_iff] at none ⊢
    refine Or.inl (none.elim id fun hnot => ?_)
    rw [List.singleton_append, closesCalls, hnot] at hclosed
    simp at hclosed
    exact hclosed.1
  | font hcall configures hrest ih =>
    rw [List.flatMap_cons] at hclosed
    exact .font hcall configures (ih (closesCalls_of_append hclosed))
  | call hcall configures hrest ih =>
    rw [List.flatMap_append] at hclosed
    rw [List.append_assoc]
    exact .call hcall configures (ih (closesCalls_of_append hclosed))

/-- A call cut short is not closed. -/
theorem IsCall.closesCalls_eq_false (h : IsCall line binding body close)
    {cut after : List (List Char)} (hafter : after ≠ []) (hcut : cut ≠ [])
    (hlines : line :: (body ++ [close]) = cut ++ after) : closesCalls cut = false := by
  obtain ⟨first, part, rfl⟩ := List.exists_cons_of_ne_nil hcut
  obtain ⟨rfl, hpart⟩ := List.cons.inj hlines
  refine closesCalls_append_of_not_closes h.binds ?_
  have hsub : ∀ other ∈ part, other ∈ body := by
    rcases List.append_eq_append_iff.mp hpart with ⟨between, rfl, hlast⟩ | ⟨between, rfl, -⟩
    · cases between with
      | nil => simp
      | cons other between =>
        rw [List.cons_append] at hlast
        have hnil := (List.append_eq_nil_iff.mp (List.cons.inj hlast).2.symm).2
        exact absurd hnil hafter
    · exact fun other hother => List.mem_append_left _ hother
  rw [← Bool.not_eq_true, List.any_eq_true]
  rintro ⟨other, hother, hclose⟩
  exact absurd (h.inside other (hsub other hother)) (by simp [hclose])

/-- If the calls of the first of two lists of blocks are closed, the lists are parsed if they are
so together. -/
theorem Parsed.of_append (h : Parsed (blocks ++ others))
    (hclosed : closesCalls (blocks.flatMap Block.lines) = true) : Parsed blocks ∧ Parsed others := by
  generalize hall : blocks ++ others = all at h
  induction h generalizing blocks with
  | nil =>
    obtain ⟨rfl, rfl⟩ := List.append_eq_nil_iff.mp hall
    exact ⟨.nil, .nil⟩
  | @importLine line block rest found hrest ih =>
    cases blocks with
    | nil =>
      obtain rfl : others = block :: rest := hall
      exact ⟨.nil, .importLine found hrest⟩
    | cons first blocks =>
      obtain ⟨rfl, htail⟩ := List.cons.inj hall
      rw [List.flatMap_cons] at hclosed
      obtain ⟨hblocks, hothers⟩ := ih (closesCalls_of_append hclosed) htail
      exact ⟨.importLine found hblocks, hothers⟩
  | @plain line rest found none hrest ih =>
    cases blocks with
    | nil =>
      obtain rfl : others = .plain line :: rest := hall
      exact ⟨.nil, .plain found none hrest⟩
    | cons first blocks =>
      obtain ⟨rfl, htail⟩ := List.cons.inj hall
      rw [List.flatMap_cons] at hclosed
      obtain ⟨hblocks, hothers⟩ := ih (closesCalls_of_append hclosed) htail
      refine ⟨.plain found ?_ hblocks, hothers⟩
      rw [factory?_eq_none_iff, ← htail, List.append_eq, List.flatMap_append, List.any_append,
        Bool.or_eq_false_iff] at none
      exact factory?_eq_none_iff.mpr (none.imp_right And.left)
  | @font line binding close body rest hcall configures hrest ih =>
    cases blocks with
    | nil =>
      obtain rfl : others = .fontFactory binding (line :: (body ++ [close])) :: rest := hall
      exact ⟨.nil, .font hcall configures hrest⟩
    | cons first blocks =>
      obtain ⟨rfl, htail⟩ := List.cons.inj hall
      rw [List.flatMap_cons] at hclosed
      obtain ⟨hblocks, hothers⟩ := ih (closesCalls_of_append hclosed) htail
      exact ⟨.font hcall configures hblocks, hothers⟩
  | @call line binding close body rest hcall configures hrest ih =>
    have hwhole := Parsed.call hcall configures hrest
    rcases List.append_eq_append_iff.mp hall with ⟨after, hchunk, hothers⟩ | ⟨after, rfl, rfl⟩
    · -- the first list ends inside the call, so it is empty or ends with the call
      have hlines : line :: (body ++ [close]) =
          blocks.flatMap Block.lines ++ after.flatMap Block.lines := by
        rw [← List.flatMap_append, ← hchunk, flatMap_lines_map_plain]
      have hlined : ∀ part : List Block, (∀ block ∈ part, block ∈ blocks ++ after) → part ≠ [] →
          part.flatMap Block.lines ≠ [] := by
        intro part hpart hne hnil
        obtain ⟨block, part, rfl⟩ := List.exists_cons_of_ne_nil hne
        have hmem := hpart block List.mem_cons_self
        rw [← hchunk, List.mem_map] at hmem
        obtain ⟨other, -, rfl⟩ := hmem
        cases hnil
      by_cases hblocks : blocks = []
      · subst hblocks
        obtain rfl : others = _ := hall
        exact ⟨.nil, hwhole⟩
      by_cases hafter : after = []
      · subst hafter
        rw [List.append_nil] at hchunk
        rw [List.nil_append] at hothers
        subst hchunk hothers
        exact ⟨by simpa using Parsed.call hcall configures .nil, hrest⟩
      · have hopen := hcall.closesCalls_eq_false
          (hlined after (fun _ h => List.mem_append_right _ h) hafter)
          (hlined blocks (fun _ h => List.mem_append_left _ h) hblocks) hlines
        exact absurd (hclosed.symm.trans hopen) (by decide)
    · rw [List.flatMap_append] at hclosed
      obtain ⟨hblocks, hothers⟩ := ih (closesCalls_of_append hclosed) rfl
      exact ⟨.call hcall configures hblocks, hothers⟩

end Siteworks.Layout
