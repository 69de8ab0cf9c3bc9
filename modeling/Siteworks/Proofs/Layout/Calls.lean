import Mathlib
import Siteworks.Proofs.Layout.Dressing

/-!
# The calls that lines begin

A call goes up to the first line that ends one, whatever begins in between. So a call that is left
open reaches into the declaration of a font below it, and the two are read as one declaration. Exactly
if no call begins inside another one that configures a font, the declarations of fonts begin one call
each, and taking them out takes out no other.
-/

namespace Siteworks.Layout

variable {line binding close : List Char} {body : List (List Char)} {blocks others : List Block}

/-! ## Counting calls -/

/-- The number of lines that begin calls. -/
def calls (lines : List (List Char)) : ℕ := lines.countP fun line => (factoryBinding? line).isSome

/-- No lines begin no call. -/
theorem calls_nil : calls [] = 0 := rfl

/-- A line counts if it begins a call. -/
theorem calls_cons (line : List Char) (lines : List (List Char)) :
    calls (line :: lines) = calls lines + if (factoryBinding? line).isSome then 1 else 0 :=
  List.countP_cons

/-- The calls of two lists of lines are added up. -/
theorem calls_append (lines others : List (List Char)) :
    calls (lines ++ others) = calls lines + calls others :=
  List.countP_append

/-- A part of the lines begins no more calls. -/
theorem calls_le_of_sublist {lines others : List (List Char)} (h : lines.Sublist others) :
    calls lines ≤ calls others :=
  h.countP_le

/-- The order of blocks does not matter for the number of calls. -/
theorem calls_of_perm (h : blocks.Perm others) :
    calls (blocks.flatMap Block.lines) = calls (others.flatMap Block.lines) :=
  (h.flatMap_right Block.lines).countP_eq _

/-! ## Open calls -/

/-- Among lines with an open call, some line begins one before which all calls are closed. -/
theorem exists_open_call {lines : List (List Char)} (h : closesCalls lines = false) :
    ∃ before line after, lines = before ++ line :: after ∧ closesCalls before = true ∧
      (factoryBinding? line).isSome = true ∧ after.any closesCall = false := by
  induction lines with
  | nil => cases h
  | cons first rest ih =>
    cases hrest : closesCalls rest with
    | true =>
      rw [closesCalls, hrest, Bool.and_true, Bool.or_eq_false_iff] at h
      exact ⟨[], first, rest, rfl, rfl, by simpa [Option.isSome_iff_ne_none] using h.1, h.2⟩
    | false =>
      obtain ⟨before, line, after, rfl, hclosed, hbegins, hopen⟩ := ih hrest
      by_cases hfirst : (factoryBinding? first).isNone = true ∨ before.any closesCall = true
      · refine ⟨first :: before, line, after, rfl, ?_, hbegins, hopen⟩
        rw [closesCalls, hclosed, Bool.and_true, Bool.or_eq_true]
        exact hfirst
      · -- the call of the first line is open as well
        rw [not_or, Bool.not_eq_true, Bool.not_eq_true] at hfirst
        refine ⟨[], first, before ++ line :: after, rfl, rfl, ?_, ?_⟩
        · simpa [Option.isSome_iff_ne_none] using hfirst.1
        · obtain ⟨binding, hbinding⟩ := Option.isSome_iff_exists.mp hbegins
          have hline := closesCall_of_factoryBinding? hbinding
          rw [List.any_append, List.any_cons, hfirst.2, hline, hopen]
          rfl

/-- Behind lines whose calls are closed the blocks are those of the lines behind. -/
theorem blocksFrom_append {before : List (List Char)} (h : closesCalls before = true)
    (after : List (List Char)) :
    blocksFrom 0 (before ++ after) = blocksFrom 0 before ++ blocksFrom 0 after := by
  have hbefore : (blocksFrom 0 before).flatMap Block.lines = before := by
    simpa using flatMap_lines_blocksFrom 0 before
  have hafter : (blocksFrom 0 after).flatMap Block.lines = after := by
    simpa using flatMap_lines_blocksFrom 0 after
  have hparsed := (parsed_blocksFrom 0 before).append (by rw [hbefore, h])
    (parsed_blocksFrom 0 after)
  have hfound := hparsed.blocksFrom_eq
  rwa [List.flatMap_append, hbefore, hafter] at hfound

/-- Lines configure a font if some of them do. -/
theorem configuresFont_of_subset {lines others : List (List Char)} (hsub : ∀ line ∈ lines, line ∈ others)
    (h : configuresFont lines = true) : configuresFont others = true := by
  have hany : ∀ p : List Char → Bool, lines.any p = true → others.any p = true := by
    intro p hp
    obtain ⟨line, hline, hholds⟩ := List.any_eq_true.mp hp
    exact List.any_eq_true.mpr ⟨line, hsub line hline, hholds⟩
  rw [configuresFont, Bool.and_eq_true] at h ⊢
  exact ⟨hany _ h.1, hany _ h.2⟩

/-- A declaration below an open call is read as the end of that call. -/
theorem exists_fontFactory_of_open {before : List (List Char)} (rest : List (List Char))
    {line binding close : List Char} {body : List (List Char)} (hopen : closesCalls before = false)
    (hcall : IsCall line binding body close)
    (hconfigures : configuresFont (line :: (body ++ [close])) = true) :
    ∃ block ∈ blocksFrom 0 (before ++ (line :: (body ++ [close])) ++ rest),
      block.isFontFactory = true ∧ 2 ≤ calls block.lines := by
  obtain ⟨closed, first, gap, rfl, hclosed, hfirst, hgap⟩ := exists_open_call hopen
  obtain ⟨name, hname⟩ := Option.isSome_iff_exists.mp hfirst
  have hlong : IsCall first name (gap ++ line :: body) close := by
    refine ⟨?_, hname, ?_, hcall.closes⟩
    · rw [Option.eq_none_iff_forall_ne_some]
      intro block hblock
      rw [factoryBinding?_of_importBlock? hblock] at hname
      cases hname
    · intro other hother
      rcases List.mem_append.mp hother with hother | hother
      · simpa using List.any_eq_false.mp hgap other hother
      · rcases List.mem_cons.mp hother with rfl | hother
        · exact closesCall_of_factoryBinding? hcall.binds
        · exact hcall.inside other hother
  have hfont : configuresFont (first :: ((gap ++ line :: body) ++ [close])) = true := by
    refine configuresFont_of_subset (fun other hother => ?_) hconfigures
    rw [List.append_assoc, List.cons_append]
    exact List.mem_cons_of_mem _ (List.mem_append_right _ hother)
  have hlines : closed ++ first :: gap ++ (line :: (body ++ [close])) ++ rest =
      closed ++ first :: ((gap ++ line :: body) ++ close :: rest) := by simp
  refine ⟨.fontFactory name (first :: ((gap ++ line :: body) ++ [close])), ?_, rfl, ?_⟩
  · rw [hlines, blocksFrom_append hclosed, blocksFrom]
    simp only [hlong.not_import, hlong.factory?_eq, take_append_cons, hfont, if_true]
    simp
  · have hline : (factoryBinding? line).isSome = true := by rw [hcall.binds]; rfl
    have hpositive : 0 < calls ((gap ++ line :: body) ++ [close]) :=
      List.countP_pos_iff.mpr ⟨line, by simp, hline⟩
    rw [Block.lines, calls_cons, if_pos hfirst]
    omega

/-- Taking the fonts out takes out the calls of a declaration. -/
theorem calls_fontless_add_le {block : Block} (hblock : block ∈ blocks)
    (hfactory : block.isFontFactory = true) :
    calls ((fontless blocks).flatMap Block.lines) + calls block.lines ≤
      calls (blocks.flatMap Block.lines) := by
  have hkept : (fontless blocks).Sublist (blocks.filter fun block => !block.isFontFactory) := by
    have hself : (fontless blocks).filter (fun block => !block.isFontFactory) = fontless blocks :=
      List.filter_eq_self.mpr fun other hother => by
        rw [(fontless_fontless blocks other hother).2]
        rfl
    rw [← hself]
    exact (fontless_sublist blocks).filter _
  have htaken : [block].Sublist (blocks.filter Block.isFontFactory) :=
    List.singleton_sublist.mpr (List.mem_filter.mpr ⟨hblock, hfactory⟩)
  have hall := calls_of_perm (List.filter_append_perm Block.isFontFactory blocks)
  have hleft := calls_le_of_sublist (hkept.flatMap Block.lines)
  have hright := calls_le_of_sublist (htaken.flatMap Block.lines)
  rw [List.flatMap_append, calls_append] at hall
  rw [List.flatMap_singleton] at hright
  omega

/-- Lines with the same roles begin as many calls. -/
theorem calls_eq {lines others : List (List Char)} (h : List.Forall₂ SameRole lines others) :
    calls others = calls lines := by
  induction h with
  | nil => rfl
  | cons hrole _ ih => rw [calls_cons, calls_cons, hrole.binding, ih]

/-! ## Calls inside calls -/

/-- The first of the lines begins a call, and no other line does. -/
def beginsOnce : List (List Char) → Bool
  | [] => false
  | line :: rest =>
    (factoryBinding? line).isSome && rest.all fun other => (factoryBinding? other).isNone

/-- No call begins inside a call that configures a font. -/
def CallsApart (lines : List (List Char)) : Prop :=
  ∀ before line binding body close after, lines = before ++ line :: (body ++ close :: after) →
    IsCall line binding body close → configuresFont (line :: (body ++ [close])) = true →
      ∀ other ∈ body, factoryBinding? other = none

/-- A declaration of a font among parsed blocks is a call that configures one. -/
theorem Parsed.exists_isCall (h : Parsed blocks) {block : Block} (hblock : block ∈ blocks)
    (hfactory : block.isFontFactory = true) : ∃ line binding body close,
      block = .fontFactory binding (line :: (body ++ [close])) ∧ IsCall line binding body close ∧
        configuresFont (line :: (body ++ [close])) = true := by
  induction h with
  | nil => cases hblock
  | importLine found _ ih =>
    rcases List.mem_cons.mp hblock with rfl | hblock
    · rcases eq_of_importBlock? found with rfl | rfl <;> cases hfactory
    · exact ih hblock
  | plain _ _ _ ih =>
    rcases List.mem_cons.mp hblock with rfl | hblock
    · cases hfactory
    · exact ih hblock
  | font hcall configures _ ih =>
    rcases List.mem_cons.mp hblock with rfl | hblock
    · exact ⟨_, _, _, _, rfl, hcall, configures⟩
    · exact ih hblock
  | call _ _ _ ih =>
    rcases List.mem_append.mp hblock with hblock | hblock
    · obtain ⟨other, -, rfl⟩ := List.mem_map.mp hblock
      cases hfactory
    · exact ih hblock

/-- A call counts itself and the calls that begin inside it. -/
theorem IsCall.calls_eq (h : IsCall line binding body close) :
    calls (line :: (body ++ [close])) = calls body + 1 := by
  have hclose : factoryBinding? close = none := by
    rw [Option.eq_none_iff_forall_ne_some]
    intro name hname
    have hopen := closesCall_of_factoryBinding? hname
    rw [h.closes] at hopen
    cases hopen
  rw [calls_cons, calls_append, calls_cons, h.binds, hclose]
  rfl

/-- No call begins on lines that count none. -/
theorem calls_eq_zero_iff {lines : List (List Char)} :
    calls lines = 0 ↔ ∀ other ∈ lines, factoryBinding? other = none := by
  simp [calls, List.countP_eq_zero]

/-- A call is the only one on its lines exactly if none begins inside it. -/
theorem IsCall.beginsOnce_iff (h : IsCall line binding body close) :
    beginsOnce (line :: (body ++ [close])) = true ↔ calls (line :: (body ++ [close])) = 1 := by
  have hcalls := h.calls_eq
  rw [calls_cons, h.binds] at hcalls
  have hrest : calls (body ++ [close]) = calls body := by simpa using hcalls
  rw [h.calls_eq, ← hrest, beginsOnce, h.binds]
  simp only [Nat.add_eq_right, calls_eq_zero_iff, Option.isSome_some, Bool.true_and, List.all_eq_true,
    Option.isNone_iff_eq_none]

/-- The declarations of fonts begin one call each exactly if no call begins inside a call that
configures a font. -/
theorem forall_calls_eq_one_iff (lines : List (List Char)) :
    (∀ block ∈ blocksFrom 0 lines, block.isFontFactory = true → calls block.lines = 1) ↔
      CallsApart lines := by
  constructor
  · intro hsingle before line binding body close after hlines hcall hconfigures
    subst hlines
    have hcut : before ++ line :: (body ++ close :: after) =
        before ++ (line :: (body ++ [close])) ++ after := by simp
    rw [hcut] at hsingle
    cases hbefore : closesCalls before with
    | false =>
      -- the call is read as the end of one that is open above it
      obtain ⟨block, hblock, hfactory, htwo⟩ :=
        exists_fontFactory_of_open after hbefore hcall hconfigures
      have hone := hsingle block hblock hfactory
      omega
    | true =>
      have hmem : .fontFactory binding (line :: (body ++ [close])) ∈
          blocksFrom 0 (before ++ (line :: (body ++ [close])) ++ after) := by
        rw [← hcut, blocksFrom_append hbefore, blocksFrom]
        simp only [hcall.not_import, hcall.factory?_eq, take_append_cons, hconfigures, if_true]
        simp
      have hone : calls (line :: (body ++ [close])) = 1 := hsingle _ hmem rfl
      rw [hcall.calls_eq] at hone
      exact calls_eq_zero_iff.mp (Nat.succ.inj hone)
  · intro hapart block hblock hfactory
    have hparsed := parsed_blocksFrom 0 lines
    have hlines := flatMap_lines_blocksFrom 0 lines
    obtain ⟨line, binding, body, close, rfl, hcall, hconfigures⟩ :=
      hparsed.exists_isCall hblock hfactory
    obtain ⟨front, back, hcut⟩ := List.append_of_mem hblock
    rw [hcut, List.flatMap_append, List.flatMap_cons, Block.lines, List.drop_zero] at hlines
    have hinside := hapart (front.flatMap Block.lines) line binding body close
      (back.flatMap Block.lines) (by rw [← hlines]; simp) hcall hconfigures
    rw [Block.lines, hcall.calls_eq, calls_eq_zero_iff.mpr hinside]

/-! ## Calls that are taken out -/

/-- A blank line begins no call. -/
theorem calls_of_isPlain_allBlank {block : Block} (h : block.isPlain Text.allBlank = true) :
    calls block.lines = 0 := by
  cases block with
  | plain line =>
    rw [Block.lines, calls_eq_zero_iff, List.forall_mem_singleton,
      Option.eq_none_iff_forall_ne_some]
    intro name hname
    have hvisible := allBlank_of_factoryBinding? hname
    rw [show Text.allBlank line = true from h] at hvisible
    cases hvisible
  | typeImport line => cases h
  | fontImport line => cases h
  | fontFactory binding lines => cases h

/-- Taking out the declarations of fonts takes out one call for each exactly if they begin one call
each, and more otherwise. -/
theorem calls_withoutFactories (afterFactory : Bool)
    (hcalls : ∀ block ∈ blocks, block.isFontFactory = true → 1 ≤ calls block.lines) :
    calls ((withoutFactories afterFactory blocks).flatMap Block.lines) +
        blocks.countP Block.isFontFactory ≤ calls (blocks.flatMap Block.lines) ∧
      (calls ((withoutFactories afterFactory blocks).flatMap Block.lines) +
          blocks.countP Block.isFontFactory = calls (blocks.flatMap Block.lines) ↔
        ∀ block ∈ blocks, block.isFontFactory = true → calls block.lines = 1) := by
  fun_induction withoutFactories afterFactory blocks with
  | case1 => simp [calls_nil]
  | case2 afterFactory block rest hfactory ih =>
    obtain ⟨hle, hiff⟩ := ih fun other hother => hcalls other (List.mem_cons_of_mem _ hother)
    have hone := hcalls block List.mem_cons_self hfactory
    rw [List.countP_cons_of_pos hfactory, List.flatMap_cons, calls_append, List.forall_mem_cons,
      ← hiff]
    simp only [hfactory, forall_const]
    omega
  | case3 afterFactory block rest hfactory hblank ih =>
    obtain ⟨hle, hiff⟩ := ih fun other hother => hcalls other (List.mem_cons_of_mem _ hother)
    have hnone := calls_of_isPlain_allBlank (Bool.and_eq_true _ _ ▸ hblank).2
    rw [List.countP_cons_of_neg hfactory, List.flatMap_cons, calls_append, List.forall_mem_cons,
      ← hiff, hnone]
    simp only [hfactory, Bool.false_eq_true, false_implies, true_and, Nat.zero_add, and_true]
    exact hle
  | case4 afterFactory block rest hfactory hblank ih =>
    obtain ⟨hle, hiff⟩ := ih fun other hother => hcalls other (List.mem_cons_of_mem _ hother)
    rw [List.countP_cons_of_neg hfactory, List.flatMap_cons, List.flatMap_cons, calls_append,
      calls_append, List.forall_mem_cons, ← hiff]
    simp only [hfactory, Bool.false_eq_true, false_implies, true_and]
    omega

/-- The first line of each declaration of a font is the only one that begins a call exactly if no call
begins inside a call that configures a font. Exactly then taking the declarations out takes out no
call but those that they begin with. -/
theorem fontFactories_beginOnce_iff (text : List Char) :
    ((∀ block ∈ (parse text).blocks, block.isFontFactory = true → beginsOnce block.lines = true) ↔
        CallsApart (linesOf text)) ∧
      (calls (parse text).removeFontFactories.lines +
          (parse text).blocks.countP Block.isFontFactory = calls (linesOf text) ↔
        CallsApart (linesOf text)) := by
  have honce : ∀ block ∈ (parse text).blocks, block.isFontFactory = true →
      1 ≤ calls block.lines ∧ (beginsOnce block.lines = true ↔ calls block.lines = 1) := by
    intro block hblock hfactory
    obtain ⟨line, binding, body, close, rfl, hcall, -⟩ :=
      (parsed_blocksFrom 0 (linesOf text)).exists_isCall hblock hfactory
    rw [Block.lines, hcall.beginsOnce_iff, hcall.calls_eq]
    exact ⟨Nat.le_add_left 1 _, .rfl⟩
  have hapart : (∀ block ∈ (parse text).blocks, block.isFontFactory = true →
      calls block.lines = 1) ↔ CallsApart (linesOf text) := forall_calls_eq_one_iff (linesOf text)
  have htaken := (calls_withoutFactories false fun block hblock hfactory =>
    (honce block hblock hfactory).1).2
  rw [← Layout.lines, lines_parse] at htaken
  refine ⟨?_, htaken.trans hapart⟩
  rw [← hapart]
  exact forall₃_congr fun block hblock hfactory => (honce block hblock hfactory).2

/-- A call whose end has no semicolon takes the declaration of a font below it in. -/
theorem exists_fontFactory_not_beginsOnce :
    ¬ ∀ text : List Char, ∀ block ∈ (parse text).blocks, block.isFontFactory = true →
      beginsOnce block.lines = true := by
  intro hall
  have honce := hall (["const config = makeConfig(\x7b", "  retries: 3,", "\x7d)", "",
    "const geist = Geist(\x7b", "  variable: \"--font-geist\",", "  subsets: [\"latin\"],",
    "\x7d);"].flatMap fun line => line.toList ++ ['\n'])
  simp only [List.flatMap_cons, List.flatMap_nil] at honce
  repeat rw [String.toList_ofList] at honce
  exact absurd honce (by decide +kernel)

end Siteworks.Layout
