import Mathlib
import Siteworks.Proofs.Layout.Roles

/-!
# Naming a font in the body element

The class attribute of the body element is found in two steps: the line that opens the element, and
from there on the first class attribute. Blocks without class attributes that are put in elsewhere do
not change which attribute that is, and naming one font after another has the effect of naming the
other one alone, unless an old class holds a backquote.
-/

namespace Siteworks.Layout

variable {binding next : List Char} {block other : Block} {blocks others new : List Block}

/-- The first class attribute of a block. -/
def attribute? (block : Block) : Option (List Char × List Char × List Char) :=
  block.line?.bind classAttribute?

/-- Name a font in the first class attribute. -/
def restyle (binding : List Char) : List Block → Except GenerationError (List Block)
  | [] => lacks .noClassAttribute
  | block :: rest =>
    match attribute? block with
    | none => (restyle binding rest).map (block :: ·)
    | some (before, value, follow) =>
      match block with
      | .plain _ =>
        .ok (.plain (before ++ classAttribute (rootClasses binding value) ++ follow) :: rest)
      | _ => lacks .classAttributeOnImport

/-- Name a font in the first class attribute from the body element on. -/
def restyleBody (binding : List Char) : List Block → Except GenerationError (List Block)
  | [] => lacks .noBody
  | block :: rest =>
    if block.isPlain opensBody then restyle binding (block :: rest)
    else (restyleBody binding rest).map (block :: ·)

/-- The value of the first class attribute from the body element on. -/
def bodyClasses? (blocks : List Block) : Option (List Char) :=
  ((blocks.dropWhile fun block => !block.isPlain opensBody).findSome? attribute?).map fun found =>
    found.2.1

/-- The first class attribute is found by its block. -/
theorem restyle_eq (binding : List Char) (blocks : List Block) : restyle binding blocks =
    match blocks.findIdx? fun block => (attribute? block).isSome with
    | none => lacks .noClassAttribute
    | some offset =>
      match blocks.drop offset with
      | .plain line :: rest =>
        match classAttribute? line with
        | none => lacks .noClassAttribute
        | some (before, value, follow) =>
          .ok (blocks.take offset ++
            .plain (before ++ classAttribute (rootClasses binding value) ++ follow) :: rest)
      | _ => lacks .classAttributeOnImport := by
  induction blocks with
  | nil => rfl
  | cons block rest ih =>
    rw [restyle, List.findIdx?_cons]
    cases hfound : attribute? block with
    | some found =>
      obtain ⟨before, value, follow⟩ := found
      cases block with
      | plain line =>
        have hline : classAttribute? line = some (before, value, follow) := hfound
        simp [hline]
      | typeImport line => simp
      | fontImport line => simp
      | fontFactory binding lines => simp
    | none =>
      simp only [ih, Option.isSome_none, Bool.false_eq_true, if_false]
      cases rest.findIdx? fun block => (attribute? block).isSome with
      | none => rfl
      | some offset =>
        simp only [Option.map_some, List.drop_succ_cons, List.take_succ_cons]
        rcases rest.drop offset with _ | ⟨_ | _ | _ | line, tail⟩
        · rfl
        · rfl
        · rfl
        · rfl
        · cases hline : classAttribute? line with
          | none => simp only [hline]; rfl
          | some found => simp only [hline]; rfl

/-- Naming a font in a layout is naming it in its blocks. -/
theorem setRootClasses_eq (binding : List Char) (layout : Layout) : layout.setRootClasses binding =
    (restyleBody binding layout.blocks).map fun blocks => { layout with blocks := blocks } := by
  have hbody : ∀ blocks : List Block, restyleBody binding blocks =
      match blocks.findIdx? (Block.isPlain opensBody) with
      | none => lacks .noBody
      | some body => (restyle binding (blocks.drop body)).map (blocks.take body ++ ·) := by
    intro blocks
    induction blocks with
    | nil => rfl
    | cons block rest ih =>
      rw [restyleBody, List.findIdx?_cons]
      cases hblock : block.isPlain opensBody with
      | true =>
        cases hrestyle : restyle binding (block :: rest) <;> simp [hrestyle, Except.map]
      | false =>
        simp only [Bool.false_eq_true, if_false, ih]
        cases rest.findIdx? (Block.isPlain opensBody) with
        | none => rfl
        | some body =>
          simp only [Option.map_some, List.drop_succ_cons, List.take_succ_cons]
          cases restyle binding (rest.drop body) <;> rfl
  rw [hbody, setRootClasses]
  cases layout.blocks.findIdx? (Block.isPlain opensBody) with
  | none => rfl
  | some body =>
    simp only [restyle_eq, attribute?, List.drop_drop]
    cases (layout.blocks.drop body).findIdx? fun block =>
        (block.line?.bind classAttribute?).isSome with
    | none => rfl
    | some offset =>
      simp only
      rcases layout.blocks.drop (body + offset) with _ | ⟨_ | _ | _ | line, tail⟩
      · rfl
      · rfl
      · rfl
      · rfl
      · cases hline : classAttribute? line with
        | none => simp only [hline]; rfl
        | some found =>
          simp only [hline, Except.map, List.take_add, List.append_assoc]

/-! ## Blocks put in -/

/-- Put blocks in at a place. -/
def splice (place : Nat) (new blocks : List Block) : List Block :=
  blocks.take place ++ new ++ blocks.drop place

/-- Blocks without a class attribute and without the body element. -/
structure Neutral (new : List Block) : Prop where
  /-- There is no class attribute. -/
  no_attribute : ∀ block ∈ new, attribute? block = none
  /-- No line opens the body element. -/
  no_body : ∀ block ∈ new, block.isPlain opensBody = false

/-- Blocks without class attributes are passed over. -/
theorem restyle_append (h : Neutral new) :
    restyle binding (new ++ blocks) = (restyle binding blocks).map (new ++ ·) := by
  obtain ⟨hattribute, -⟩ := h
  induction new with
  | nil => cases hblocks : restyle binding blocks <;> simp [hblocks, Except.map]
  | cons block new ih =>
    rw [List.cons_append, restyle, hattribute block List.mem_cons_self]
    simp only [ih fun other hother => hattribute other (List.mem_cons_of_mem _ hother)]
    cases restyle binding blocks <;> rfl

/-- Blocks without the body element are passed over. -/
theorem restyleBody_append (h : Neutral new) :
    restyleBody binding (new ++ blocks) = (restyleBody binding blocks).map (new ++ ·) := by
  obtain ⟨-, hbody⟩ := h
  induction new with
  | nil => cases hblocks : restyleBody binding blocks <;> simp [hblocks, Except.map]
  | cons block new ih =>
    rw [List.cons_append, restyleBody, hbody block List.mem_cons_self]
    simp only [Bool.false_eq_true, if_false,
      ih fun other hother => hbody other (List.mem_cons_of_mem _ hother)]
    cases restyleBody binding blocks <;> rfl

/-- Neutral blocks can be put in before a font is named or after that. -/
theorem restyle_splice (h : Neutral new) (place : Nat) (blocks : List Block) :
    restyle binding (splice place new blocks) = (restyle binding blocks).map (splice place new) := by
  induction blocks generalizing place with
  | nil =>
    rw [splice, List.take_nil, List.drop_nil, List.nil_append, restyle_append h]
    rfl
  | cons block rest ih =>
    cases place with
    | zero =>
      change restyle binding (new ++ block :: rest) = _
      rw [restyle_append h]
      rfl
    | succ place =>
      change restyle binding (block :: splice place new rest) = _
      rw [restyle, restyle]
      cases attribute? block with
      | none =>
        simp only [ih]
        cases restyle binding rest <;> rfl
      | some found => cases block <;> rfl

/-- Neutral blocks can be put in before a font is named in the body element or after that. -/
theorem restyleBody_splice (h : Neutral new) (place : Nat) (blocks : List Block) :
    restyleBody binding (splice place new blocks) =
      (restyleBody binding blocks).map (splice place new) := by
  induction blocks generalizing place with
  | nil =>
    rw [splice, List.take_nil, List.drop_nil, List.nil_append, restyleBody_append h]
    rfl
  | cons block rest ih =>
    cases place with
    | zero =>
      change restyleBody binding (new ++ block :: rest) = _
      rw [restyleBody_append h]
      rfl
    | succ place =>
      change restyleBody binding (block :: splice place new rest) = _
      rw [restyleBody, restyleBody]
      cases block.isPlain opensBody with
      | true => exact restyle_splice h (place + 1) (block :: rest)
      | false =>
        simp only [Bool.false_eq_true, if_false, ih]
        cases restyleBody binding rest <;> rfl

/-! ## Blocks treated alike -/

/-- Two blocks that a layout treats alike. -/
inductive Alike : Block → Block → Prop
  /-- The same block. -/
  | same (block : Block) : Alike block block
  /-- Plain lines with the same role. -/
  | plain {line other : List Char} : SameRole line other → Alike (.plain line) (.plain other)

/-- Blocks are alike themselves. -/
theorem forall₂_alike_refl (blocks : List Block) : List.Forall₂ Alike blocks blocks :=
  List.forall₂_same.mpr fun block _ => .same block

/-- Blocks that are alike import types both, or neither does. -/
theorem Alike.isTypeImport_eq (h : Alike block other) : other.isTypeImport = block.isTypeImport := by
  cases h <;> rfl

/-- Blocks that are alike import fonts both, or neither does. -/
theorem Alike.isFontImport_eq (h : Alike block other) : other.isFontImport = block.isFontImport := by
  cases h <;> rfl

/-- Blocks that are alike declare fonts both, or neither does. -/
theorem Alike.isFontFactory_eq (h : Alike block other) :
    other.isFontFactory = block.isFontFactory := by
  cases h <;> rfl

/-- Blocks that are alike are plain lines with the same property of roles. -/
theorem Alike.isPlain_eq {p : List Char → Bool} (h : Alike block other)
    (hp : ∀ line other, SameRole line other → p other = p line) : other.isPlain p = block.isPlain p := by
  cases h with
  | same => rfl
  | plain hrole => exact hp _ _ hrole

/-- Lines with the same role open the body element both, or neither does. -/
theorem SameRole.opensBody_eq {line other : List Char} (h : SameRole line other) :
    opensBody other = opensBody line :=
  h.markers _ marker_body

/-- What is found in blocks is found in blocks that are alike. -/
theorem findIdx?_alike {p : Block → Bool} (hp : ∀ block other, Alike block other → p other = p block)
    (h : List.Forall₂ Alike blocks others) : others.findIdx? p = blocks.findIdx? p := by
  induction h with
  | nil => rfl
  | cons hblock _ ih => rw [List.findIdx?_cons, List.findIdx?_cons, hp _ _ hblock, ih]

/-- The place for the declaration of a font depends on the roles of the lines. -/
theorem factoryAnchor?_alike (h : List.Forall₂ Alike blocks others) :
    factoryAnchor? others = factoryAnchor? blocks := by
  unfold factoryAnchor?
  rw [findIdx?_alike (fun _ _ h => h.isPlain_eq fun _ _ => SameRole.metadata) h,
    findIdx?_alike (fun _ _ h => h.isPlain_eq fun _ _ => SameRole.layoutFunction) h]

/-- Naming a font keeps the roles of all lines. -/
theorem alike_of_restyle (hbinding : IsConstant binding) (h : restyle binding blocks = .ok others) :
    List.Forall₂ Alike blocks others := by
  induction blocks generalizing others with
  | nil => cases h
  | cons block rest ih =>
    rw [restyle] at h
    split at h
    · cases hrest : restyle binding rest with
      | error e => rw [hrest] at h; cases h
      | ok tail =>
        rw [hrest] at h
        cases h
        exact .cons (.same block) (ih hrest)
    next before value follow hfound =>
      split at h
      · cases h
        exact .cons (.plain (sameRole_classAttribute hbinding hfound)) (forall₂_alike_refl rest)
      · cases h

/-- Naming a font in the body element keeps the roles of all lines. -/
theorem alike_of_restyleBody (hbinding : IsConstant binding)
    (h : restyleBody binding blocks = .ok others) : List.Forall₂ Alike blocks others := by
  induction blocks generalizing others with
  | nil => cases h
  | cons block rest ih =>
    rw [restyleBody] at h
    split at h
    · exact alike_of_restyle hbinding h
    · cases hrest : restyleBody binding rest with
      | error e => rw [hrest] at h; cases h
      | ok tail =>
        rw [hrest] at h
        cases h
        exact .cons (.same block) (ih hrest)

/-! ## One font after another -/

/-- Naming one font after another is naming the other one, unless the value of the attribute holds a
backquote. -/
theorem restyle_restyle (hbinding : IsConstant binding) (h : restyle binding blocks = .ok others)
    (hvalue : ∀ found ∈ blocks.findSome? attribute?, '\x60' ∉ found.2.1) (next : List Char) :
    restyle next others = restyle next blocks := by
  induction blocks generalizing others with
  | nil => cases h
  | cons block rest ih =>
    rw [restyle] at h
    split at h
    next hnone =>
      cases hrest : restyle binding rest with
      | error e => rw [hrest] at h; cases h
      | ok tail =>
        rw [hrest] at h
        cases h
        rw [List.findSome?_cons, hnone] at hvalue
        change restyle next (block :: tail) = _
        rw [restyle, restyle, hnone]
        simp only [ih hrest hvalue]
    next before value follow hfound =>
      split at h
      next line =>
        cases h
        rw [List.findSome?_cons, hfound] at hvalue
        have hfound : classAttribute? line = some (before, value, follow) := hfound
        have hagain := classAttribute?_classAttribute hbinding hfound (hvalue _ rfl)
        simp only [restyle, attribute?, Block.line?, Option.bind_some, hfound, hagain,
          rootClasses_rootClasses hbinding]
      · cases h

/-- Naming one font after another in the body element is naming the other one, unless the value of
the attribute holds a backquote. -/
theorem restyleBody_restyleBody (hbinding : IsConstant binding)
    (h : restyleBody binding blocks = .ok others)
    (hvalue : ∀ value ∈ bodyClasses? blocks, '\x60' ∉ value) (next : List Char) :
    restyleBody next others = restyleBody next blocks := by
  induction blocks generalizing others with
  | nil => cases h
  | cons block rest ih =>
    have halike := alike_of_restyleBody hbinding h
    rw [restyleBody] at h
    split at h
    next hopens =>
      have hvalue : ∀ found ∈ (block :: rest).findSome? attribute?, '\x60' ∉ found.2.1 := by
        intro found hfound
        refine hvalue _ ?_
        rw [bodyClasses?, List.dropWhile_cons, hopens]
        exact Option.mem_map_of_mem _ hfound
      cases halike with
      | @cons _ other _ tail hblock _ =>
        have hopens' := (hblock.isPlain_eq fun _ _ => SameRole.opensBody_eq).trans hopens
        rw [restyleBody, restyleBody, hopens, hopens', if_pos rfl, if_pos rfl]
        exact restyle_restyle hbinding h hvalue next
    next hopens =>
      rw [Bool.not_eq_true] at hopens
      cases hrest : restyleBody binding rest with
      | error e => rw [hrest] at h; cases h
      | ok tail =>
        rw [hrest] at h
        cases h
        rw [bodyClasses?, List.dropWhile_cons, hopens, Bool.not_false, if_pos rfl] at hvalue
        change restyleBody next (block :: tail) = _
        rw [restyleBody, restyleBody, hopens]
        simp only [Bool.false_eq_true, if_false, ih hrest hvalue]

end Siteworks.Layout
