import Mathlib
import Siteworks.SlugLock

/-!
# Who owns a slug

Handles on one table share its slugs, and tables made on their own do not. In whatever order slugs
are claimed, guards dropped and handles shared and made, the slugs in use in a table are those of
the live guards that were claimed through its handles, and each slug has one such guard at most. So
a claim fails exactly if such a guard has the slug, and dropping a guard frees its slug in its table
and nothing else.
-/

namespace Siteworks.SlugLocks

variable {locks next : SlugLocks} {handle number position : Nat} {slug : String} {guard : SlugGuard}
  {table : SlugTable} {step : Step}

/-- The guard of a number has not been dropped. -/
def Live (locks : SlugLocks) (number : Nat) (guard : SlugGuard) : Prop :=
  locks.guards[number]? = some (some guard)

/-- A slug is in use in the table at a position. -/
def InUse (locks : SlugLocks) (position : Nat) (slug : String) : Prop :=
  ∃ table, locks.tables[position]? = some table ∧ slug ∈ table.held

/-- The locks after steps. -/
def run (locks : SlugLocks) (steps : List Step) : SlugLocks := steps.foldl after locks

/-- The slugs in use are those of the live guards. -/
structure Owned (locks : SlugLocks) : Prop where
  /-- A handle has a table. -/
  placed : ∀ handle position : Nat, locks.handles[handle]? = some position →
    position < locks.tables.length
  /-- A slug is in use in a table exactly if a live guard has it there. -/
  inUse_iff : ∀ position slug, locks.InUse position slug ↔
    ∃ number, locks.Live number ⟨position, slug⟩
  /-- No two live guards have the same slug of the same table. -/
  unique : ∀ number other guard, locks.Live number guard → locks.Live other guard → number = other
  /-- A table holds a slug once. -/
  nodup : ∀ table ∈ locks.tables, table.held.Nodup

/-- One more guard is live, its slug is in use in its table, and nothing else has changed. -/
structure Grants (locks next : SlugLocks) (number : Nat) (guard : SlugGuard) : Prop where
  /-- The handles are the same. -/
  handles : next.handles = locks.handles
  /-- The number had no guard. -/
  fresh : ∀ other, ¬ locks.Live number other
  /-- The slug was not in use. -/
  free : ¬ locks.InUse guard.table guard.slug
  /-- One more guard is live. -/
  live_iff : ∀ n g, next.Live n g ↔ locks.Live n g ∨ n = number ∧ g = guard
  /-- One more slug is in use. -/
  inUse_iff : ∀ p s, next.InUse p s ↔ locks.InUse p s ∨ p = guard.table ∧ s = guard.slug

/-- One guard is live no more, its slug is not in use in its table, and nothing else has changed. -/
structure Frees (locks next : SlugLocks) (number : Nat) (guard : SlugGuard) : Prop where
  /-- The handles are the same. -/
  handles : next.handles = locks.handles
  /-- One guard is live no more. -/
  live_iff : ∀ n g, next.Live n g ↔ locks.Live n g ∧ n ≠ number
  /-- One slug is in use no more. -/
  inUse_iff : ∀ p s, next.InUse p s ↔ locks.InUse p s ∧ ¬ (p = guard.table ∧ s = guard.slug)

/-- There is a new handle on a table, and nothing else has changed. -/
structure Opens (locks next : SlugLocks) (handle position : Nat) : Prop where
  /-- The handle is new. -/
  fresh : locks.handles[handle]? = none
  /-- It is on the table, and the others are on theirs. -/
  handles : ∀ other, next.handles[other]? =
    if other = handle then some position else locks.handles[other]?
  /-- The same guards are live. -/
  live_iff : ∀ n g, next.Live n g ↔ locks.Live n g
  /-- The same slugs are in use. -/
  inUse_iff : ∀ p s, next.InUse p s ↔ locks.InUse p s

/-- How locks answer whoever uses them. -/
structure Answering (locks : SlugLocks) : Prop where
  /-- A slug that a live guard has is not granted through a handle on its table. -/
  refused : ∀ handle number guard, locks.handles[handle]? = some guard.table →
    locks.Live number guard →
      locks.acquire handle guard.slug = some (.error (.slugBusy guard.slug), locks)
  /-- Every other slug is. -/
  granted : ∀ handle guard, locks.handles[handle]? = some guard.table →
    (∀ number, ¬ locks.Live number guard) →
      ∃ number next, locks.acquire handle guard.slug = some (.ok number, next) ∧
        locks.Grants next number guard
  /-- A live guard that is dropped frees its slug. -/
  freed : ∀ number guard, locks.Live number guard → locks.Frees (locks.drop number) number guard
  /-- A guard is dropped once. -/
  gone : ∀ number, (∀ guard, ¬ locks.Live number guard) → locks.drop number = locks
  /-- A shared handle is on the same table. -/
  shared : ∀ handle position, locks.handles[handle]? = some position →
    ∃ other next, locks.share handle = some (other, next) ∧ locks.Opens next other position
  /-- A new table has no other handle, and no slug is in use in it. -/
  created : ∃ position, locks.Opens locks.create.2 locks.create.1 position ∧
    (∀ handle : Nat, locks.handles[handle]? ≠ some position) ∧
    ∀ slug, ¬ locks.create.2.InUse position slug

/-- What a claim through a handle on a table answers. -/
theorem acquire_eq (hhandle : locks.handles[handle]? = some position)
    (htable : locks.tables[position]? = some table) (slug : String) :
    locks.acquire handle slug =
      if slug ∈ table.held then some (.error (.slugBusy slug), locks)
      else some (.ok locks.guards.length,
        { locks with
          tables := locks.tables.set position ⟨slug :: table.held⟩
          guards := locks.guards ++ [some ⟨position, slug⟩] }) := by
  by_cases h : slug ∈ table.held <;> simp [acquire, hhandle, htable, SlugTable.acquire, h]

/-- A claim that succeeds is through a handle on a table in which the slug is not in use. -/
theorem exists_of_acquire (h : locks.acquire handle slug = some (.ok number, next)) :
    ∃ position table, locks.handles[handle]? = some position ∧
      locks.tables[position]? = some table ∧ slug ∉ table.held ∧ number = locks.guards.length ∧
      next = { locks with
        tables := locks.tables.set position ⟨slug :: table.held⟩
        guards := locks.guards ++ [some ⟨position, slug⟩] } := by
  cases hhandle : locks.handles[handle]? with
  | none => simp [acquire, hhandle] at h
  | some position =>
    cases htable : locks.tables[position]? with
    | none => simp [acquire, hhandle, htable] at h
    | some table =>
      rw [acquire_eq hhandle htable] at h
      split at h
      · cases h
      next hfree =>
        cases h
        exact ⟨position, table, rfl, htable, hfree, rfl, rfl⟩

/-- A claim that succeeds grants the slug. -/
theorem grants_of_acquire (hhandle : locks.handles[handle]? = some position)
    (h : locks.acquire handle slug = some (.ok number, next)) :
    locks.Grants next number ⟨position, slug⟩ := by
  obtain ⟨position', table, hhandle', htable, hfree, rfl, rfl⟩ := exists_of_acquire h
  obtain rfl : position = position' := Option.some.inj (hhandle.symm.trans hhandle')
  have hlength : position < locks.tables.length := (List.getElem?_eq_some_iff.mp htable).1
  refine ⟨rfl, fun other => ?_, ?_, fun n g => ?_, fun p s => ?_⟩
  · simp [Live]
  · rintro ⟨table', htable', hmem⟩
    obtain rfl : table = table' := Option.some.inj (htable.symm.trans htable')
    exact hfree hmem
  · unfold Live
    rcases Nat.lt_trichotomy n locks.guards.length with hn | rfl | hn
    · simp [List.getElem?_append_left hn, hn.ne]
    · simp [eq_comm]
    · simp [hn.ne', hn.le, hn]
  · unfold InUse
    by_cases hp : position = p
    · subst hp
      simp [List.getElem?_set_self hlength, htable, or_comm]
    · simp [List.getElem?_set_ne hp, Ne.symm hp]

/-- A claim that fails changes nothing. -/
theorem eq_of_acquire_error {e : GenerationError}
    (h : locks.acquire handle slug = some (.error e, next)) : next = locks := by
  unfold acquire at h
  split at h
  · cases h
  · split at h
    · cases h
    · split at h
      · exact (Prod.mk.inj (Option.some.inj h)).2.symm
      · cases h

/-- A live guard that is dropped frees its slug. -/
theorem frees_of_live (h : locks.Live number guard) :
    locks.Frees (locks.drop number) number guard := by
  have hdrop : locks.drop number =
      { locks with
        tables := locks.tables.modify guard.table fun table => table.release guard.slug
        guards := locks.guards.set number none } := by
    unfold drop
    rw [show locks.guards[number]? = some (some guard) from h]
  rw [hdrop]
  refine ⟨rfl, fun n g => ?_, fun p s => ?_⟩
  · unfold Live
    by_cases hn : number = n
    · subst hn
      simp [List.getElem?_set]
    · simp [List.getElem?_set_ne hn, Ne.symm hn]
  · unfold InUse
    rw [List.getElem?_modify]
    cases htable : locks.tables[p]? with
    | none => simp
    | some table =>
      by_cases hp : guard.table = p
      · simp [hp]
      · simp [hp, Ne.symm hp]

/-- A guard that is not live cannot be dropped. -/
theorem drop_of_not_live (h : ∀ guard, ¬ locks.Live number guard) : locks.drop number = locks := by
  unfold drop
  split
  next guard hguard => exact absurd hguard (h guard)
  · rfl

/-- What is where in a list with one more item. -/
private theorem getElem?_concat {α : Type} (items : List α) (item : α) (i : Nat) :
    (items ++ [item])[i]? = if i = items.length then some item else items[i]? := by
  rcases Nat.lt_trichotomy i items.length with hi | rfl | hi
  · simp [List.getElem?_append_left hi, hi.ne]
  · simp
  · simp [hi.ne', hi.le, hi]

/-- A shared handle is on the same table. -/
theorem opens_of_share (hhandle : locks.handles[handle]? = some position) :
    ∃ other next, locks.share handle = some (other, next) ∧ locks.Opens next other position := by
  refine ⟨locks.handles.length, { locks with handles := locks.handles ++ [position] }, ?_, by simp,
    getElem?_concat _ _, fun _ _ => Iff.rfl, fun _ _ => Iff.rfl⟩
  simp only [share, hhandle]

/-- A new table has a new handle, and no slug is in use in it. -/
theorem opens_of_create (locks : SlugLocks) :
    locks.Opens locks.create.2 locks.create.1 locks.tables.length ∧
      ∀ slug, ¬ locks.create.2.InUse locks.tables.length slug := by
  have htables : ∀ p, locks.create.2.tables[p]? =
      if p = locks.tables.length then some .empty else locks.tables[p]? :=
    getElem?_concat _ _
  refine ⟨⟨by simp [create], getElem?_concat _ _, fun _ _ => Iff.rfl, fun p s => ?_⟩, fun slug => ?_⟩
  · unfold InUse
    rw [htables]
    by_cases hp : p = locks.tables.length
    · simp [hp, SlugTable.empty]
    · rw [if_neg hp]
  · simp [InUse, htables, SlugTable.empty]

/-- At first no slug is in use and no guard is live. -/
theorem owned_initial : initial.Owned := by
  refine ⟨fun handle position h => ?_, fun position slug => ?_, fun number other guard h => ?_, ?_⟩
  · rw [List.mem_singleton.mp (List.mem_of_getElem? h)]
    exact Nat.zero_lt_one
  · refine iff_of_false ?_ ?_
    · rintro ⟨table, htable, hslug⟩
      rw [List.mem_singleton.mp (List.mem_of_getElem? htable)] at hslug
      cases hslug
    · rintro ⟨number, h⟩
      cases h
  · cases h
  · simp [initial, SlugTable.empty]

namespace Owned

/-- A claim that succeeds leaves the slugs in use with the live guards. -/
theorem acquire (h : locks.Owned) (hacquire : locks.acquire handle slug = some (.ok number, next)) :
    next.Owned := by
  obtain ⟨position, table, hhandle, htable, hfree, -, hnext⟩ := exists_of_acquire hacquire
  have hgrants := grants_of_acquire hhandle hacquire
  refine ⟨fun other p hother => ?_, fun p s => ?_, fun n m g hn hm => ?_, fun t ht => ?_⟩
  · rw [hgrants.handles] at hother
    simpa [hnext] using h.placed other p hother
  · simp only [hgrants.inUse_iff, h.inUse_iff, hgrants.live_iff, exists_or, exists_eq_left,
      SlugGuard.mk.injEq]
  · have hnone : ¬ locks.Live n ⟨position, slug⟩ ∧ ¬ locks.Live m ⟨position, slug⟩ :=
      ⟨fun hold => hgrants.free ((h.inUse_iff _ _).mpr ⟨_, hold⟩),
        fun hold => hgrants.free ((h.inUse_iff _ _).mpr ⟨_, hold⟩)⟩
    rcases (hgrants.live_iff n g).mp hn with hn | ⟨rfl, rfl⟩
    · rcases (hgrants.live_iff m g).mp hm with hm | ⟨-, rfl⟩
      · exact h.unique n m g hn hm
      · exact absurd hn hnone.1
    · rcases (hgrants.live_iff m _).mp hm with hm | ⟨rfl, -⟩
      · exact absurd hm hnone.2
      · rfl
  · rw [hnext] at ht
    rcases List.mem_or_eq_of_mem_set ht with ht | rfl
    · exact h.nodup t ht
    · exact List.nodup_cons.mpr ⟨hfree, h.nodup table (List.mem_of_getElem? htable)⟩

/-- A dropped guard leaves the slugs in use with the live guards. -/
theorem drop (h : locks.Owned) (number : Nat) : (locks.drop number).Owned := by
  by_cases hlive : ∃ guard, locks.Live number guard
  · obtain ⟨guard, hlive⟩ := hlive
    have hfrees := frees_of_live hlive
    have hdrop : (locks.drop number).tables =
        locks.tables.modify guard.table fun table => table.release guard.slug := by
      unfold SlugLocks.drop
      rw [show locks.guards[number]? = some (some guard) from hlive]
    refine ⟨fun other p hother => ?_, fun p s => ?_, fun n m g hn hm => ?_, fun t ht => ?_⟩
    · rw [hfrees.handles] at hother
      simpa [hdrop] using h.placed other p hother
    · simp only [hfrees.inUse_iff, h.inUse_iff, hfrees.live_iff]
      constructor
      · rintro ⟨⟨n, hn⟩, hother⟩
        refine ⟨n, hn, ?_⟩
        rintro rfl
        obtain rfl : guard = ⟨p, s⟩ := by simpa [Live, hlive] using hlive.symm.trans hn
        exact hother ⟨rfl, rfl⟩
      · rintro ⟨n, hn, hne⟩
        refine ⟨⟨n, hn⟩, ?_⟩
        rintro ⟨rfl, rfl⟩
        exact hne (h.unique n number guard hn hlive)
    · exact h.unique n m g ((hfrees.live_iff n g).mp hn).1 ((hfrees.live_iff m g).mp hm).1
    · rw [hdrop] at ht
      obtain ⟨p, hp⟩ := List.mem_iff_getElem?.mp ht
      rw [List.getElem?_modify] at hp
      obtain ⟨old, hold, rfl⟩ := Option.map_eq_some_iff.mp hp
      have hnodup := h.nodup old (List.mem_of_getElem? hold)
      split
      · exact hnodup.filter _
      · exact hnodup
  · rw [drop_of_not_live fun guard hguard => hlive ⟨guard, hguard⟩]
    exact h

/-- A new handle leaves the slugs in use with the live guards. -/
theorem opens (h : locks.Owned) (hopens : locks.Opens next handle position)
    (hposition : position < next.tables.length)
    (hlength : locks.tables.length ≤ next.tables.length)
    (hnodup : ∀ table ∈ next.tables, table.held.Nodup) : next.Owned := by
  refine ⟨fun other p hother => ?_, fun p s => ?_, fun n m g hn hm => ?_, hnodup⟩
  · rw [hopens.handles] at hother
    split at hother
    · exact Option.some.inj hother ▸ hposition
    · exact (h.placed other p hother).trans_le hlength
  · simp only [hopens.inUse_iff, hopens.live_iff, h.inUse_iff]
  · exact h.unique n m g ((hopens.live_iff n g).mp hn) ((hopens.live_iff m g).mp hm)

/-- A step leaves the slugs in use with the live guards. -/
theorem after (h : locks.Owned) (step : Step) : (locks.after step).Owned := by
  cases step with
  | acquire handle slug =>
    simp only [SlugLocks.after]
    split
    next outcome next hacquire =>
      cases outcome with
      | ok number => exact h.acquire hacquire
      | error e =>
        rw [eq_of_acquire_error hacquire]
        exact h
    · exact h
  | drop number => exact h.drop number
  | share handle =>
    cases hhandle : locks.handles[handle]? with
    | none => simpa [SlugLocks.after, share, hhandle] using h
    | some position =>
      obtain ⟨other, next, hshare, hopens⟩ := opens_of_share hhandle
      have htables : next.tables = locks.tables := by
        simp only [share, hhandle, Option.some.injEq, Prod.mk.injEq] at hshare
        rw [← hshare.2]
      simp only [SlugLocks.after, hshare]
      refine h.opens hopens ?_ (by rw [htables]) (by simpa only [htables] using h.nodup)
      rw [htables]
      exact h.placed handle position hhandle
  | create =>
    change locks.create.2.Owned
    refine h.opens locks.opens_of_create.1 (by simp [create]) (by simp [create]) ?_
    simpa [create, or_imp, forall_and, SlugTable.empty] using h.nodup

/-- Steps leave the slugs in use with the live guards. -/
theorem run (h : locks.Owned) (steps : List Step) : (locks.run steps).Owned := by
  induction steps generalizing locks with
  | nil => exact h
  | cons step steps ih => exact ih (h.after step)

/-- Where the slugs in use are those of the live guards, claims are answered by these. -/
theorem answering (h : locks.Owned) : locks.Answering := by
  have hplaced : ∀ {handle position}, locks.handles[handle]? = some position →
      ∃ table, locks.tables[position]? = some table := fun hhandle =>
    ⟨_, List.getElem?_eq_getElem (h.placed _ _ hhandle)⟩
  refine ⟨fun handle number guard hhandle hlive => ?_, fun handle guard hhandle hfree => ?_,
    fun number guard => frees_of_live, fun number => drop_of_not_live,
    fun handle position => opens_of_share, locks.tables.length, locks.opens_of_create.1,
    fun handle hhandle => ?_, locks.opens_of_create.2⟩
  · obtain ⟨table, htable, hheld⟩ := (h.inUse_iff _ _).mpr ⟨number, hlive⟩
    rw [acquire_eq hhandle htable, if_pos hheld]
  · obtain ⟨table, htable⟩ := hplaced hhandle
    have hacquire := acquire_eq hhandle htable guard.slug
    rw [if_neg fun hheld => ?_] at hacquire
    · exact ⟨_, _, hacquire, grants_of_acquire hhandle hacquire⟩
    · obtain ⟨number, hlive⟩ := (h.inUse_iff guard.table guard.slug).mp ⟨table, htable, hheld⟩
      exact hfree number hlive
  · exact (h.placed handle _ hhandle).false

end Owned

/-- The guards that are live after a claim: the old ones, and one for the slug if it is granted. -/
theorem live_after_acquire_iff {handle : Nat} {slug : String} :
    (locks.after (.acquire handle slug)).Live number guard ↔ locks.Live number guard ∨
      ∃ next, slug = guard.slug ∧ locks.handles[handle]? = some guard.table ∧
        locks.acquire handle slug = some (.ok number, next) := by
  simp only [after]
  cases hacquire : locks.acquire handle slug with
  | none => simp
  | some answer =>
    obtain ⟨_ | granted, next⟩ := answer
    · simp [eq_of_acquire_error hacquire]
    · obtain ⟨position, -, hhandle, -⟩ := exists_of_acquire hacquire
      rw [(grants_of_acquire hhandle hacquire).live_iff, hhandle]
      refine or_congr_right ⟨?_, ?_⟩
      · rintro ⟨rfl, rfl⟩
        exact ⟨next, rfl, rfl, rfl⟩
      · rintro ⟨next', rfl, ⟨⟩, ⟨⟩⟩
        exact ⟨rfl, rfl⟩

/-- A guard is live after a step if it was and is not dropped, or if the step has been granted its
slug. -/
theorem live_after_iff : (locks.after step).Live number guard ↔
    (locks.Live number guard ∧ step ≠ .drop number) ∨
      ∃ handle next, step = .acquire handle guard.slug ∧
        locks.handles[handle]? = some guard.table ∧
        locks.acquire handle guard.slug = some (.ok number, next) := by
  cases step with
  | acquire handle slug =>
    rw [live_after_acquire_iff]
    constructor
    · rintro (hlive | ⟨next, rfl, hhandle, hacquire⟩)
      · exact Or.inl ⟨hlive, nofun⟩
      · exact Or.inr ⟨handle, next, rfl, hhandle, hacquire⟩
    · rintro (⟨hlive, -⟩ | ⟨_, next, ⟨⟩, hhandle, hacquire⟩)
      · exact Or.inl hlive
      · exact Or.inr ⟨next, rfl, hhandle, hacquire⟩
  | drop n =>
    simp only [after, reduceCtorEq, false_and, exists_false, or_false, ne_eq, Step.drop.injEq]
    by_cases hlive : ∃ g, locks.Live n g
    · obtain ⟨g, hlive⟩ := hlive
      rw [(frees_of_live hlive).live_iff, ne_comm]
    · rw [drop_of_not_live fun g hg => hlive ⟨g, hg⟩]
      refine ⟨fun h => ⟨h, ?_⟩, And.left⟩
      rintro rfl
      exact hlive ⟨guard, h⟩
  | share handle =>
    have hsame : (locks.after (.share handle)).guards = locks.guards := by
      simp only [after, share]
      cases locks.handles[handle]? <;> rfl
    simp [Live, hsame]
  | create => simp [after, Live, create]

/-- The guard of a number was claimed in the course of steps, and has not been dropped since. -/
def Kept (locks : SlugLocks) (steps : List Step) (number : Nat) (guard : SlugGuard) : Prop :=
  ∃ before later handle next, steps = before ++ .acquire handle guard.slug :: later ∧
    (locks.run before).handles[handle]? = some guard.table ∧
    (locks.run before).acquire handle guard.slug = some (.ok number, next) ∧
    .drop number ∉ later

/-- The live guards are those that were claimed and have not been dropped since. -/
theorem live_run_iff (steps : List Step) :
    (initial.run steps).Live number guard ↔ initial.Kept steps number guard := by
  induction steps using List.reverseRecOn with
  | nil =>
    refine iff_of_false (fun h => ?_) ?_
    · cases h
    · rintro ⟨before, later, handle, next, hsteps, -⟩
      simp at hsteps
  | append_singleton steps step ih =>
    have hrun : initial.run (steps ++ [step]) = (initial.run steps).after step := by simp [run]
    rw [hrun, live_after_iff, ih]
    constructor
    · rintro (⟨⟨before, later, handle, next, rfl, hhandle, hacquire, hkept⟩, hstep⟩ |
        ⟨handle, next, rfl, hhandle, hacquire⟩)
      · refine ⟨before, later ++ [step], handle, next, by simp, hhandle, hacquire, ?_⟩
        simpa [hkept] using hstep.symm
      · exact ⟨steps, [], handle, next, rfl, hhandle, hacquire, by simp⟩
    · rintro ⟨before, later, handle, next, hsteps, hhandle, hacquire, hkept⟩
      rcases List.eq_nil_or_concat later with rfl | ⟨later, last, rfl⟩
      · obtain ⟨rfl, hlast⟩ := List.append_inj' hsteps rfl
        exact Or.inr ⟨handle, next, List.singleton_injective hlast, hhandle, hacquire⟩
      · rw [List.concat_eq_append] at hsteps hkept
        rw [← List.cons_append, ← List.append_assoc] at hsteps
        obtain ⟨rfl, hlast⟩ := List.append_inj' hsteps rfl
        obtain rfl := List.singleton_injective hlast
        simp only [List.mem_append, List.mem_singleton, not_or] at hkept
        exact Or.inl ⟨⟨before, later, handle, next, rfl, hhandle, hacquire, hkept.1⟩,
          Ne.symm hkept.2⟩

/-- Whatever has been claimed, dropped, shared and made: the live guards are those that were claimed
and have not been dropped since, the slugs in use in a table are theirs, each of one guard, and the
locks answer accordingly. -/
theorem exclusive_run (steps : List Step) :
    (initial.run steps).Owned ∧ (initial.run steps).Answering ∧
      ∀ number guard, (initial.run steps).Live number guard ↔ initial.Kept steps number guard :=
  ⟨owned_initial.run steps, (owned_initial.run steps).answering, fun _ _ => live_run_iff steps⟩

end Siteworks.SlugLocks
