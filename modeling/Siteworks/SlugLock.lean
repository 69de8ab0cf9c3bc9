import Siteworks.Error

/-!
# Slugs in use

The output of a run is named after its slug, so that at most one run may own a slug at a time. A
table holds the slugs in use; whoever has a guard owns its slug until the guard is dropped. A
table may be shared under several handles, and there may be several tables that know nothing of
each other.
-/

namespace Siteworks

/-- The slugs in use. -/
structure SlugTable where
  /-- Each slug in use once. -/
  held : List String
  deriving DecidableEq, Repr

namespace SlugTable

/-- No slug is in use. -/
def empty : SlugTable := ⟨[]⟩

/-- Claim a slug that is not in use. -/
def acquire (table : SlugTable) (slug : String) : Except GenerationError SlugTable :=
  if slug ∈ table.held then .error (.slugBusy slug) else .ok ⟨slug :: table.held⟩

/-- Give a slug back. -/
def release (table : SlugTable) (slug : String) : SlugTable := ⟨table.held.filter (· ≠ slug)⟩

/-- A claim succeeds exactly if the slug is not in use; then it is in use with the others. -/
theorem acquire_eq_ok_iff {table next : SlugTable} {slug : String} :
    table.acquire slug = .ok next ↔ slug ∉ table.held ∧ next.held = slug :: table.held := by
  obtain ⟨held⟩ := next
  by_cases h : slug ∈ table.held <;> simp [acquire, h, eq_comm]

/-- What is in use after a slug was given back. -/
@[simp]
theorem mem_held_release {table : SlugTable} {slug other : String} :
    other ∈ (table.release slug).held ↔ other ∈ table.held ∧ other ≠ slug := by
  simp [release]

end SlugTable

/-- The right to use a slug, from a table. -/
structure SlugGuard where
  /-- The position of the table. -/
  table : Nat
  /-- The slug. -/
  slug : String
  deriving DecidableEq, Repr

/-- Tables, handles on them, and the guards that have not been dropped. -/
structure SlugLocks where
  /-- The tables. -/
  tables : List SlugTable
  /-- For each handle the position of its table. -/
  handles : List Nat
  /-- The live guards by number; a dropped guard leaves a gap. -/
  guards : List (Option SlugGuard)
  deriving DecidableEq, Repr

namespace SlugLocks

/-- One handle on one table without a slug in use. -/
def initial : SlugLocks := ⟨[.empty], [0], []⟩

/-- A step of whoever uses the locks. -/
inductive Step where
  /-- Claim a slug through a handle. -/
  | acquire (handle : Nat) (slug : String)
  /-- Drop the guard of a number. -/
  | drop (guard : Nat)
  /-- Share the table of a handle under a new one. -/
  | share (handle : Nat)
  /-- Make a table of its own under a new handle. -/
  | create
  deriving DecidableEq, Repr

/-- Claim a slug through a handle; answers the number of the guard. There is no answer if there is
no such handle. -/
def acquire (locks : SlugLocks) (handle : Nat) (slug : String) :
    Option (Except GenerationError Nat × SlugLocks) :=
  match locks.handles[handle]? with
  | none => none
  | some position =>
    match locks.tables[position]? with
    | none => none
    | some table =>
      match table.acquire slug with
      | .error e => some (.error e, locks)
      | .ok table =>
        some (.ok locks.guards.length,
          { locks with
            tables := locks.tables.set position table
            guards := locks.guards ++ [some ⟨position, slug⟩] })

/-- Drop the guard of a number, if it is live. -/
def drop (locks : SlugLocks) (number : Nat) : SlugLocks :=
  match locks.guards[number]? with
  | some (some guard) =>
    { locks with
      tables := locks.tables.modify guard.table fun table => table.release guard.slug
      guards := locks.guards.set number none }
  | _ => locks

/-- Share the table of a handle; answers the number of the new handle. -/
def share (locks : SlugLocks) (handle : Nat) : Option (Nat × SlugLocks) :=
  match locks.handles[handle]? with
  | none => none
  | some position =>
    some (locks.handles.length, { locks with handles := locks.handles ++ [position] })

/-- Make a table; answers the number of its handle. -/
def create (locks : SlugLocks) : Nat × SlugLocks :=
  (locks.handles.length,
    { locks with
      tables := locks.tables ++ [.empty]
      handles := locks.handles ++ [locks.tables.length] })

/-- The locks after a step. -/
def after (locks : SlugLocks) : Step → SlugLocks
  | .acquire handle slug =>
    match locks.acquire handle slug with
    | some (_, locks) => locks
    | none => locks
  | .drop number => locks.drop number
  | .share handle =>
    match locks.share handle with
    | some (_, locks) => locks
    | none => locks
  | .create => locks.create.2

end SlugLocks

end Siteworks
