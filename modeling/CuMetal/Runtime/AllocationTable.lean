import CuMetal.Lib.OrderedMap

/-!
# The allocation table

`runtime/rt/allocation_table.cpp`: the address ranges that the runtime has allocated. Addresses
and sizes are machine words, so the sums that the table compares wrap.
-/

namespace CuMetal.Runtime

/-- `AllocationKind` (`allocation_table.h:15-18`). -/
inductive AllocationKind
  | device | host
  deriving DecidableEq, Repr

/-- `AllocationTable::Entry` (`allocation_table.h:43-49`); a buffer that is `none` is a null
`shared_ptr`. -/
structure Entry (β : Type) where
  size : BitVec 64
  kind : AllocationKind
  hostAllocFlags : BitVec 32
  buffer : Option β
  isAlias : Bool
  deriving DecidableEq

/-- `AllocationTable::ResolvedAllocation` (`allocation_table.h:22-28`). -/
structure ResolvedAllocation (β : Type) where
  buffer : Option β
  offset : BitVec 64
  remainingSize : BitVec 64
  kind : AllocationKind
  hostAllocFlags : BitVec 32
  deriving DecidableEq

/-- The `entries_` of an `AllocationTable` (`allocation_table.h:51`). -/
abbrev AllocationTable (β : Type) := OrderedMap (BitVec 64) (Entry β)

namespace AllocationTable

variable {β : Type} (table : AllocationTable β)

def initial : AllocationTable β := .empty

/-- The range reaches past the base of the entry at or after it
(`allocation_table.cpp:23-32`). -/
def overlapsNext (address size : BitVec 64) : Bool :=
  match table.lowerBound address with
  | some next => next.1 < address + size
  | none => false

/-- The entry before the range reaches past its base (`allocation_table.cpp:34-45`). -/
def overlapsPrevious (address : BitVec 64) : Bool :=
  match table.beforeLowerBound address with
  | some previous => address < previous.1 + previous.2.size
  | none => false

/-- `AllocationTable::insert` (`allocation_table.cpp:5-55`): the table after it, or the message
that it fails with. -/
def insert (base size : BitVec 64) (kind : AllocationKind) (hostAllocFlags : BitVec 32)
    (buffer : Option β) (isAlias : Bool) : Except String (AllocationTable β) :=
  if base = 0 ∨ size = 0 ∨ buffer.isNone then
    .error "allocation table insert received invalid arguments"
  else if table.overlapsNext base size then
    .error "allocation overlaps existing entry"
  else if table.overlapsPrevious base then
    .error "allocation overlaps previous entry"
  else
    .ok (table.assign base ⟨size, kind, hostAllocFlags, buffer, isAlias⟩)

/-- `AllocationTable::erase` (`allocation_table.cpp:57-78`): the table after it, if it succeeds. -/
def erase [DecidableEq β] (base : BitVec 64) : Option (AllocationTable β) :=
  if base = 0 then none
  else
    match table.find base with
    | none => none
    | some found => some (table.filter fun entry => entry.2.buffer ≠ found.2.buffer)

/-- `AllocationTable::resolve` (`allocation_table.cpp:80-107`). -/
def resolve (address : BitVec 64) : Option (ResolvedAllocation β) :=
  if address = 0 then none
  else
    match table.beforeUpperBound address with
    | none => none
    | some (base, entry) =>
      if address < base ∨ base + entry.size ≤ address then none
      else
        some
          { buffer := entry.buffer
            offset := address - base
            remainingSize := entry.size - (address - base)
            kind := entry.kind
            hostAllocFlags := entry.hostAllocFlags }

/-- `AllocationTable::total_allocated_size` (`allocation_table.cpp:109-119`). -/
def totalAllocatedSize : BitVec 64 :=
  table.entries.foldl
    (fun total entry => if entry.2.isAlias then total else total + entry.2.size) 0

/-- `AllocationTable::clear` (`allocation_table.cpp:121-124`). -/
def clear (_ : AllocationTable β) : AllocationTable β := .empty

/-- A call of a member function. -/
inductive Call (β : Type)
  | insert (base size : BitVec 64) (kind : AllocationKind) (hostAllocFlags : BitVec 32)
      (buffer : Option β) (isAlias : Bool)
  | erase (base : BitVec 64)
  | resolve (address : BitVec 64)
  | totalAllocatedSize
  | clear

/-- The table after a call, and whether the call succeeds. -/
def call [DecidableEq β] : Call β → AllocationTable β × Bool
  | .insert base size kind hostAllocFlags buffer isAlias =>
    match table.insert base size kind hostAllocFlags buffer isAlias with
    | .ok next => (next, true)
    | .error _ => (table, false)
  | .erase base =>
    match table.erase base with
    | some next => (next, true)
    | none => (table, false)
  | .resolve address => (table, (table.resolve address).isSome)
  | .totalAllocatedSize => (table, true)
  | .clear => (table.clear, true)

def run [DecidableEq β] (calls : List (Call β)) : AllocationTable β :=
  calls.foldl (fun table next => (table.call next).1) table

end AllocationTable

end CuMetal.Runtime
