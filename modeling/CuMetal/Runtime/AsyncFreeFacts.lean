import CuMetal.Runtime.AsyncFree

/-!
# Frees and the reuse of addresses

What holds while threads allocate and free, as long as no address is handed out again while a
`cudaFreeAsync` that names it goes on.
-/

namespace CuMetal.Runtime.Frees

open CuMetal.Guarded List OrderedMap AllocationTable Frees State

variable {ι σ : Type} {s s' : State ι σ} {settings : Settings σ}

/-- The queue has a callback for the pointer, or one that still has to release it. -/
def Owned (queue : List (Nat × Item)) (pointer : BitVec 64) : Prop :=
  ∃ number, (∃ allocation before, (number, .free pointer allocation before) ∈ queue) ∨
    (number, .release pointer) ∈ queue

/-- A `cudaFreeAsync` has put the pointer into `pending_async_frees` for the allocation, and its
callback has not erased it from the table. -/
def State.Claimed (s : State ι σ) (pointer : BitVec 64) (allocation : Option Buffer) : Prop :=
  (∃ i stream, s.threads i = .claimed pointer allocation stream) ∨
    ∃ stream number before, (number, .free pointer allocation before) ∈ s.queues stream

/-- A `cudaFreeAsync` that has found the allocation at the pointer goes on. -/
def State.Holds (s : State ι σ) (pointer : BitVec 64) (allocation : Option Buffer) : Prop :=
  (∃ i stream, s.threads i = .resolved pointer allocation stream) ∨ s.Claimed pointer allocation

/-- A `cudaFreeAsync` that names the address is not done: it has looked the address up and its
callback has not taken it out of `pending_async_frees`. -/
def State.Named (s : State ι σ) (pointer : BitVec 64) : Prop :=
  (∃ allocation, s.Holds pointer allocation) ∨ ∃ stream, Owned (s.queues stream) pointer

/-- The `cudaMalloc` of the buffer has not returned. -/
def State.Unreturned (s : State ι σ) (buffer : Buffer) : Prop :=
  ∃ i base aliasBase size, s.threads i = .aliasing buffer base aliasBase size

/-- The allocation at the pointer, if there is one, has been returned by its `cudaMalloc`. -/
def State.Returned (s : State ι σ) (pointer : BitVec 64) : Prop :=
  ∀ entry ∈ s.table.entries, entry.1 = pointer → ∀ buffer, s.Unreturned buffer →
    entry.2.buffer ≠ some buffer

/-- No address is handed out that a `cudaFreeAsync` still names, and nothing is freed that no
`cudaMalloc` has returned. -/
def Exclusive (settings : Settings σ) (s : State ι σ) : Action ι σ → Prop
  | .malloc _ buffer _ => ¬ s.Named (settings.base buffer)
  | .advance i =>
    match s.threads i with
    | .aliasing _ _ aliasBase _ => ¬ s.Named aliasBase
    | .erasing pointer _ => s.Returned pointer
    | _ => True
  | .freeAsync _ pointer _ => s.Returned pointer
  | _ => True

def State.left (s : State ι σ) : List (Option Buffer) := s.removals.map Removal.allocation

/-- A freed allocation has left the table, once and for good, after the work that its free had to
wait for, and a callback made only the allocation leave that it was made for. -/
structure State.Sound (s : State ι σ) : Prop where
  once : s.left.Nodup
  gone : ∀ entry ∈ s.table.entries, entry.2.buffer ∉ s.left
  left : ∀ allocation ∈ s.freed, allocation ∈ s.left
  own : ∀ removal ∈ s.removals, ∀ allocation, removal.intended = some allocation →
    removal.allocation = allocation
  timely : ∀ removal ∈ s.removals, removal.late = []

def State.Live (s : State ι σ) (allocation : Option Buffer) : Prop :=
  ∃ entry ∈ s.table.entries, entry.2.buffer = allocation

/-- The step refuses to free an allocation that is in the table and that no `cudaFreeAsync` is
freeing: it does not find its address, or finds it in `pending_async_frees`. -/
def WronglyRefuses (s : State ι σ) : Action ι σ → Prop
  | .freeAsync _ pointer _ =>
    (∃ entry ∈ s.table.entries, entry.1 = pointer) ∧
      ∀ resolved, s.table.resolve pointer = some resolved → resolved.offset ≠ 0
  | .advance i => ∃ pointer allocation stream, s.threads i = .resolved pointer allocation stream ∧
      pointer ∈ s.pendingAsyncFrees ∧ s.Live allocation ∧ ∀ other, ¬ s.Claimed other allocation
  | _ => False

/-! ## The table -/

/-- The address of a free that goes on has the allocation, or the allocation has left and nothing
else has come to the address. -/
def State.KeyOk (s : State ι σ) (pointer : BitVec 64) (allocation : Option Buffer) : Prop :=
  (∃ entry ∈ s.table.entries, entry.1 = pointer ∧ entry.2.buffer = allocation) ∨
    (allocation ∈ s.left ∧ ∀ entry ∈ s.table.entries, entry.1 ≠ pointer)

/-- A `cudaMalloc` that has recorded its first address. -/
structure State.AliasOk (s : State ι σ) (buffer : Buffer) (base aliasBase size : BitVec 64) :
    Prop where
  used : buffer ∈ s.used
  stays : some buffer ∉ s.left
  recorded : ∃ entry ∈ s.table.entries, entry.1 = base ∧ entry.2.buffer = some buffer
  fits : aliasBase.toNat + size.toNat < 2 ^ 64

/-- The invariant of the table and the frees that go on. -/
structure TableInvariant (s : State ι σ) : Prop where
  bounded : s.table.Bounded
  sized : ∀ entry ∈ s.table.entries, entry.2.size ≠ 0
  used : ∀ entry ∈ s.table.entries, ∃ buffer ∈ s.used, entry.2.buffer = some buffer
  removed : ∀ allocation ∈ s.left, ∃ buffer ∈ s.used, allocation = some buffer
  once : s.left.Nodup
  gone : ∀ entry ∈ s.table.entries, entry.2.buffer ∉ s.left
  left : ∀ allocation ∈ s.freed, allocation ∈ s.left
  own : ∀ removal ∈ s.removals, ∀ allocation, removal.intended = some allocation →
    removal.allocation = allocation
  keys : ∀ pointer allocation, s.Holds pointer allocation → s.KeyOk pointer allocation
  released : ∀ stream number pointer, (number, .release pointer) ∈ s.queues stream →
    ∀ entry ∈ s.table.entries, entry.1 ≠ pointer
  pending : ∀ pointer ∈ s.pendingAsyncFrees,
    (∃ i allocation stream, s.threads i = .claimed pointer allocation stream) ∨
      ∃ stream, Owned (s.queues stream) pointer
  returned : ∀ pointer allocation buffer, s.Holds pointer allocation → s.Unreturned buffer →
    allocation ≠ some buffer
  aliasing : ∀ i buffer base aliasBase size, s.threads i = .aliasing buffer base aliasBase size →
    s.AliasOk buffer base aliasBase size
  apart : ∀ i j buffer base aliasBase size base' aliasBase' size',
    s.threads i = .aliasing buffer base aliasBase size →
    s.threads j = .aliasing buffer base' aliasBase' size' → i = j

theorem tableInvariant_initial : TableInvariant (initial : State ι σ) where
  bounded := AllocationTable.Bounded.initial
  sized := fun _ mem => absurd mem mem_empty
  used := fun _ mem => absurd mem mem_empty
  removed := fun _ mem => by cases mem
  once := nodup_nil
  gone := fun _ mem => absurd mem mem_empty
  left := fun _ mem => by cases mem
  own := fun _ mem => by cases mem
  keys := by
    rintro pointer allocation
      (⟨i, stream, phase⟩ | ⟨i, stream, phase⟩ | ⟨stream, number, before, mem⟩)
    · cases phase
    · cases phase
    · cases mem
  released := fun _ _ _ mem => by cases mem
  pending := fun _ mem => by cases mem
  returned := by
    rintro pointer allocation buffer - ⟨i, base, aliasBase, size, phase⟩
    cases phase
  aliasing := fun _ _ _ _ _ phase => by cases phase
  apart := fun _ _ _ _ _ _ _ _ _ phase => by cases phase

/-- What a thread that goes to a phase has to know. -/
structure TableInvariant.Enters (s : State ι σ) (i : ι) (phase : Phase σ) : Prop where
  holds : ∀ pointer allocation stream,
    phase = .resolved pointer allocation stream ∨ phase = .claimed pointer allocation stream →
      s.Holds pointer allocation ∨ (s.KeyOk pointer allocation ∧
        ∀ buffer, s.Unreturned buffer → allocation ≠ some buffer)
  aliasing : ∀ buffer base aliasBase size, phase ≠ .aliasing buffer base aliasBase size
  pending : ∀ pointer allocation stream, s.threads i = .claimed pointer allocation stream →
    pointer ∉ s.pendingAsyncFrees ∨ ∃ stream, Owned (s.queues stream) pointer

variable {i : ι} {phase : Phase σ} {buffer : Buffer} {pointer size : BitVec 64}
  {allocation : Option Buffer} {stream : σ}

theorem State.threads_setThread [DecidableEq ι] {j : ι} {found : Phase σ} :
    (s.setThread i phase).threads j = found ↔
      j = i ∧ phase = found ∨ j ≠ i ∧ s.threads j = found := by
  by_cases same : j = i <;> simp [setThread, same]

variable {queue : List (Nat × Item)} {base aliasBase : BitVec 64}

theorem State.mem_setQueue [DecidableEq σ] {other : σ} {item : Nat × Item} :
    item ∈ (s.setQueue stream queue).queues other ↔
      other = stream ∧ item ∈ queue ∨ other ≠ stream ∧ item ∈ s.queues other := by
  by_cases same : other = stream <;> simp [setQueue, same]

theorem State.AliasOk.mono (ok : s.AliasOk buffer base aliasBase size) (used : s.used ⊆ s'.used)
    (left : some buffer ∈ s'.left → some buffer ∈ s.left)
    (kept : ∀ entry ∈ s.table.entries, entry.2.buffer = some buffer → entry ∈ s'.table.entries) :
    s'.AliasOk buffer base aliasBase size := by
  obtain ⟨entry, mem, same, here⟩ := ok.recorded
  exact ⟨used ok.used, fun gone => ok.stays (left gone), ⟨entry, kept entry mem here, same, here⟩,
    ok.fits⟩

variable {nextWork number : Nat} {before : List Nat} {item : Item} {a : Action ι σ}

namespace TableInvariant

theorem Enters.quiet (phase_quiet : ∀ pointer allocation stream,
      phase ≠ .resolved pointer allocation stream ∧ phase ≠ .claimed pointer allocation stream)
    (aliasing : ∀ buffer base aliasBase size, phase ≠ .aliasing buffer base aliasBase size)
    (before : ∀ pointer allocation stream, s.threads i ≠ .claimed pointer allocation stream) :
    Enters s i phase where
  holds := by
    rintro pointer allocation stream (same | same)
    · exact absurd same (phase_quiet pointer allocation stream).1
    · exact absurd same (phase_quiet pointer allocation stream).2
  aliasing := aliasing
  pending := fun pointer allocation stream same => absurd same (before pointer allocation stream)

section

variable (inv : TableInvariant s)
include inv

/-- What is written down beside the threads, the queues and the table. -/
theorem frame {used : List Buffer} {freed : List (Option Buffer)} {pending : List (BitVec 64)}
    (more : s.used ⊆ used) (left : ∀ allocation ∈ freed, allocation ∈ s.left)
    (named : ∀ pointer ∈ pending, (∃ i allocation stream, s.threads i = .claimed pointer
      allocation stream) ∨ ∃ stream, Owned (s.queues stream) pointer) :
    TableInvariant { s with nextWork, used, freed, pendingAsyncFrees := pending } :=
  { inv with
    used := fun entry mem => by
      obtain ⟨buffer, mem, same⟩ := inv.used entry mem
      exact ⟨buffer, more mem, same⟩
    removed := fun allocation mem => by
      obtain ⟨buffer, mem, same⟩ := inv.removed allocation mem
      exact ⟨buffer, more mem, same⟩
    left := left
    pending := named
    aliasing := fun i buffer base aliasBase size found =>
      (inv.aliasing i buffer base aliasBase size found).mono more id fun _ mem _ => mem }

theorem setNextWork (nextWork : Nat) : TableInvariant { s with nextWork } :=
  inv.frame (Subset.refl _) inv.left inv.pending

theorem filterPending (pointer : BitVec 64) :
    TableInvariant
      { s with pendingAsyncFrees := s.pendingAsyncFrees.filter (· ≠ pointer) } :=
  inv.frame (Subset.refl _) inv.left fun other mem =>
    inv.pending other (mem_filter.mp mem).1

theorem consPending (claimed : s.threads i = .claimed pointer allocation stream) :
    TableInvariant { s with pendingAsyncFrees := pointer :: s.pendingAsyncFrees } := by
  refine inv.frame (Subset.refl _) inv.left fun other mem => ?_
  rcases mem_cons.mp mem with rfl | mem
  · exact .inl ⟨i, allocation, stream, claimed⟩
  · exact inv.pending other mem

theorem consFreed (left : allocation ∈ s.left) :
    TableInvariant { s with freed := allocation :: s.freed } := by
  refine inv.frame (Subset.refl _) (fun other mem => ?_) inv.pending
  rcases mem_cons.mp mem with rfl | mem
  · exact left
  · exact inv.left other mem

theorem consUsed (buffer : Buffer) : TableInvariant { s with used := buffer :: s.used } :=
  inv.frame (subset_cons_self _ _) inv.left inv.pending

end

variable {table : AllocationTable Buffer}

section

variable (inv : TableInvariant s)
include inv

theorem insert {isAlias : Bool} (unnamed : ¬ s.Named base)
    (inserted : s.table.insert base size .device 0 (some buffer) isAlias = .ok table)
    (fits : base.toNat + size.toNat < 2 ^ 64) (used : buffer ∈ s.used)
    (stays : some buffer ∉ s.left) : TableInvariant { s with table } := by
  have entries := mem_of_insert inserted fits
  have positive : size ≠ 0 := by
    have accepted := (insert_ok_iff.mp inserted).1
    simp only [AllocationTable.Refuses, not_or] at accepted
    exact accepted.2.1
  refine { inv with
      bounded := ?_, sized := ?_, used := ?_, gone := ?_, keys := ?_, released := ?_,
      aliasing := ?_ }
  · exact inv.bounded.insert inserted fits
  · intro entry mem
    rcases (entries entry).mp mem with rfl | mem
    · exact positive
    · exact inv.sized entry mem
  · intro entry mem
    rcases (entries entry).mp mem with rfl | mem
    · exact ⟨buffer, used, rfl⟩
    · exact inv.used entry mem
  · intro entry mem
    rcases (entries entry).mp mem with rfl | mem
    · exact stays
    · exact inv.gone entry mem
  · intro pointer allocation holds
    have other : pointer ≠ base := by
      rintro rfl
      exact unnamed (.inl ⟨allocation, holds⟩)
    rcases inv.keys pointer allocation holds with ⟨entry, mem, same, here⟩ | ⟨left, absent⟩
    · exact .inl ⟨entry, (entries entry).mpr (.inr mem), same, here⟩
    · refine .inr ⟨left, fun entry mem => ?_⟩
      rcases (entries entry).mp mem with rfl | mem
      · exact other.symm
      · exact absent entry mem
  · intro stream number pointer queued entry mem
    rcases (entries entry).mp mem with rfl | mem
    · rintro rfl
      exact unnamed (.inr ⟨stream, number, .inr queued⟩)
    · exact inv.released stream number pointer queued entry mem
  · intro i other base' aliasBase' size' found
    exact (inv.aliasing i other base' aliasBase' size' found).mono (Subset.refl _) id
      fun entry mem _ => (entries entry).mpr (.inr mem)

/-- The ranges of an allocation that no `cudaMalloc` goes on to hand out leave the table. -/
theorem drop {removals : List Removal}
    (returned : ∀ buffer, s.Unreturned buffer → allocation ≠ some buffer)
    (more : ∀ other ∈ s.left, other ∈ removals.map Removal.allocation)
    (new : ∀ other ∈ removals.map Removal.allocation, other ∈ s.left ∨ other = allocation ∧ ∃
      entry ∈ s.table.entries, entry.2.buffer = allocation)
    (once : (removals.map Removal.allocation).Nodup)
    (own : ∀ removal ∈ removals, ∀ other, removal.intended = some other → removal.allocation =
      other)
    (held : ∀ pointer, s.Holds pointer allocation → allocation ∈ removals.map Removal.allocation) :
    TableInvariant
      { s with table := s.table.filter fun entry => entry.2.buffer ≠ allocation, removals } := by
  have kept : ∀ entry, entry ∈ (s.table.filter fun entry => entry.2.buffer ≠ allocation).entries ↔
      entry ∈ s.table.entries ∧ entry.2.buffer ≠ allocation := fun entry =>
    OrderedMap.mem_filter.trans (by simp)
  refine { inv with
      bounded := ?_, sized := ?_, used := ?_, removed := ?_, once := once, gone := ?_, left := ?_,
      own := own, keys := ?_, released := ?_, aliasing := ?_ }
  · exact inv.bounded.filter _
  · exact fun entry mem => inv.sized entry ((kept entry).mp mem).1
  · exact fun entry mem => inv.used entry ((kept entry).mp mem).1
  · intro other mem
    rcases new other mem with left | ⟨rfl, entry, found, rfl⟩
    · exact inv.removed other left
    · exact inv.used entry found
  · intro entry mem left
    obtain ⟨mem, different⟩ := (kept entry).mp mem
    rcases new _ left with left | ⟨same, -⟩
    · exact inv.gone entry mem left
    · exact different same
  · exact fun other mem => more other (inv.left other mem)
  · intro pointer other holds
    rcases inv.keys pointer other holds with ⟨entry, mem, same, here⟩ | ⟨left, absent⟩
    · by_cases dropped : other = allocation
      · subst dropped
        refine .inr ⟨held pointer holds, fun entry' mem' same' => ?_⟩
        obtain ⟨mem', different⟩ := (kept entry').mp mem'
        rw [eq_of_key mem' mem (same'.trans same.symm)] at different
        exact different here
      · exact .inl ⟨entry, (kept entry).mpr ⟨mem, here ▸ dropped⟩, same, here⟩
    · exact .inr ⟨more other left, fun entry mem => absent entry ((kept entry).mp mem).1⟩
  · exact fun stream number pointer queued entry mem =>
      inv.released stream number pointer queued entry ((kept entry).mp mem).1
  · intro i other base aliasBase size found
    have different : some other ≠ allocation :=
      (returned other ⟨i, base, aliasBase, size, found⟩).symm
    refine (inv.aliasing i other base aliasBase size found).mono (Subset.refl _)
      (fun left => (new _ left).resolve_right fun same => different same.1)
      fun entry mem here => (kept entry).mpr ⟨mem, here ▸ different⟩

/-- The ranges of a buffer that nobody frees or allocates leave the table again. -/
theorem withdraw (unheld : ∀ pointer, ¬ s.Holds pointer (some buffer))
    (alone : ¬ s.Unreturned buffer) :
    TableInvariant
      { s with table := s.table.filter fun entry => entry.2.buffer ≠ some buffer } := by
  refine inv.drop ?_ (fun _ => id) (fun _ => .inl) inv.once inv.own fun pointer holds =>
    absurd holds (unheld pointer)
  rintro other unreturned ⟨⟩
  exact alone unreturned

/-- An erasure either finds the allocation at the address, or changes nothing. -/
theorem eraseFor_cases (pointer : BitVec 64) (intended : Option (Option Buffer))
    (before : List Nat) :
    (∃ found ∈ s.table.entries, found.1 = pointer ∧
      s.table.find pointer = some found ∧
      s.eraseFor settings pointer intended before =
        { s with
          table := s.table.filter fun entry => entry.2.buffer ≠ found.2.buffer
          removals := s.removals ++
            [⟨found.2.buffer, intended, before.filter (· ∈ s.outstanding settings)⟩] }) ∨
      ((∀ entry ∈ s.table.entries, entry.1 ≠ pointer) ∧ s.table.find pointer = none ∧
        s.eraseFor settings pointer intended before = s) := by
  cases search : s.table.find pointer with
  | none =>
    refine .inr ⟨find_eq_none_iff.mp search, rfl, ?_⟩
    simp [eraseFor, search]
  | some found =>
    obtain ⟨mem, same⟩ := find_eq_some_iff.mp search
    have nonzero : pointer ≠ 0 := same ▸ inv.bounded.base found mem
    refine .inl ⟨found, mem, same, rfl, ?_⟩
    have erased : s.table.erase pointer =
        some (s.table.filter fun entry => entry.2.buffer ≠ found.2.buffer) :=
      same ▸ erase_of_mem mem (same ▸ nonzero)
    simp only [eraseFor, search, erased]

/-- A free erases the allocation at an address that a `cudaMalloc` has returned. -/
theorem eraseFor {intended : Option (Option Buffer)} (returned : s.Returned pointer)
    (own : ∀ allocation, intended = some allocation → s.KeyOk pointer allocation) :
    TableInvariant (s.eraseFor settings pointer intended before) := by
  rcases inv.eraseFor_cases pointer intended before with
    ⟨found, found_mem, found_key, -, erased⟩ | ⟨-, -, same⟩
  swap
  · rw [same]
    exact inv
  rw [erased]
  refine inv.drop (returned found found_mem found_key) ?_ ?_ ?_ ?_ ?_
  · intro other left
    rw [map_append]
    exact mem_append_left _ left
  · intro other mem
    rw [map_append] at mem
    exact (mem_append.mp mem).imp id fun mem =>
      ⟨mem_singleton.mp mem, found, found_mem, rfl⟩
  · rw [map_append]
    refine nodup_append.mpr ⟨inv.once, by simp, ?_⟩
    rintro allocation left _ (mem : _ ∈ [found.2.buffer]) rfl
    rw [mem_singleton.mp mem] at left
    exact inv.gone found found_mem left
  · intro removal mem allocation intends
    rcases mem_append.mp mem with mem | mem
    · exact inv.own removal mem allocation intends
    · rw [mem_singleton.mp mem] at intends ⊢
      rcases own allocation intends with ⟨entry, mem, same, here⟩ | ⟨-, absent⟩
      · rw [← eq_of_key mem found_mem (same.trans found_key.symm)]
        exact here
      · exact absurd found_key (absent found found_mem)
  · simp

/-- The address of a free that goes on belongs to a returned allocation. -/
theorem returned_of_holds (holds : s.Holds pointer allocation) : s.Returned pointer := by
  intro entry mem same buffer unreturned here
  rcases inv.keys pointer allocation holds with ⟨other, mem', same', here'⟩ | ⟨-, absent⟩
  · rw [eq_of_key mem' mem (same'.trans same.symm), here] at here'
    exact inv.returned pointer allocation buffer holds unreturned here'.symm
  · exact absent entry mem same

theorem fresh (fresh : buffer ∉ s.used) :
    some buffer ∉ s.left ∧ (∀ pointer, ¬ s.Holds pointer (some buffer)) ∧
      ¬ s.Unreturned buffer := by
  have stays : some buffer ∉ s.left := by
    intro left
    obtain ⟨other, used, same⟩ := inv.removed _ left
    cases same
    exact fresh used
  refine ⟨stays, ?_, ?_⟩
  · intro pointer holds
    rcases inv.keys pointer _ holds with ⟨entry, mem, -, here⟩ | ⟨left, -⟩
    · obtain ⟨other, used, same⟩ := inv.used entry mem
      rw [here] at same
      cases same
      exact fresh used
    · exact stays left
  · rintro ⟨i, base, aliasBase, size, found⟩
    exact fresh (inv.aliasing i buffer base aliasBase size found).used

end

/-! ### Threads -/

section Threads

variable [DecidableEq ι]

theorem unreturned_of_setThread
    (enters : Enters s i phase) (unreturned : (s.setThread i phase).Unreturned buffer) :
    s.Unreturned buffer := by
  obtain ⟨j, base, aliasBase, size, aliasing⟩ := unreturned
  rcases threads_setThread.mp aliasing with ⟨-, same⟩ | ⟨-, aliasing⟩
  · exact absurd same (enters.aliasing _ _ _ _)
  · exact ⟨j, base, aliasBase, size, aliasing⟩

theorem holds_of_setThread (holds : (s.setThread i phase).Holds pointer allocation) :
    s.Holds pointer allocation ∨ ∃ stream,
      phase = .resolved pointer allocation stream ∨ phase = .claimed pointer allocation stream := by
  rcases holds with ⟨j, stream, found⟩ | ⟨j, stream, found⟩ | queued
  · rcases threads_setThread.mp found with ⟨-, same⟩ | ⟨-, found⟩
    · exact .inr ⟨stream, .inl same⟩
    · exact .inl (.inl ⟨j, stream, found⟩)
  · rcases threads_setThread.mp found with ⟨-, same⟩ | ⟨-, found⟩
    · exact .inr ⟨stream, .inr same⟩
    · exact .inl (.inr (.inl ⟨j, stream, found⟩))
  · exact .inl (.inr (.inr queued))

section

variable (inv : TableInvariant s)
include inv

/-- A thread goes to any phase: the frees that then go on are known, and so is its own buffer. -/
theorem setPhase
    (holds : ∀ pointer allocation, (s.setThread i phase).Holds pointer allocation → s.KeyOk
      pointer allocation ∧ ∀ buffer, (s.setThread i phase).Unreturned buffer → allocation ≠ some
      buffer)
    (aliasing : ∀ buffer base aliasBase size, phase = .aliasing buffer base aliasBase size →
      s.AliasOk buffer base aliasBase size ∧ ¬ s.Unreturned buffer)
    (pending : ∀ pointer allocation stream, s.threads i = .claimed pointer allocation stream →
      pointer ∉ s.pendingAsyncFrees ∨ ∃ stream, Owned (s.queues stream) pointer) :
    TableInvariant (s.setThread i phase) := by
  refine { inv with
      keys := ?_, pending := ?_, returned := ?_, aliasing := ?_, apart := ?_ }
  · exact fun pointer allocation found => (holds pointer allocation found).1
  · intro pointer mem
    rcases inv.pending pointer mem with ⟨j, allocation, stream, claimed⟩ | owned
    · by_cases same : j = i
      · subst same
        rcases pending pointer allocation stream claimed with absent | owned
        · exact absurd mem absent
        · exact .inr owned
      · exact .inl ⟨j, allocation, stream, threads_setThread.mpr (.inr ⟨same, claimed⟩)⟩
    · exact .inr owned
  · exact fun pointer allocation buffer found => (holds pointer allocation found).2 buffer
  · intro j buffer base aliasBase size found
    have ok : s.AliasOk buffer base aliasBase size := by
      rcases threads_setThread.mp found with ⟨-, same⟩ | ⟨-, found⟩
      · exact (aliasing _ _ _ _ same).1
      · exact inv.aliasing j buffer base aliasBase size found
    exact ok.mono (Subset.refl _) id fun _ mem _ => mem
  · intro j k buffer base aliasBase size base' aliasBase' size' found found'
    rcases threads_setThread.mp found with ⟨first, same⟩ | ⟨-, old⟩ <;>
      rcases threads_setThread.mp found' with ⟨second, same'⟩ | ⟨-, old'⟩
    · exact first.trans second.symm
    · exact absurd ⟨k, base', aliasBase', size', old'⟩ (aliasing _ _ _ _ same).2
    · exact absurd ⟨j, base, aliasBase, size, old⟩ (aliasing _ _ _ _ same').2
    · exact inv.apart j k buffer base aliasBase size base' aliasBase' size' old old'

theorem setThread (enters : Enters s i phase) : TableInvariant (s.setThread i phase) := by
  refine inv.setPhase (fun pointer allocation found => ?_)
    (fun _ _ _ _ same => absurd same (enters.aliasing _ _ _ _)) enters.pending
  have known : s.KeyOk pointer allocation ∧
      ∀ buffer, s.Unreturned buffer → allocation ≠ some buffer := by
    have old : s.Holds pointer allocation → s.KeyOk pointer allocation ∧
        ∀ buffer, s.Unreturned buffer → allocation ≠ some buffer := fun holds =>
      ⟨inv.keys pointer allocation holds,
        fun buffer => inv.returned pointer allocation buffer holds⟩
    rcases holds_of_setThread found with holds | ⟨stream, same⟩
    · exact old holds
    · exact (enters.holds pointer allocation stream same).elim old id
  exact ⟨known.1, fun buffer unreturned =>
    known.2 buffer (unreturned_of_setThread enters unreturned)⟩

/-- The call returns. -/
theorem setIdle
    (before : ∀ pointer allocation stream, s.threads i ≠ .claimed pointer allocation stream) :
    TableInvariant (s.setThread i .idle) :=
  inv.setThread (.quiet (by simp) (by simp) before)

/-- The first range of a new buffer, whose `cudaMalloc` goes on to the second one. -/
theorem setAliasing (used : buffer ∈ s.used) (stays : some buffer ∉ s.left)
    (recorded : ∃ entry ∈ s.table.entries, entry.1 = base ∧ entry.2.buffer = some buffer)
    (fits : aliasBase.toNat + size.toNat < 2 ^ 64) (idle : s.threads i = .idle)
    (unheld : ∀ pointer, ¬ s.Holds pointer (some buffer)) (alone : ¬ s.Unreturned buffer) :
    TableInvariant (s.setThread i (.aliasing buffer base aliasBase size)) := by
  refine inv.setPhase (fun pointer allocation found => ?_) ?_ (by simp [idle])
  · have held : s.Holds pointer allocation := by
      rcases holds_of_setThread found with holds | ⟨stream, same | same⟩
      · exact holds
      · cases same
      · cases same
    refine ⟨inv.keys pointer allocation held, ?_⟩
    rintro other ⟨j, base', aliasBase', size', coming⟩ rfl
    rcases threads_setThread.mp coming with ⟨-, ⟨⟩⟩ | ⟨-, coming⟩
    · exact unheld pointer held
    · exact inv.returned pointer _ other held ⟨j, base', aliasBase', size', coming⟩ rfl
  · rintro _ _ _ _ ⟨⟩
    exact ⟨⟨used, stays, recorded, fits⟩, alone⟩

theorem malloc (unnamed : ¬ s.Named (settings.base buffer)) (idle : s.threads i = .idle)
    (allocates : Allocates settings s.used buffer size)
    (inserted : s.table.insert (settings.base buffer) size .device 0 (some buffer) false = .ok
      table) :
    TableInvariant
      (({ { s with used := buffer :: s.used } with table } : State ι σ).setThread i
        (.aliasing buffer (settings.base buffer) (settings.aliasBase buffer) size)) := by
  obtain ⟨stays, unheld, alone⟩ := inv.fresh allocates.fresh
  have base_fits : (settings.base buffer).toNat + size.toNat < 2 ^ 64 := by
    unfold Settings.base
    split
    · exact allocates.deviceAddress
    · exact allocates.contents
  have alias_fits : (settings.aliasBase buffer).toNat + size.toNat < 2 ^ 64 := by
    unfold Settings.aliasBase
    split
    · exact allocates.deviceAddress
    · exact allocates.contents
  have recorded : ∃ entry ∈ table.entries, entry.1 = settings.base buffer ∧
      entry.2.buffer = some buffer := by
    obtain ⟨-, rfl⟩ := insert_ok_iff.mp inserted
    exact ⟨_, (mem_assign ..).mpr (.inl rfl), rfl, rfl⟩
  have started : TableInvariant ({ { s with used := buffer :: s.used } with table } : State ι σ) :=
    (inv.consUsed buffer).insert unnamed inserted base_fits (by simp) stays
  exact started.setAliasing (by simp) stays recorded alias_fits idle unheld alone

end

end Threads

/-! ### Streams -/

variable [DecidableEq σ]

section

variable (inv : TableInvariant s)
include inv

/-- A queue whose callbacks are known, and which still owns what it owned. -/
theorem setQueue
    (holds : ∀ number pointer allocation before, (number, .free pointer allocation before) ∈ queue
      → s.Holds pointer allocation)
    (released : ∀ number pointer, (number, .release pointer) ∈ queue → ∀ entry ∈ s.table.entries,
      entry.1 ≠ pointer)
    (owned : ∀ pointer ∈ s.pendingAsyncFrees, Owned (s.queues stream) pointer → Owned queue
      pointer) : TableInvariant (s.setQueue stream queue) := by
  have old : ∀ pointer allocation, (s.setQueue stream queue).Holds pointer allocation →
      s.Holds pointer allocation := by
    rintro pointer allocation (resolved | claimed | ⟨other, number, before, mem⟩)
    · exact .inl resolved
    · exact .inr (.inl claimed)
    · rcases mem_setQueue.mp mem with ⟨-, mem⟩ | ⟨-, mem⟩
      · exact holds number pointer allocation before mem
      · exact .inr (.inr ⟨other, number, before, mem⟩)
  refine { inv with
      keys := ?_, released := ?_, pending := ?_, returned := ?_, aliasing := ?_ }
  · exact fun pointer allocation holds => inv.keys pointer allocation (old pointer allocation holds)
  · intro other number pointer mem
    rcases mem_setQueue.mp mem with ⟨-, mem⟩ | ⟨-, mem⟩
    · exact released number pointer mem
    · exact inv.released other number pointer mem
  · intro pointer mem
    rcases inv.pending pointer mem with claimed | ⟨other, found⟩
    · exact .inl claimed
    · refine .inr ⟨other, ?_⟩
      by_cases same : other = stream
      · subst same
        simpa [setQueue] using owned pointer mem found
      · simpa [State.setQueue, same] using found
  · exact fun pointer allocation buffer holds unreturned =>
      inv.returned pointer allocation buffer (old pointer allocation holds) unreturned
  · exact fun i buffer base aliasBase size found =>
      (inv.aliasing i buffer base aliasBase size found).mono (Subset.refl _) id
        fun _ mem _ => mem

/-- An item at the end of a stream, which is no callback or one for an allocation that is held. -/
theorem enqueue
    (holds : ∀ pointer allocation before, item = .free pointer allocation before → s.Holds pointer
      allocation) (fresh : ∀ pointer, item ≠ .release pointer) :
    TableInvariant (s.enqueue stream item) := by
  refine (inv.setQueue ?_ ?_ ?_).setNextWork _
  · intro number pointer allocation before mem
    rcases mem_append.mp mem with mem | mem
    · exact .inr (.inr ⟨stream, number, before, mem⟩)
    · cases mem_singleton.mp mem
      exact holds pointer allocation before rfl
  · intro number pointer mem
    rcases mem_append.mp mem with mem | mem
    · exact inv.released stream number pointer mem
    · cases mem_singleton.mp mem
      exact absurd rfl (fresh pointer)
  · rintro pointer - ⟨number, ⟨allocation, before, mem⟩ | mem⟩
    · exact ⟨number, .inl ⟨allocation, before, mem_append_left _ mem⟩⟩
    · exact ⟨number, .inr (mem_append_left _ mem)⟩

/-- The first item leaves its stream, which is no callback of a free that is pending. -/
theorem setRest {rest : List (Nat × Item)} (queue : s.queues stream = (number, item) :: rest)
    (lost : ∀ pointer ∈ s.pendingAsyncFrees, (∀ allocation before, item ≠ .free pointer allocation
      before) ∧ item ≠ .release pointer) : TableInvariant (s.setQueue stream rest) := by
  have fewer : ∀ item ∈ rest, item ∈ s.queues stream := fun item mem => by simp [queue, mem]
  refine inv.setQueue (fun number pointer allocation before mem => ?_)
    (fun number pointer mem => inv.released stream number pointer (fewer _ mem)) ?_
  · exact .inr (.inr ⟨stream, number, before, fewer _ mem⟩)
  · rintro pointer pending ⟨number', ⟨allocation, before, mem⟩ | mem⟩ <;>
      rw [queue] at mem <;> rcases mem_cons.mp mem with same | mem
    · cases same
      exact absurd rfl ((lost pointer pending).1 allocation before)
    · exact ⟨number', .inl ⟨allocation, before, mem⟩⟩
    · cases same
      exact absurd rfl (lost pointer pending).2
    · exact ⟨number', .inr mem⟩

theorem finish (stepped : s.finish settings stream = some s') : TableInvariant s' := by
  unfold State.finish at stepped
  split at stepped
  · cases stepped
  next number isHostFunction rest queue =>
    cases stepped
    exact inv.setRest queue (by simp)
  next number pointer allocation before rest queue =>
    cases stepped
    have fewer : ∀ item ∈ rest, item ∈ s.queues stream := fun item mem => by simp [queue, mem]
    have holds : s.Holds pointer allocation :=
      .inr (.inr ⟨stream, number, before, by simp [queue]⟩)
    have key := inv.keys pointer allocation holds
    have erased : TableInvariant (s.eraseFor settings pointer (some allocation) before) :=
      inv.eraseFor (inv.returned_of_holds holds) (by rintro _ ⟨⟩; exact key)
    have gone : allocation ∈ (s.eraseFor settings pointer (some allocation) before).left ∧
        ∀ entry ∈ (s.eraseFor settings pointer (some allocation) before).table.entries,
          entry.1 ≠ pointer := by
      rcases @eraseFor_cases _ _ _ settings inv pointer (some allocation) before with
        ⟨found, found_mem, found_key, -, same⟩ | ⟨absent, -, same⟩
      · rcases key with ⟨entry, mem, at_pointer, here⟩ | ⟨-, absent⟩
        · rw [eq_of_key mem found_mem (at_pointer.trans found_key.symm)] at here
          rw [same]
          refine ⟨by simp [State.left, here], fun other mem at_pointer => ?_⟩
          obtain ⟨mem, different⟩ := OrderedMap.mem_filter.mp mem
          rw [eq_of_key mem found_mem (at_pointer.trans found_key.symm)] at different
          simp at different
        · exact absurd found_key (absent found found_mem)
      · rw [same]
        rcases key with ⟨entry, mem, at_pointer, -⟩ | ⟨left, -⟩
        · exact absurd at_pointer (absent entry mem)
        · exact ⟨left, absent⟩
    have freed := erased.consFreed gone.1
    rw [eraseFor_freed] at freed
    refine freed.setQueue ?_ ?_ ?_
    · intro number' pointer' allocation' before' mem
      rcases mem_cons.mp mem with same | mem
      · cases same
      · exact .inr (.inr ⟨stream, number', before', by simpa using fewer _ mem⟩)
    · intro number' pointer' mem
      rcases mem_cons.mp mem with same | mem
      · cases same
        exact gone.2
      · exact freed.released stream number' pointer' (by simpa using fewer _ mem)
    · simp only [eraseFor_queues]
      rintro pointer' - ⟨number', ⟨allocation', before', mem⟩ | mem⟩ <;>
        rw [queue] at mem <;> rcases mem_cons.mp mem with same | mem
      · cases same
        exact ⟨number, .inr (by simp)⟩
      · exact ⟨number', .inl ⟨allocation', before', by simp [mem]⟩⟩
      · cases same
      · exact ⟨number', .inr (by simp [mem])⟩
  next number pointer rest queue =>
    cases stepped
    refine (inv.filterPending pointer).setRest queue fun other pending => ⟨by simp, ?_⟩
    rintro ⟨⟩
    simp at pending

end

/-! ### The steps -/

variable [DecidableEq ι]

theorem advance (inv : TableInvariant s) (exclusive : Exclusive settings s (.advance i))
    (stepped : s.advance settings i = some s') : TableInvariant s' := by
  unfold State.advance at stepped
  cases phase : s.threads i with
  | idle => simp [phase] at stepped
  | aliasing buffer base aliasBase size =>
    simp only [phase] at stepped
    have unnamed : ¬ s.Named aliasBase := by simpa [Exclusive, phase] using exclusive
    obtain ⟨used, stays, ⟨entry, mem, same, here⟩, fits⟩ :=
      inv.aliasing i buffer base aliasBase size phase
    have idle : TableInvariant (s.setThread i .idle) := inv.setIdle (by simp [phase])
    split at stepped
    · split at stepped
      next table inserted =>
        cases stepped
        exact (inv.insert unnamed inserted fits used stays).setIdle (by simp [phase])
      next =>
        cases stepped
        have alone : ¬ (s.setThread i .idle).Unreturned buffer := by
          rintro ⟨j, base', aliasBase', size', found⟩
          by_cases other : j = i
          · subst other
            simp [State.setThread] at found
          · refine other (inv.apart j i buffer base' aliasBase' size' base aliasBase size ?_ phase)
            simpa [State.setThread, other] using found
        have unheld : ∀ pointer, ¬ (s.setThread i .idle).Holds pointer (some buffer) := by
          intro pointer holds
          rcases holds_of_setThread holds with holds | ⟨stream, same | same⟩
          · exact inv.returned pointer _ buffer holds ⟨i, base, aliasBase, size, phase⟩ rfl
          · cases same
          · cases same
        have withdrawn := idle.withdraw unheld alone
        have erased : s.table.erase base =
            some (s.table.filter fun entry => entry.2.buffer ≠ some buffer) := by
          have found : s.table.find base = some entry :=
            find_eq_some_iff.mpr ⟨mem, same⟩
          have nonzero : base ≠ 0 := same ▸ inv.bounded.base entry mem
          rw [AllocationTable.erase, if_neg nonzero, found]
          simp only [here]
        rw [erased]
        exact withdrawn
    · cases stepped
      exact idle
  | resolved pointer allocation stream =>
    simp only [phase] at stepped
    split at stepped <;> cases stepped
    · exact inv.setIdle (by simp [phase])
    · have claimed : TableInvariant (s.setThread i (.claimed pointer allocation stream)) := by
        refine inv.setThread ⟨?_, by simp, by simp [phase]⟩
        rintro other allocation' stream' (same | same)
        · cases same
        · cases same
          exact Or.inl (Or.inl ⟨i, stream, phase⟩)
      have thread : (s.setThread i (.claimed pointer allocation stream)).threads i =
          .claimed pointer allocation stream := by simp [State.setThread]
      exact claimed.consPending thread
  | claimed pointer allocation stream =>
    simp only [phase] at stepped
    cases stepped
    have holds : s.Holds pointer allocation := Or.inr (Or.inl ⟨i, stream, phase⟩)
    have queued : TableInvariant
        (s.enqueue stream (.free pointer allocation (numbers (s.queues stream)))) := by
      refine inv.enqueue (fun other allocation' before same => ?_) (by simp)
      cases same
      exact holds
    refine queued.setThread ⟨by simp, by simp, ?_⟩
    intro other allocation' stream' same
    have same : s.threads i = .claimed other allocation' stream' := same
    rw [phase] at same
    cases same
    refine Or.inr ⟨stream, s.nextWork, Or.inl ⟨allocation, numbers (s.queues stream), ?_⟩⟩
    simp [State.enqueue, State.setQueue]
  | hostWait pointer before stream rest =>
    simp only [phase] at stepped
    split at stepped
    · cases stepped
    · cases stepped
      exact inv.setThread (.quiet (by simp) (by simp) (by simp [phase]))
  | ticketWait pointer before stream awaited rest =>
    simp only [phase] at stepped
    split at stepped
    · cases stepped
    · cases stepped
      cases rest <;> exact inv.setThread
        (.quiet (by simp [drainNext]) (by simp [drainNext]) (by simp [phase]))
  | erasing pointer before =>
    simp only [phase] at stepped
    have returned : s.Returned pointer := by simpa [Exclusive, phase] using exclusive
    split at stepped
    · cases stepped
      exact inv.setIdle (by simp [phase])
    next found search =>
      cases stepped
      have erased : TableInvariant (s.eraseFor settings pointer none before) :=
        inv.eraseFor returned (by simp)
      have gone : found.2.buffer ∈ (s.eraseFor settings pointer none before).left := by
        rcases @eraseFor_cases _ _ _ settings inv pointer none before with
          ⟨other, -, -, search', erased⟩ | ⟨-, search', -⟩
        · rw [search] at search'
          cases search'
          rw [erased]
          simp [State.left]
        · rw [search] at search'
          cases search'
      have freed := erased.consFreed gone
      rw [State.eraseFor_freed] at freed
      exact freed.setIdle (by simp [phase])

theorem step (inv : TableInvariant s) (exclusive : Exclusive settings s a)
    (stepped : step settings s a = some s') : TableInvariant s' := by
  cases a with
  | malloc i buffer size =>
    simp only [step] at stepped
    split at stepped
    next idle =>
      split at stepped
      next allocates =>
        split at stepped
        · cases stepped
          exact inv.consUsed buffer
        next inserted =>
          cases stepped
          exact inv.malloc exclusive idle allocates inserted
      · cases stepped
    · cases stepped
  | free i pointer =>
    simp only [step] at stepped
    split at stepped
    next idle =>
      split at stepped <;> cases stepped
      · exact inv
      · cases settings.live <;> exact inv.setThread
          (.quiet (by simp [drainNext]) (by simp [drainNext]) (by simp [idle]))
    · cases stepped
  | freeAsync i pointer stream =>
    simp only [step] at stepped
    split at stepped
    next idle =>
      split at stepped
      · split at stepped
        · cases stepped
          exact inv
        next resolved found =>
          split at stepped <;> cases stepped
          · exact inv
          next at_base =>
            have at_base : resolved.offset = 0 := by simpa using at_base
            obtain ⟨entry, mem, contains, -, buffer, -, -, offset, -⟩ :=
              inv.bounded.resolvesExactly.found pointer resolved found
            have same : entry.1 = pointer := by
              apply BitVec.eq_of_toNat_eq
              have low := contains.1
              rw [at_base] at offset
              simp only [BitVec.ofNat_eq_ofNat, BitVec.toNat_ofNat, Nat.zero_mod] at offset
              omega
            refine inv.setThread ⟨?_, by simp, by simp [idle]⟩
            rintro other allocation stream' (same' | same')
            · cases same'
              refine .inr ⟨.inl ⟨entry, mem, same, buffer.symm⟩, ?_⟩
              intro unreturnedBuffer unreturned here
              exact exclusive entry mem same unreturnedBuffer unreturned (buffer ▸ here)
            · cases same'
      · cases stepped
    · cases stepped
  | advance i => exact inv.advance exclusive stepped
  | backendError i =>
    simp only [step] at stepped
    split at stepped
    next phase =>
      cases stepped
      exact inv.setIdle (by simp [phase])
    next pointer allocation stream phase =>
      cases stepped
      refine (inv.filterPending pointer).setThread ⟨by simp, by simp, ?_⟩
      intro other allocation' stream' same
      have same : s.threads i = .claimed other allocation' stream' := same
      rw [phase] at same
      cases same
      exact .inl (by simp)
    · cases stepped
  | submit stream isHostFunction =>
    simp only [step] at stepped
    split at stepped
    · cases stepped
      exact inv.enqueue (by simp) (by simp)
    · cases stepped
  | finish stream => exact inv.finish stepped

end TableInvariant

/-- A refusal is right: the allocation is not in the table, or somebody is freeing it. -/
theorem TableInvariant.not_wronglyRefuses (inv : TableInvariant s) (a : Action ι σ) :
    ¬ WronglyRefuses s a := by
  cases a with
  | freeAsync i pointer stream =>
    rintro ⟨⟨entry, mem, same⟩, refused⟩
    have contains : AllocationTable.Contains entry pointer := by
      have positive : entry.2.size.toNat ≠ 0 := fun zero =>
        inv.sized entry mem (BitVec.eq_of_toNat_eq (by simpa using zero))
      rw [AllocationTable.Contains, same]
      omega
    cases found : s.table.resolve pointer with
    | none => exact inv.bounded.resolvesExactly.missing pointer found entry mem contains
    | some resolved =>
      obtain ⟨other, other_mem, -, unique, -, -, -, offset, -⟩ :=
        inv.bounded.resolvesExactly.found pointer resolved found
      have := unique entry mem contains
      subst this
      refine refused resolved found (BitVec.eq_of_toNat_eq ?_)
      rw [offset, same]
      simp
  | advance i =>
    rintro ⟨pointer, allocation, stream, phase, pending, ⟨entry, mem, here⟩, unclaimed⟩
    have mine := inv.keys pointer allocation (.inl ⟨i, stream, phase⟩)
    obtain ⟨key, key_mem, at_pointer, key_here⟩ : ∃ key ∈ s.table.entries, key.1 = pointer ∧
        key.2.buffer = allocation := by
      rcases mine with found | ⟨left, -⟩
      · exact found
      · exact absurd (here ▸ left) (inv.gone entry mem)
    have claimed : ∀ other, s.Claimed pointer other → False := by
      intro other claimed
      rcases inv.keys pointer other (.inr claimed) with ⟨key', mem', same', here'⟩ | ⟨-, absent⟩
      · rw [eq_of_key mem' key_mem (same'.trans at_pointer.symm), key_here] at here'
        subst here'
        exact unclaimed pointer claimed
      · exact absent key key_mem at_pointer
    rcases inv.pending pointer pending with
      ⟨j, other, stream', owner⟩ | ⟨stream', number, ⟨other, before, owner⟩ | owner⟩
    · exact claimed other (.inl ⟨j, stream', owner⟩)
    · exact claimed other (.inr ⟨stream', number, before, owner⟩)
    · exact inv.released stream' number pointer owner key key_mem at_pointer
  | _ => exact id

/-! ## The order of the work -/

/-- Work that a `cudaFree` has to wait for and that is not done lies on a stream that it has still
to wait for. -/
def Phase.DrainOk (queues : σ → List (Nat × Item)) (nextWork : Nat) : Phase σ → Prop
  | .hostWait _ before stream rest => ∀ number ∈ before, number < nextWork ∧
      ∀ other, number ∈ numbers (queues other) → other ∈ stream :: rest
  | .ticketWait _ before stream awaited rest => ∀ number ∈ before, number < nextWork ∧
      ∀ other, number ∈ numbers (queues other) →
        other ∈ rest ∨ (other = stream ∧ number ∈ awaited)
  | .erasing _ before => ∀ number ∈ before, number < nextWork ∧
      ∀ other, number ∉ numbers (queues other)
  | _ => True

/-- The stream that a `cudaFreeAsync` is for. -/
def Phase.stream? : Phase σ → Option σ
  | .resolved _ _ stream | .claimed _ _ stream => some stream
  | _ => none

/-- The invariant of the streams. -/
structure OrderInvariant (settings : Settings σ) (s : State ι σ) : Prop where
  live : ∀ stream, s.queues stream ≠ [] → stream ∈ settings.live
  bound : ∀ stream, ∀ number ∈ numbers (s.queues stream), number < s.nextWork
  sorted : ∀ stream, (numbers (s.queues stream)).Pairwise (· < ·)
  disjoint : ∀ stream other number, number ∈ numbers (s.queues stream) →
    number ∈ numbers (s.queues other) → stream = other
  before : ∀ stream number pointer allocation before,
    (number, .free pointer allocation before) ∈ s.queues stream →
      ∀ earlier ∈ before, earlier < number ∧
        ∀ other, other ≠ stream → earlier ∉ numbers (s.queues other)
  drains : ∀ i, (s.threads i).DrainOk s.queues s.nextWork
  targets : ∀ i stream, (s.threads i).stream? = some stream → stream ∈ settings.live
  timely : ∀ removal ∈ s.removals, removal.late = []

theorem orderInvariant_initial : OrderInvariant settings (initial : State ι σ) where
  live := fun _ nonempty => absurd rfl nonempty
  bound := fun _ _ mem => by cases mem
  sorted := fun _ => Pairwise.nil
  disjoint := fun _ _ _ mem => by cases mem
  before := fun _ _ _ _ _ mem => by cases mem
  drains := fun _ => trivial
  targets := fun _ _ target => by cases target
  timely := fun _ mem => by cases mem

theorem Phase.DrainOk.mono {queues queues' : σ → List (Nat × Item)} {nextWork' : Nat}
    {phase : Phase σ} (ok : phase.DrainOk queues nextWork) (later : nextWork ≤ nextWork')
    (fewer : ∀ stream number, number < nextWork → number ∈ numbers (queues' stream) → number ∈
      numbers (queues stream)) : phase.DrainOk queues' nextWork' := by
  cases phase with
  | hostWait pointer before stream rest | ticketWait pointer before stream awaited rest =>
    intro number mem
    obtain ⟨bound, streams⟩ := ok number mem
    exact ⟨by omega, fun other found => streams other (fewer other number bound found)⟩
  | erasing pointer before =>
    intro number mem
    obtain ⟨bound, streams⟩ := ok number mem
    exact ⟨by omega, fun other found => streams other (fewer other number bound found)⟩
  | idle | aliasing | resolved | claimed => trivial

namespace OrderInvariant

theorem congr {settings : Settings σ} (inv : OrderInvariant settings s)
    (queues : s'.queues = s.queues) (nextWork : s'.nextWork = s.nextWork)
    (threads : s'.threads = s.threads) (timely : ∀ removal ∈ s'.removals, removal.late = []) :
    OrderInvariant settings s' where
  live := by rw [queues]; exact inv.live
  bound := by rw [queues, nextWork]; exact inv.bound
  sorted := by rw [queues]; exact inv.sorted
  disjoint := by rw [queues]; exact inv.disjoint
  before := by rw [queues]; exact inv.before
  drains := by rw [queues, nextWork, threads]; exact inv.drains
  targets := by rw [threads]; exact inv.targets
  timely := timely

theorem setThread [DecidableEq ι] (inv : OrderInvariant settings s) {i : ι} {phase : Phase σ}
    (drains : phase.DrainOk s.queues s.nextWork)
    (target : ∀ stream, phase.stream? = some stream → stream ∈ settings.live) :
    OrderInvariant settings (s.setThread i phase) :=
  { inv with
    drains := by
      intro j
      by_cases same : j = i
      · simpa [State.setThread, same] using drains
      · simpa [State.setThread, same] using inv.drains j
    targets := by
      intro j stream found
      by_cases same : j = i
      · exact target stream (by simpa [State.setThread, same] using found)
      · exact inv.targets j stream (by simpa [State.setThread, same] using found) }

variable {stream : σ}

theorem setQueue [DecidableEq σ] (inv : OrderInvariant settings s)
    (fewer : (numbers queue).Sublist (numbers (s.queues stream)))
    (frees : ∀ number pointer allocation before, (number, .free pointer allocation before) ∈ queue
      → (number, .free pointer allocation before) ∈ s.queues stream) :
    OrderInvariant settings (s.setQueue stream queue) := by
  have sub : ∀ other number, number ∈ numbers ((s.setQueue stream queue).queues other) →
      number ∈ numbers (s.queues other) := by
    intro other number mem
    by_cases same : other = stream
    · subst same
      exact fewer.subset (by simpa [setQueue] using mem)
    · simpa [State.setQueue, same] using mem
  constructor
  · intro other nonempty
    by_cases same : other = stream
    · subst same
      refine inv.live other fun empty => ?_
      rw [empty] at fewer
      have : queue = [] := by simpa [numbers] using sublist_nil.mp fewer
      simp [setQueue, this] at nonempty
    · exact inv.live other (by simpa [State.setQueue, same] using nonempty)
  · exact fun other number mem => inv.bound other number (sub other number mem)
  · intro other
    by_cases same : other = stream
    · subst same
      simpa [setQueue] using (inv.sorted other).sublist fewer
    · simpa [State.setQueue, same] using inv.sorted other
  · exact fun first second number mem mem' =>
      inv.disjoint first second number (sub first number mem) (sub second number mem')
  · intro other number pointer allocation before mem earlier earlier_mem
    have old : (number, .free pointer allocation before) ∈ s.queues other := by
      by_cases same : other = stream
      · subst same
        exact frees number pointer allocation before (by simpa [setQueue] using mem)
      · simpa [State.setQueue, same] using mem
    obtain ⟨less, elsewhere⟩ := inv.before other number pointer allocation before old earlier
      earlier_mem
    exact ⟨less, fun third different found =>
      elsewhere third different (sub third earlier found)⟩
  · exact fun i => (inv.drains i).mono (le_refl _) fun other number _ => sub other number
  · exact inv.targets
  · exact inv.timely

theorem enqueue [DecidableEq σ] (inv : OrderInvariant settings s) (live : stream ∈ settings.live)
    (before : ∀ pointer allocation before, item = .free pointer allocation before → before =
      numbers (s.queues stream)) : OrderInvariant settings (s.enqueue stream item) := by
  have members : ∀ other number, number ∈ numbers ((s.enqueue stream item).queues other) ↔
      number ∈ numbers (s.queues other) ∨ (other = stream ∧ number = s.nextWork) := by
    intro other number
    by_cases same : other = stream
    · subst same
      simp [State.enqueue, State.setQueue, numbers]
    · simp [State.enqueue, State.setQueue, same]
  constructor
  · intro other nonempty
    by_cases same : other = stream
    · exact same ▸ live
    · exact inv.live other (by simpa [State.enqueue, State.setQueue, same] using nonempty)
  · intro other number mem
    rcases (members other number).mp mem with mem | ⟨-, rfl⟩
    · exact Nat.lt_succ_of_lt (inv.bound other number mem)
    · exact Nat.lt_succ_self _
  · intro other
    by_cases same : other = stream
    · subst same
      have sorted := inv.sorted other
      have bound := inv.bound other
      simp only [State.enqueue, State.setQueue, Function.update_self, numbers, map_append,
        map_cons, map_nil] at sorted bound ⊢
      exact pairwise_append.mpr ⟨sorted, pairwise_singleton _ _, fun number mem last
        last_mem => by rw [mem_singleton.mp last_mem]; exact bound number mem⟩
    · simpa [State.enqueue, State.setQueue, same] using inv.sorted other
  · intro first second number mem mem'
    rcases (members first number).mp mem with old₁ | ⟨here₁, new₁⟩ <;>
      rcases (members second number).mp mem' with old₂ | ⟨here₂, new₂⟩
    · exact inv.disjoint first second number old₁ old₂
    · exact absurd (inv.bound first number old₁) (by omega)
    · exact absurd (inv.bound second number old₂) (by omega)
    · rw [here₁, here₂]
  · intro other number pointer allocation before' mem earlier earlier_mem
    have elsewhere : ∀ third, third ≠ other → earlier < s.nextWork →
        earlier ∉ numbers (s.queues third) →
          earlier ∉ numbers ((s.enqueue stream item).queues third) := by
      intro third different less absent found
      rcases (members third earlier).mp found with found | ⟨-, rfl⟩
      · exact absent found
      · exact lt_irrefl _ less
    have split : (number, Item.free pointer allocation before') ∈ s.queues other ∨
        (other = stream ∧ number = s.nextWork ∧ item = .free pointer allocation before') := by
      by_cases same : other = stream
      · subst same
        simp only [State.enqueue, State.setQueue, Function.update_self] at mem
        rcases mem_append.mp mem with mem | mem
        · exact Or.inl mem
        · cases mem_singleton.mp mem
          exact .inr ⟨rfl, rfl, rfl⟩
      · exact Or.inl (by simpa [State.enqueue, State.setQueue, same] using mem)
    rcases split with mem | ⟨rfl, rfl, same⟩
    · obtain ⟨less, absent⟩ := inv.before other number pointer allocation before' mem earlier
        earlier_mem
      have bound := inv.bound other number (mem_map_of_mem mem)
      exact ⟨less, fun third different =>
        elsewhere third different (by omega) (absent third different)⟩
    · rw [before pointer allocation before' same] at earlier_mem
      have bound := inv.bound other earlier earlier_mem
      exact ⟨bound, fun third different => elsewhere third different bound fun found =>
        different (inv.disjoint third other earlier found earlier_mem)⟩
  · intro i
    refine (inv.drains i).mono (Nat.le_succ _) fun other number less mem => ?_
    rcases (members other number).mp mem with mem | ⟨-, rfl⟩
    · exact mem
    · exact absurd less (lt_irrefl _)
  · exact inv.targets
  · exact inv.timely

variable {settings : Settings σ}

theorem mem_outstanding :
    number ∈ s.outstanding settings ↔
      ∃ stream ∈ settings.live, number ∈ numbers (s.queues stream) :=
  mem_flatMap

theorem eraseFor (inv : OrderInvariant settings s) (pointer : BitVec 64)
    (intended : Option (Option Buffer))
    (done : ∀ number ∈ before, ∀ stream, number ∉ numbers (s.queues stream)) :
    OrderInvariant settings (s.eraseFor settings pointer intended before) := by
  have nothing : before.filter (· ∈ s.outstanding settings) = [] := by
    rw [filter_eq_nil_iff]
    intro number mem found
    obtain ⟨stream, -, here⟩ := mem_outstanding.mp (of_decide_eq_true found)
    exact done number mem stream here
  refine inv.congr (by simp) (by simp) (by simp) ?_
  unfold State.eraseFor
  split
  · intro removal mem
    rcases mem_append.mp mem with mem | mem
    · exact inv.timely removal mem
    · rw [mem_singleton.mp mem]
      exact nothing
  · exact inv.timely

theorem drainNext (s : State ι σ) (pointer : BitVec 64) (rest : List σ)
    (waits : ∀ number ∈ before, number < s.nextWork ∧ ∀ other, number ∈ numbers (s.queues other) →
      other ∈ rest) :
    (drainNext pointer before rest).DrainOk s.queues s.nextWork ∧
      (drainNext pointer before rest).stream? = none := by
  cases rest with
  | nil =>
    refine ⟨fun number mem => ?_, rfl⟩
    obtain ⟨bound, streams⟩ := waits number mem
    exact ⟨bound, fun other found => not_mem_nil (streams other found)⟩
  | cons stream rest => exact ⟨waits, rfl⟩

theorem advance [DecidableEq ι] [DecidableEq σ] (inv : OrderInvariant settings s) {i : ι}
    (stepped : s.advance settings i = some s') : OrderInvariant settings s' := by
  have idle : ∀ {t : State ι σ}, OrderInvariant settings t →
      OrderInvariant settings (t.setThread i .idle) :=
    fun inv => inv.setThread trivial fun _ target => by cases target
  unfold State.advance at stepped
  cases phase : s.threads i with
  | idle => simp [phase] at stepped
  | aliasing buffer base aliasBase size =>
    simp only [phase] at stepped
    split at stepped
    · split at stepped <;> cases stepped
      · exact idle (inv.congr rfl rfl rfl inv.timely)
      · exact idle (inv.congr rfl rfl rfl inv.timely)
    · cases stepped
      exact idle inv
  | resolved pointer allocation stream =>
    simp only [phase] at stepped
    split at stepped
    · cases stepped
      exact idle inv
    · cases stepped
      refine OrderInvariant.setThread ?_ ?_ fun target same => ?_
      · exact inv.congr rfl rfl rfl inv.timely
      · trivial
      · exact inv.targets i target (by rw [phase]; exact same)
  | claimed pointer allocation stream =>
    simp only [phase] at stepped
    cases stepped
    refine idle (inv.enqueue (inv.targets i stream (by rw [phase]; rfl)) ?_)
    intro pointer' allocation' before same
    cases same
    rfl
  | hostWait pointer before stream rest =>
    have waits := inv.drains i
    simp only [phase] at stepped waits
    split at stepped
    · cases stepped
    · cases stepped
      refine inv.setThread (fun number mem => ?_) fun _ target => by cases target
      obtain ⟨bound, streams⟩ := waits number mem
      refine ⟨bound, fun other found => ?_⟩
      rcases mem_cons.mp (streams other found) with here | later
      · exact .inr ⟨here, here ▸ found⟩
      · exact .inl later
  | ticketWait pointer before stream awaited rest =>
    have waits := inv.drains i
    simp only [phase] at stepped waits
    split at stepped
    · cases stepped
    · rename_i reached
      cases stepped
      obtain ⟨ok, none⟩ := drainNext s pointer rest fun number mem => by
        obtain ⟨bound, streams⟩ := waits number mem
        refine ⟨bound, fun other found => ?_⟩
        rcases streams other found with later | ⟨here, waited⟩
        · exact later
        · exact absurd (any_eq_true.mpr ⟨number, waited, by
            simpa using here ▸ found⟩) reached
      exact inv.setThread ok fun _ target => by rw [none] at target; cases target
  | erasing pointer before =>
    have waits := inv.drains i
    simp only [phase] at stepped waits
    cases search : s.table.find pointer with
    | none =>
      simp only [search] at stepped
      cases stepped
      exact idle inv
    | some found =>
      simp only [search] at stepped
      cases stepped
      have erased := inv.eraseFor pointer none fun number mem => (waits number mem).2
      exact idle (erased.congr rfl rfl rfl erased.timely)

/-- The first item of a stream goes on. The work that was on the stream before a `cudaFreeAsync`
has smaller numbers than the callback, and so is done when the callback is the first item. -/
theorem finish [DecidableEq σ] (inv : OrderInvariant settings s)
    (stepped : s.finish settings stream = some s') : OrderInvariant settings s' := by
  unfold State.finish at stepped
  have sorted := inv.sorted stream
  cases queue : s.queues stream with
  | nil => simp [queue] at stepped
  | cons item rest =>
    obtain ⟨number, item⟩ := item
    have fewer : (numbers rest).Sublist (numbers (s.queues stream)) := by
      rw [queue]
      exact sublist_cons_self _ _
    have frees : ∀ number pointer allocation before,
        (number, Item.free pointer allocation before) ∈ rest →
          (number, Item.free pointer allocation before) ∈ s.queues stream := by
      intro number pointer allocation before mem
      rw [queue]
      exact mem_cons_of_mem _ mem
    cases item with
    | work isHostFunction =>
      simp only [queue] at stepped
      cases stepped
      exact inv.setQueue fewer frees
    | release pointer =>
      simp only [queue] at stepped
      cases stepped
      exact OrderInvariant.setQueue
        (s := { s with pendingAsyncFrees := s.pendingAsyncFrees.filter (· ≠ pointer) })
        (inv.congr rfl rfl rfl inv.timely) fewer frees
    | free pointer allocation before =>
      simp only [queue] at stepped
      cases stepped
      have here : (number, Item.free pointer allocation before) ∈ s.queues stream := by
        rw [queue]
        exact mem_cons_self
      have done : ∀ earlier ∈ before, ∀ other, earlier ∉ numbers (s.queues other) := by
        intro earlier mem other found
        obtain ⟨less, elsewhere⟩ :=
          inv.before stream number pointer allocation before here earlier mem
        by_cases same : other = stream
        · subst same
          rw [queue] at found sorted
          rcases mem_cons.mp found with first | later
          · exact absurd first (by simpa using less.ne)
          · have := (pairwise_cons.mp sorted).1 earlier later
            exact absurd this (by simpa using less.le)
        · exact elsewhere other same found
      have erased := inv.eraseFor pointer (some allocation) done
      have recorded : OrderInvariant settings
          { s.eraseFor settings pointer (some allocation) before with
            freed := allocation :: s.freed } := erased.congr rfl rfl rfl erased.timely
      refine recorded.setQueue ?_ ?_
      · simp [numbers, queue]
      · intro number pointer allocation before mem
        rcases mem_cons.mp mem with first | later
        · cases first
        · simpa using frees number pointer allocation before later

theorem step [DecidableEq ι] [DecidableEq σ] (inv : OrderInvariant settings s)
    (stepped : step settings s a = some s') : OrderInvariant settings s' := by
  cases a with
  | malloc i buffer size =>
    simp only [step] at stepped
    split at stepped
    · split at stepped
      · split at stepped <;> cases stepped
        · exact inv.congr rfl rfl rfl inv.timely
        · refine OrderInvariant.setThread ?_ ?_ fun _ target => ?_
          · exact inv.congr rfl rfl rfl inv.timely
          · trivial
          · cases target
      · cases stepped
    · cases stepped
  | free i pointer =>
    simp only [step] at stepped
    split at stepped
    · split at stepped
      · cases stepped
        exact inv
      · cases stepped
        obtain ⟨ok, none⟩ := drainNext s pointer settings.live
          fun number mem => by
            obtain ⟨stream, -, here⟩ := mem_outstanding.mp mem
            refine ⟨inv.bound stream number here, fun other found => inv.live other ?_⟩
            intro empty
            rw [empty] at found
            cases found
        exact inv.setThread ok fun _ target => by rw [none] at target; cases target
    · cases stepped
  | freeAsync i pointer stream =>
    simp only [step] at stepped
    split at stepped
    · split at stepped
      · rename_i live
        cases search : s.table.resolve pointer with
        | none =>
          simp only [search] at stepped
          cases stepped
          exact inv
        | some resolved =>
          simp only [search] at stepped
          split at stepped
          · cases stepped
            exact inv
          · cases stepped
            exact inv.setThread trivial fun _ target => by cases target; exact live
      · cases stepped
    · cases stepped
  | advance i => exact inv.advance stepped
  | backendError i =>
    simp only [step] at stepped
    split at stepped
    · cases stepped
      exact inv.setThread trivial fun _ target => by cases target
    · cases stepped
      refine OrderInvariant.setThread ?_ ?_ fun _ target => ?_
      · exact inv.congr rfl rfl rfl inv.timely
      · trivial
      · cases target
    · cases stepped
  | submit stream isHostFunction =>
    simp only [step] at stepped
    split at stepped
    · rename_i live
      cases stepped
      exact inv.enqueue live fun _ _ _ same => by cases same
    · cases stepped
  | finish stream => exact inv.finish stepped

end OrderInvariant

section Runs

variable [DecidableEq ι] [DecidableEq σ]

/-- In every run that hands out no address that a `cudaFreeAsync` still names, the frees are sound
and none is refused without a reason. -/
theorem frees_sound {trail : List (State ι σ × Action ι σ)} {u : State ι σ}
    (run : Run (Steps (step settings)) initial trail u)
    (exclusive : ∀ visited ∈ trail, Exclusive settings visited.1 visited.2) :
    Always State.Sound trail u ∧
      ∀ visited ∈ trail, ¬ WronglyRefuses visited.1 visited.2 := by
  have table : Always TableInvariant trail u :=
    run.invariant (fun _ _ _ inv exclusive stepped => inv.step exclusive stepped)
      tableInvariant_initial exclusive
  have order : Always (OrderInvariant settings) trail u :=
    run.invariant (fun _ _ _ inv (_ : True) stepped => inv.step stepped)
      orderInvariant_initial fun _ _ => trivial
  have sound : ∀ {t : State ι σ}, TableInvariant t → OrderInvariant settings t → t.Sound :=
    fun table order => ⟨table.once, table.gone, table.left, table.own, order.timely⟩
  refine ⟨⟨fun visited mem => sound (table.1 visited mem) (order.1 visited mem),
    sound table.2 order.2⟩, fun visited mem => ?_⟩
  exact (table.1 visited mem).not_wronglyRefuses visited.2

/-- Two buffers with the same addresses: the backend may hand out the second one when the first one
is released. -/
def firstBuffer : Buffer := ⟨0, 16, 4096⟩

def secondBuffer : Buffer := ⟨1, 16, 4096⟩

def oneStream : Settings Unit := ⟨false, [()]⟩

/-- A program that allocates, frees on the stream, and allocates when the free is done. -/
def reuseActions : List (Action Unit Unit) :=
  [.malloc () firstBuffer 8, .advance (), .submit () false, .freeAsync () 16 (), .advance (),
    .advance (), .finish (), .finish (), .finish (), .malloc () secondBuffer 8, .advance ()]

def stateAfter (actions : List (Action Unit Unit)) (count : Nat) : State Unit Unit :=
  (execute (step oneStream) initial (actions.take count)).getD initial

omit [DecidableEq ι] [DecidableEq σ] in
/-- A state in which no thread and no stream has anything to do with a free. -/
theorem not_named (threads : ∀ i, s.threads i = .idle ∨
      ∃ buffer base aliasBase size, s.threads i = .aliasing buffer base aliasBase size)
    (queues : ∀ stream, s.queues stream = []) (pointer : BitVec 64) : ¬ s.Named pointer := by
  have empty : ∀ stream item, item ∉ s.queues stream := fun stream item mem => by
    rw [queues stream] at mem
    cases mem
  rintro (⟨allocation, ⟨i, stream, phase⟩ | ⟨i, stream, phase⟩ | ⟨stream, number, before, mem⟩⟩ |
    ⟨stream, number, ⟨allocation, before, mem⟩ | mem⟩)
  · rcases threads i with idle | ⟨_, _, _, _, aliasing⟩ <;> simp_all
  · rcases threads i with idle | ⟨_, _, _, _, aliasing⟩ <;> simp_all
  · exact empty stream _ mem
  · exact empty stream _ mem
  · exact empty stream _ mem

theorem frees_sound_reuse :
    ∃ (trail : List (State Unit Unit × Action Unit Unit)) (u : State Unit Unit),
      trail.map Prod.snd = reuseActions ∧ u.left = [some firstBuffer] ∧
        Always State.Sound trail u ∧
          ∀ visited ∈ trail, ¬ WronglyRefuses visited.1 visited.2 := by
  have named := fun count threads queues =>
    @not_named Unit Unit (stateAfter reuseActions count) threads queues
  have run : Run (Steps (step oneStream)) initial
      [(stateAfter reuseActions 0, .malloc () firstBuffer 8),
        (stateAfter reuseActions 1, .advance ()), (stateAfter reuseActions 2, .submit () false),
        (stateAfter reuseActions 3, .freeAsync () 16 ()),
        (stateAfter reuseActions 4, .advance ()), (stateAfter reuseActions 5, .advance ()),
        (stateAfter reuseActions 6, .finish ()), (stateAfter reuseActions 7, .finish ()),
        (stateAfter reuseActions 8, .finish ()),
        (stateAfter reuseActions 9, .malloc () secondBuffer 8),
        (stateAfter reuseActions 10, .advance ())] (stateAfter reuseActions 11) :=
    .cons rfl (.cons rfl (.cons rfl (.cons rfl (.cons rfl (.cons rfl (.cons rfl (.cons rfl
      (.cons rfl (.cons rfl (.cons rfl (.nil _)))))))))))
  refine ⟨_, _, rfl, rfl, frees_sound run ?_⟩
  simp only [forall_mem_cons, not_mem_nil, false_implies, implies_true, and_true]
  refine ⟨?malloc, ?first, trivial, ?free, trivial, trivial, trivial, trivial, trivial, ?reuse,
    ?second⟩
  case malloc => exact named 0 (fun _ => .inl rfl) (fun _ => rfl) 16
  case first => exact named 1 (fun _ => .inr ⟨_, _, _, _, rfl⟩) (fun _ => rfl) 4096
  case free =>
    rintro entry - - buffer ⟨i, base, aliasBase, size, phase⟩
    cases phase
  case reuse => exact named 9 (fun _ => .inl rfl) (fun _ => rfl) 16
  case second => exact named 10 (fun _ => .inr ⟨_, _, _, _, rfl⟩) (fun _ => rfl) 4096

/-- A program that allocates and frees on the stream, and allocates again when the callback has
erased the pointer and has not released it. -/
def overlapActions : List (Action Unit Unit) :=
  [.malloc () firstBuffer 8, .advance (), .freeAsync () 16 (), .advance (), .advance (),
    .finish (), .malloc () secondBuffer 8, .advance (), .freeAsync () 16 ()]

/-- The free of the second buffer is refused. -/
theorem overlap_refused :
    ¬ ∀ (trail : List (State Unit Unit × Action Unit Unit)) (u : State Unit Unit),
      Run (Steps (step oneStream)) initial trail u →
        ∀ visited ∈ trail, ¬ WronglyRefuses visited.1 visited.2 := by
  intro never
  have executed : execute (step oneStream) initial overlapActions =
      some (stateAfter overlapActions 9) := rfl
  obtain ⟨trail, -, run⟩ := run_of_execute executed
  have refused : Steps (step oneStream) (stateAfter overlapActions 9) (.advance ())
      ((stateAfter overlapActions 9).setThread () .idle) := rfl
  refine never _ _ (run.snoc refused) _ (mem_append_right _ mem_cons_self) ?_
  have queue : ∀ stream, (stateAfter overlapActions 9).queues stream = [(0, .release 16)] :=
    fun _ => rfl
  have thread : ∀ i, (stateAfter overlapActions 9).threads i =
      .resolved 16 (some secondBuffer) () := fun _ => rfl
  have live : (stateAfter overlapActions 9).Live (some secondBuffer) :=
    ⟨(16, ⟨8, .device, 0, some secondBuffer, false⟩), by decide, rfl⟩
  refine ⟨16, some secondBuffer, (), thread (), by decide, live, ?_⟩
  rintro other (⟨i, stream, phase⟩ | ⟨stream, number, before, mem⟩)
  · rw [thread i] at phase
    cases phase
  · rw [queue stream] at mem
    cases mem_singleton.mp mem

end Runs

end CuMetal.Runtime.Frees
