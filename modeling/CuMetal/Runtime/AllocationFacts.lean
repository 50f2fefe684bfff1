import CuMetal.Runtime.AllocationTable
import Mathlib.Algebra.GroupWithZero.Nat
import Mathlib.Tactic.Tauto

/-!
# The ranges of the allocation table

The recorded ranges stay apart, and every lookup is exact, as long as no range that the table
accepts runs to the end of the address space.
-/

namespace CuMetal.Runtime

open OrderedMap AllocationTable

namespace AllocationTable

variable {β : Type}

/-- An address lies in a recorded range, as numbers. -/
def Contains (entry : BitVec 64 × Entry β) (address : BitVec 64) : Prop :=
  entry.1.toNat ≤ address.toNat ∧ address.toNat < entry.1.toNat + entry.2.size.toNat

/-- The recorded ranges lie inside the address space and apart from each other. -/
structure Separated (table : AllocationTable β) : Prop where
  inside : ∀ entry ∈ table.entries, entry.1.toNat + entry.2.size.toNat ≤ 2 ^ 64
  apart : ∀ first ∈ table.entries, ∀ second ∈ table.entries, first.1 < second.1 →
    first.1.toNat + first.2.size.toNat ≤ second.1.toNat

/-- A lookup finds the one recorded range that holds the address, and fails if none does. -/
structure ResolvesExactly (table : AllocationTable β) : Prop where
  found : ∀ address resolved, table.resolve address = some resolved →
    ∃ entry ∈ table.entries, Contains entry address ∧
      (∀ other ∈ table.entries, Contains other address → other = entry) ∧
      resolved.buffer = entry.2.buffer ∧ resolved.kind = entry.2.kind ∧
      resolved.hostAllocFlags = entry.2.hostAllocFlags ∧
      resolved.offset.toNat = address.toNat - entry.1.toNat ∧
      resolved.offset.toNat + resolved.remainingSize.toNat = entry.2.size.toNat
  missing : ∀ address, table.resolve address = none →
    ∀ entry ∈ table.entries, ¬ Contains entry address

/-- A successful erasure removes exactly the ranges of the buffer found at the address. -/
def ErasesExactly [DecidableEq β] (table : AllocationTable β) : Prop :=
  ∀ base next, table.erase base = some next →
    ∃ found ∈ table.entries, found.1 = base ∧
      ∀ entry, entry ∈ next.entries ↔
        entry ∈ table.entries ∧ entry.2.buffer ≠ found.2.buffer

/-- A call that fails leaves the table as it was. -/
def KeepsOnFailure [DecidableEq β] (table : AllocationTable β) : Prop :=
  ∀ next, (table.call next).2 = false → (table.call next).1 = table

/-- What the table promises in every state. -/
structure Sound [DecidableEq β] (table : AllocationTable β) : Prop where
  separated : Separated table
  resolves : ResolvesExactly table
  erases : ErasesExactly table
  keeps : KeepsOnFailure table

/-- The arguments or a neighbour make an insertion fail. -/
def Refuses (table : AllocationTable β) (base size : BitVec 64) (buffer : Option β) : Prop :=
  base = 0 ∨ size = 0 ∨ buffer.isNone = true ∨ table.overlapsNext base size = true ∨
    table.overlapsPrevious base = true

/-- A call that records no range, or one that ends before the address space does. -/
def Fits (table : AllocationTable β) : Call β → Prop
  | .insert base size _ _ buffer _ =>
    table.Refuses base size buffer ∨ base.toNat + size.toNat < 2 ^ 64
  | _ => True

theorem erasesExactly [DecidableEq β] (table : AllocationTable β) : ErasesExactly table := by
  intro base next result
  unfold erase at result
  split at result
  · cases result
  · cases found : table.find base with
    | none =>
      rw [found] at result
      cases result
    | some entry =>
      rw [found] at result
      cases result
      obtain ⟨mem, same⟩ := find_eq_some_iff.mp found
      exact ⟨entry, mem, same, fun other => by simp⟩

theorem keepsOnFailure [DecidableEq β] (table : AllocationTable β) : KeepsOnFailure table := by
  intro next failed
  cases next with
  | insert base size kind flags buffer isAlias =>
    cases result : table.insert base size kind flags buffer isAlias with
    | ok _ => simp [call, result] at failed
    | error _ => simp [call, result]
  | erase base =>
    cases result : table.erase base with
    | some _ => simp [call, result] at failed
    | none => simp [call, result]
  | resolve | totalAllocatedSize => rfl
  | clear => cases failed

variable {table next : AllocationTable β} {base size : BitVec 64} {kind : AllocationKind}
  {flags : BitVec 32} {buffer : Option β} {isAlias : Bool} {other : BitVec 64 × Entry β}

theorem insert_ok_iff :
    table.insert base size kind flags buffer isAlias = .ok next ↔
      ¬ table.Refuses base size buffer ∧
        next = table.assign base ⟨size, kind, flags, buffer, isAlias⟩ := by
  unfold insert Refuses
  by_cases invalid : base = 0 ∨ size = 0 ∨ buffer.isNone = true
  · rw [if_pos invalid]
    simp only [reduceCtorEq, false_iff, not_and]
    tauto
  · rw [if_neg invalid]
    by_cases after : table.overlapsNext base size = true
    · simp [after]
    · by_cases before : table.overlapsPrevious base = true
      · simp [after, before]
      · simp only [after, before, if_false, Except.ok.injEq, Bool.false_eq_true]
        constructor
        · rintro rfl
          exact ⟨by tauto, rfl⟩
        · exact fun same => same.2.symm

theorem le_of_not_overlapsNext (clear : table.overlapsNext base size = false)
    (mem : other ∈ table.entries) (after : base ≤ other.1) : base + size ≤ other.1 := by
  cases bound : table.lowerBound base with
  | none =>
    exact absurd (lt_of_lowerBound_none bound mem) (not_lt_of_ge after)
  | some next =>
    have beyond : base + size ≤ next.1 := by
      simpa [overlapsNext, bound] using clear
    exact le_trans beyond (lowerBound_le bound mem after)

/-! ## The invariant -/

/-- Recorded ranges are apart and end before the address space does. -/
structure Bounded (table : AllocationTable β) : Prop where
  base : ∀ entry ∈ table.entries, entry.1 ≠ 0
  ends : ∀ entry ∈ table.entries, entry.1.toNat + entry.2.size.toNat < 2 ^ 64
  apart : ∀ first ∈ table.entries, ∀ second ∈ table.entries, first.1 < second.1 →
    first.1.toNat + first.2.size.toNat ≤ second.1.toNat

variable {entry : BitVec 64 × Entry β}

theorem Bounded.toNat_end (bounded : Bounded table) (mem : entry ∈ table.entries) :
    (entry.1 + entry.2.size).toNat = entry.1.toNat + entry.2.size.toNat := by
  rw [BitVec.toNat_add, Nat.mod_eq_of_lt (bounded.ends entry mem)]

theorem Bounded.initial : Bounded (initial : AllocationTable β) where
  base := fun _ mem => absurd mem mem_empty
  ends := fun _ mem => absurd mem mem_empty
  apart := fun _ mem => absurd mem mem_empty

section

variable (bounded : Bounded table)
include bounded

theorem Bounded.filter (keeps : BitVec 64 × Entry β → Bool) :
    Bounded (table.filter keeps) where
  base := fun entry mem => bounded.base entry (mem_filter.mp mem).1
  ends := fun entry mem => bounded.ends entry (mem_filter.mp mem).1
  apart := fun first mem second mem' =>
    bounded.apart first (mem_filter.mp mem).1 second (mem_filter.mp mem').1

/-- No range recorded before the new base reaches it: the nearest one does not, and the others
end before that one starts. -/
theorem Bounded.ends_before (clear : table.overlapsPrevious base = false)
    (mem : other ∈ table.entries) (before : other.1 < base) :
    other.1.toNat + other.2.size.toNat ≤ base.toNat := by
  cases bound : table.beforeLowerBound base with
  | none =>
    exact absurd before (not_lt_of_ge (le_of_beforeLowerBound_none bound mem))
  | some previous =>
    obtain ⟨⟨previous_mem, below⟩, nearest⟩ := beforeLowerBound_spec bound
    have reach : previous.1.toNat + previous.2.size.toNat ≤ base.toNat := by
      have stops : previous.1 + previous.2.size ≤ base := by
        simpa [overlapsPrevious, bound] using clear
      rw [← bounded.toNat_end previous_mem]
      exact stops
    rcases lt_or_eq_of_le (nearest other mem before) with less | same
    · have early := bounded.apart other mem previous previous_mem less
      omega
    · rw [eq_of_key mem previous_mem same]
      exact reach

theorem Bounded.insert (result : table.insert base size kind flags buffer isAlias = .ok next)
    (fits : base.toNat + size.toNat < 2 ^ 64) : Bounded next := by
  obtain ⟨accepted, rfl⟩ := insert_ok_iff.mp result
  simp only [Refuses, not_or, Bool.not_eq_true] at accepted
  obtain ⟨base_ne, -, -, after, before⟩ := accepted
  have reach : (base + size).toNat = base.toNat + size.toNat := by
    rw [BitVec.toNat_add, Nat.mod_eq_of_lt fits]
  constructor
  · intro entry mem
    rcases mem_assign.mp mem with rfl | ⟨old, -⟩
    · exact base_ne
    · exact bounded.base entry old
  · intro entry mem
    rcases mem_assign.mp mem with rfl | ⟨old, -⟩
    · exact fits
    · exact bounded.ends entry old
  · intro first mem second mem' less
    rcases mem_assign.mp mem with rfl | ⟨old, other⟩ <;>
      rcases mem_assign.mp mem' with rfl | ⟨old', other'⟩
    · exact absurd less (lt_irrefl _)
    · have beyond := le_of_not_overlapsNext after old' (le_of_lt less)
      rw [BitVec.le_def, reach] at beyond
      exact beyond
    · exact bounded.ends_before before old less
    · exact bounded.apart first old second old' less

theorem Bounded.call [DecidableEq β] {next : Call β} (fits : table.Fits next) :
    Bounded (table.call next).1 := by
  cases next with
  | insert base size kind flags buffer isAlias =>
    cases result : table.insert base size kind flags buffer isAlias with
    | error _ => simpa [AllocationTable.call, result] using bounded
    | ok next =>
      have accepted := (insert_ok_iff.mp result).1
      have inside : base.toNat + size.toNat < 2 ^ 64 := fits.resolve_left accepted
      simpa [AllocationTable.call, result] using bounded.insert result inside
  | erase base =>
    cases result : table.erase base with
    | none => simpa [AllocationTable.call, result] using bounded
    | some next =>
      have filtered : ∃ keeps, next = table.filter keeps := by
        unfold erase at result
        split at result
        · cases result
        · split at result
          · cases result
          · exact ⟨_, (Option.some.inj result).symm⟩
      obtain ⟨keeps, rfl⟩ := filtered
      simpa [AllocationTable.call, result] using bounded.filter keeps
  | resolve | totalAllocatedSize => exact bounded
  | clear => exact .initial

end

theorem mem_of_insert (result : table.insert base size kind flags buffer isAlias = .ok next)
    (fits : base.toNat + size.toNat < 2 ^ 64) (entry : BitVec 64 × Entry β) :
    entry ∈ next.entries ↔
      entry = (base, ⟨size, kind, flags, buffer, isAlias⟩) ∨ entry ∈ table.entries := by
  obtain ⟨accepted, rfl⟩ := insert_ok_iff.mp result
  simp only [Refuses, not_or, Bool.not_eq_true] at accepted
  obtain ⟨-, positive, -, after, -⟩ := accepted
  have free : ∀ entry ∈ table.entries, entry.1 ≠ base := by
    intro entry mem same
    have beyond := le_of_not_overlapsNext after mem (le_of_eq same.symm)
    rw [same, BitVec.le_def, BitVec.toNat_add, Nat.mod_eq_of_lt fits] at beyond
    have : size.toNat ≠ 0 := fun zero => positive (BitVec.eq_of_toNat_eq (by simpa using zero))
    omega
  rw [mem_assign]
  constructor
  · rintro (rfl | ⟨mem, -⟩)
    · exact .inl rfl
    · exact .inr mem
  · rintro (rfl | mem)
    · exact .inl rfl
    · exact .inr ⟨mem, free entry mem⟩

/-- The erasure of a recorded address takes the entries of its buffer away. -/
theorem erase_of_mem [DecidableEq β] {found : BitVec 64 × Entry β} (mem : found ∈ table.entries)
    (nonzero : found.1 ≠ 0) :
    table.erase found.1 = some (table.filter fun entry => entry.2.buffer ≠ found.2.buffer) := by
  rw [erase, if_neg nonzero, find_eq_some_iff.mpr ⟨mem, rfl⟩]

theorem erase_of_absent [DecidableEq β] (absent : ∀ entry ∈ table.entries, entry.1 ≠ base) :
    table.erase base = none := by
  rw [erase, find_eq_none_iff.mpr absent]
  split <;> rfl

theorem Bounded.eq_of_contains (bounded : Bounded table) {address : BitVec 64}
    (mem : entry ∈ table.entries) (mem' : other ∈ table.entries) (holds : Contains entry address)
    (holds' : Contains other address) : other = entry := by
  have same : other.1 = entry.1 := by
    rcases lt_trichotomy other.1 entry.1 with less | same | greater
    · have early := bounded.apart other mem' entry mem less
      have low := holds.1
      have high := holds'.2
      omega
    · exact same
    · have early := bounded.apart entry mem other mem' greater
      have low := holds'.1
      have high := holds.2
      omega
  exact eq_of_key mem' mem same

theorem Bounded.resolvesExactly (bounded : Bounded table) : ResolvesExactly table := by
  have holds_iff : ∀ {entry : BitVec 64 × Entry β} {address : BitVec 64},
      entry ∈ table.entries →
      (Contains entry address ↔ ¬ (address < entry.1 ∨ entry.1 + entry.2.size ≤ address)) := by
    intro entry address mem
    rw [BitVec.lt_def, BitVec.le_def, bounded.toNat_end mem, Contains]
    omega
  constructor
  · intro address resolved result
    unfold resolve at result
    split at result
    · cases result
    · split at result
      · cases result
      next base entry bound =>
        obtain ⟨⟨mem, -⟩, -⟩ := beforeUpperBound_spec bound
        split at result
        · cases result
        next within =>
          cases result
          have holds := (holds_iff mem).mpr within
          have offset : (address - base).toNat = address.toNat - base.toNat :=
            BitVec.toNat_sub_of_le holds.1
          have low : base.toNat ≤ address.toNat := holds.1
          have high : address.toNat < base.toNat + entry.size.toNat := holds.2
          have smaller : address - base ≤ entry.size := by
            rw [BitVec.le_def, offset]
            omega
          refine ⟨(base, entry), mem, holds,
            fun other mem' holds' => bounded.eq_of_contains mem mem' holds holds', rfl, rfl, rfl,
            offset, ?_⟩
          have least : (address - base).toNat ≤ entry.size.toNat := smaller
          show (address - base).toNat + (entry.size - (address - base)).toNat = entry.size.toNat
          rw [BitVec.toNat_sub_of_le smaller]
          omega
  · intro address result entry mem holds
    have at_or_before : entry.1 ≤ address := holds.1
    unfold resolve at result
    split at result
    next zero =>
      apply bounded.base entry mem
      apply BitVec.eq_of_toNat_eq
      have low := holds.1
      rw [zero] at low
      simpa using low
    · split at result
      next bound =>
        exact absurd (lt_of_beforeUpperBound_none bound mem)
          (not_lt_of_ge at_or_before)
      next base last bound =>
        obtain ⟨⟨last_mem, below⟩, nearest⟩ := beforeUpperBound_spec bound
        split at result
        next outside =>
          -- the range found starts at or after the one that holds the address
          have one : entry = (base, last) := by
            rcases lt_or_eq_of_le (nearest entry mem at_or_before) with less | same
            · have early := bounded.apart entry mem (base, last) last_mem less
              have high := holds.2
              have low : base.toNat ≤ address.toNat := below
              simp only at early
              omega
            · exact eq_of_key mem last_mem same
          rw [one] at holds
          exact (holds_iff last_mem).mp holds outside
        · cases result

theorem Bounded.sound [DecidableEq β] (bounded : Bounded table) :
    Sound table where
  separated := ⟨fun entry mem => le_of_lt (bounded.ends entry mem), bounded.apart⟩
  resolves := bounded.resolvesExactly
  erases := erasesExactly table
  keeps := keepsOnFailure table

section Runs

variable [DecidableEq β]

theorem run_append (table : AllocationTable β) (first second : List (Call β)) :
    table.run (first ++ second) = (table.run first).run second :=
  List.foldl_append

theorem Bounded.run (bounded : Bounded table) {calls : List (Call β)}
    (fits : ∀ before next after, calls = before ++ next :: after → (table.run before).Fits next) :
    Bounded (table.run calls) := by
  induction calls generalizing table with
  | nil => exact bounded
  | cons next rest ih =>
    apply ih (bounded.call (fits [] next rest rfl))
    intro before later after whole
    exact fits (next :: before) later after (by rw [whole]; rfl)

/-- A range that is recorded although its machine end wraps spoils the table. -/
theorem fits_of_sound {next : Call β} (sound : Sound (table.call next).1) : table.Fits next := by
  cases next with
  | erase | resolve | totalAllocatedSize | clear => trivial
  | insert base size kind flags buffer isAlias =>
    by_cases refused : table.Refuses base size buffer
    · exact .inl refused
    · have result : table.insert base size kind flags buffer isAlias = .ok _ :=
        insert_ok_iff.mpr ⟨refused, rfl⟩
      simp only [call, result] at sound
      have mem : (base, (⟨size, kind, flags, buffer, isAlias⟩ : Entry β)) ∈
          (table.assign base ⟨size, kind, flags, buffer, isAlias⟩).entries :=
        mem_assign.mpr (.inl rfl)
      have inside := sound.separated.inside _ mem
      simp only [Refuses, not_or] at refused
      obtain ⟨base_ne, size_ne, -⟩ := refused
      have positive : 0 < size.toNat := by
        rcases Nat.eq_zero_or_pos size.toNat with zero | positive
        · exact absurd (BitVec.eq_of_toNat_eq (by simpa using zero)) size_ne
        · exact positive
      refine .inr (lt_of_le_of_ne inside fun whole => ?_)
      -- the range would end with the address space: its end wraps to 0, and lookups miss it
      have wrapped : base + size = 0 := by
        apply BitVec.eq_of_toNat_eq
        rw [BitVec.toNat_add, whole]
        rfl
      have holds : Contains (base, (⟨size, kind, flags, buffer, isAlias⟩ : Entry β)) base :=
        ⟨le_refl _, by simp only; omega⟩
      have missed : resolve (table.assign base ⟨size, kind, flags, buffer, isAlias⟩) base =
          none := by
        unfold resolve
        rw [if_neg base_ne]
        cases bound : (table.assign base ⟨size, kind, flags, buffer, isAlias⟩).beforeUpperBound
            base with
        | none => rfl
        | some last =>
          obtain ⟨⟨last_mem, below⟩, nearest⟩ := beforeUpperBound_spec bound
          have one : last = (base, ⟨size, kind, flags, buffer, isAlias⟩) :=
            eq_of_key last_mem mem (le_antisymm below (nearest _ mem (le_refl _)))
          rw [one]
          simp [wrapped]
      exact sound.resolves.missing base missed _ mem holds

/-- Every state of a run from the empty table is sound exactly when no call of the run records
a range that reaches the end of the address space. -/
theorem run_sound_iff (calls : List (Call β)) :
    (∀ before after, calls = before ++ after →
      Sound ((initial : AllocationTable β).run before)) ↔
      ∀ before next after, calls = before ++ next :: after →
        ((initial : AllocationTable β).run before).Fits next := by
  constructor
  · intro sound before next after whole
    have later := sound (before ++ [next]) after (by rw [whole, List.append_assoc]; rfl)
    rw [run_append] at later
    exact fits_of_sound later
  · intro fits before after whole
    apply Bounded.sound
    apply Bounded.initial.run
    intro first next rest split
    apply fits first next (rest ++ after)
    rw [whole, split, List.append_assoc]
    rfl

end Runs

/-- A buffer of 32 bytes recorded 16 bytes below the end of the address space. -/
def wrappingInsert : Call Nat :=
  .insert 0xfffffffffffffff0 32 .device 0 (some 0) false

theorem wrappingInsert_unsound : ¬ ∀ (calls before after : List (Call Nat)),
    calls = before ++ after → Sound ((initial : AllocationTable Nat).run before) := by
  intro sound
  have inside := (sound [wrappingInsert] [wrappingInsert] [] rfl).separated.inside
    (0xfffffffffffffff0, ⟨32, .device, 0, some 0, false⟩) (by decide)
  exact absurd inside (by decide)

end AllocationTable

end CuMetal.Runtime
