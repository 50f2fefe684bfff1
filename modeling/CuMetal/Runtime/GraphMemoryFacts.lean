import CuMetal.Runtime.GraphMemory

/-!
# The accounts of graph memory

The counters and the allocation table agree with the graph allocations that exist and are active in
every state of a run, exactly as long as no free goes past the graph allocations: one by an address
of an active graph allocation under which the runtime does not find it.
-/

namespace CuMetal.Runtime.GraphMemory

open CuMetal.Guarded List AssocMap AllocationTable GraphAllocationState Memory State

namespace Memory

variable (m : Memory)

def usedTotal : Nat := m.objects.total fun object => if object.active then object.size.toNat else 0

/-- The bytes of the graph allocations that exist. -/
def reservedTotal : Nat := m.objects.total fun object => object.size.toNat

/-- The counters are the sums of the sizes, no high-water mark is below its counter, and the table
has the ranges of the active graph allocations and none of the others. -/
structure Accounted : Prop where
  used : m.graphUsedCurrent.toNat = m.usedTotal
  usedHigh : m.graphUsedCurrent ≤ m.graphUsedHigh
  reserved : m.graphReservedCurrent.toNat = m.reservedTotal
  reservedHigh : m.graphReservedCurrent ≤ m.graphReservedHigh
  recorded : ∀ object ∈ m.objects, object.2.active = true →
    ∀ range ∈ object.2.ranges, range ∈ m.allocations.entries
  absent : ∀ object ∈ m.objects, object.2.active = false →
    ∀ entry ∈ m.allocations.entries, entry.2.buffer ≠ some object.2.buffer

/-- The address is one of an active graph allocation. -/
def ActiveAt (pointer : BitVec 64) : Prop :=
  ∃ object ∈ m.objects, object.2.active = true ∧ ∃ range ∈ object.2.ranges, range.1 = pointer

end Memory

/-- What `cudaGraphAddMemAllocNode` looks after when it makes the object. -/
structure GraphAllocationState.WellFormed (allocation : GraphAllocationState) : Prop where
  base : allocation.base ≠ 0
  size : allocation.size ≠ 0
  baseFits : allocation.base.toNat + allocation.size.toNat < 2 ^ 64
  aliasFits : allocation.alias_.toNat + allocation.size.toNat < 2 ^ 64
  accounted : allocation.reservedAccounted = true

/-- The interval of the allocation at its base. -/
def GraphAllocationState.interval (allocation : GraphAllocationState) : Intervals.Interval :=
  (allocation.base.toNat, allocation.size.toNat)

/-- Different allocations have buffers and bytes of their own. -/
def Separate (first second : Nat × GraphAllocationState) : Prop :=
  first.2.buffer ≠ second.2.buffer ∧ Intervals.Apart first.2.interval second.2.interval

/-- The base and the other address of an allocation are those of its buffer. -/
def GraphAllocationState.Based (useMetalDeviceAddresses : Bool)
    (allocation : GraphAllocationState) : Prop :=
  allocation.base =
    if useMetalDeviceAddresses then allocation.buffer.deviceAddress else allocation.buffer.contents

/-- The invariant of the objects, the counters and the two maps. -/
structure Books (useMetalDeviceAddresses : Bool) (m : Memory) : Prop where
  used : m.graphUsedCurrent.toNat = m.usedTotal
  usedHigh : m.graphUsedCurrent ≤ m.graphUsedHigh
  reserved : m.graphReservedCurrent.toNat = m.reservedTotal
  reservedHigh : m.graphReservedCurrent ≤ m.graphReservedHigh
  distinct : (m.objects.map Prod.fst).Nodup
  numbered : ∀ object ∈ m.objects, object.1 < m.nextObject
  wellFormed : ∀ object ∈ m.objects, object.2.WellFormed
  based : ∀ object ∈ m.objects, object.2.Based useMetalDeviceAddresses
  separate : List.Pairwise Separate m.objects
  named : ∀ base number, (base, number) ∈ m.graphAllocations ↔
    ∃ object, (number, object) ∈ m.objects ∧ object.base = base
  live : ∀ base number, (base, number) ∈ m.liveGraphAllocations ↔
    ∃ object, (number, object) ∈ m.objects ∧ object.base = base ∧ object.active = true

/-- The invariant of the table. -/
structure Tabled (m : Memory) : Prop where
  bounded : m.allocations.Bounded
  recorded : ∀ object ∈ m.objects, object.2.active = true →
    ∀ range ∈ object.2.ranges, range ∈ m.allocations.entries
  absent : ∀ object ∈ m.objects, object.2.active = false →
    ∀ entry ∈ m.allocations.entries, entry.2.buffer ≠ some object.2.buffer
  only : ∀ entry ∈ m.allocations.entries, ∃ object ∈ m.objects,
    object.2.active = true ∧ entry ∈ object.2.ranges

/-- The invariant of the memory. -/
structure Invariant (useMetalDeviceAddresses : Bool) (m : Memory) : Prop where
  books : Books useMetalDeviceAddresses m
  table : Tabled m

theorem Invariant.accounted {useMetalDeviceAddresses : Bool} {m : Memory}
    (inv : Invariant useMetalDeviceAddresses m) : m.Accounted where
  used := inv.books.used
  usedHigh := inv.books.usedHigh
  reserved := inv.books.reserved
  reservedHigh := inv.books.reservedHigh
  recorded := inv.table.recorded
  absent := inv.table.absent

variable {range : BitVec 64 × Entry Buffer}

theorem mem_ranges {allocation : GraphAllocationState} :
    range ∈ allocation.ranges ↔
      range = (allocation.base, ⟨allocation.size, .device, 0, some allocation.buffer, false⟩) ∨
        (allocation.alias_ ≠ 0 ∧ allocation.alias_ ≠ allocation.base) ∧
          range = (allocation.alias_,
            ⟨allocation.size, .device, 0, some allocation.buffer, true⟩) := by
  unfold GraphAllocationState.ranges
  split <;> simp_all

theorem base_mem_ranges (allocation : GraphAllocationState) :
    (allocation.base, ⟨allocation.size, .device, 0, some allocation.buffer, false⟩) ∈
      allocation.ranges :=
  mem_ranges.mpr (.inl rfl)

theorem buffer_of_mem_ranges {allocation : GraphAllocationState} (mem : range ∈ allocation.ranges) :
    range.2.buffer = some allocation.buffer := by
  rcases mem_ranges.mp mem with rfl | ⟨-, rfl⟩ <;> rfl

theorem toNat_takeOff (current size : BitVec 64) :
    (takeOff current size).toNat = current.toNat - size.toNat := by
  unfold takeOff
  split
  · next less =>
      rw [BitVec.lt_def] at less
      exact (Nat.sub_eq_zero_of_le less.le).symm
  · next less => exact BitVec.toNat_sub_of_le (not_lt.mp less)

variable {buffer : Buffer} {size : BitVec 64}

section Books

variable {useMetalDeviceAddresses : Bool} {m m' : Memory}

namespace Books

variable {first second : Nat × GraphAllocationState} {number : Nat}
  {allocation : GraphAllocationState}

section

variable (books : Books useMetalDeviceAddresses m)
include books

theorem eq_of_separate (mem : first ∈ m.objects) (mem' : second ∈ m.objects)
    (together : ¬ Separate first second) : first = second := by
  by_contra different
  have symmetric : Std.Symm Separate := ⟨fun _ _ separate =>
    ⟨separate.1.symm, separate.2.symm⟩⟩
  exact together (books.separate.forall mem mem' different)

theorem eq_of_buffer (mem : first ∈ m.objects) (mem' : second ∈ m.objects)
    (same : first.2.buffer = second.2.buffer) : first = second :=
  books.eq_of_separate mem mem' fun separate => separate.1 same

theorem size_pos {object : Nat × GraphAllocationState} (mem : object ∈ m.objects) :
    0 < object.2.size.toNat :=
  pos_of_ne_zero fun zero =>
    (books.wellFormed object mem).size (BitVec.eq_of_toNat_eq (by simpa using zero))

theorem eq_of_base (mem : first ∈ m.objects) (mem' : second ∈ m.objects)
    (same : first.2.base = second.2.base) : first = second := by
  refine books.eq_of_separate mem mem' fun separate => ?_
  have size₁ := books.size_pos mem
  have size₂ := books.size_pos mem'
  have apart := separate.2
  simp only [Intervals.Apart, interval, same] at apart
  omega

theorem find {object : GraphAllocationState} :
    m.objects.find? number = some object ↔ (number, object) ∈ m.objects :=
  find?_eq_some_iff books.distinct

end

theorem reserved_lt (wellFormed : ∀ object ∈ m.objects, object.2.WellFormed)
    (separate : List.Pairwise Separate m.objects) : m.reservedTotal < 2 ^ 64 := by
  have intervals : (m.objects.map fun object => object.2.interval).Pairwise Intervals.Apart :=
    pairwise_map.mpr (separate.imp fun separate => separate.2)
  have total := @Intervals.sum_le_of_apart _ (2 ^ 64 - 1) intervals fun interval mem => by
    obtain ⟨object, object_mem, rfl⟩ := mem_map.mp mem
    have := (wellFormed object object_mem).baseFits
    simp only [interval]
    omega
  rw [map_map] at total
  have same : m.reservedTotal =
      (m.objects.map (Prod.snd ∘ fun object => object.2.interval)).sum := rfl
  omega

section

variable (books : Books useMetalDeviceAddresses m)

include books

theorem map (f : Nat × GraphAllocationState → Nat × GraphAllocationState)
    (objects : m'.objects = List.map f m.objects)
    (keeps : ∀ object ∈ m.objects, (f object).1 = object.1 ∧ ∃ active freePlacement,
      (f object).2 = { object.2 with active, freePlacement })
    (next : m'.nextObject = m.nextObject) (names : m'.graphAllocations = m.graphAllocations)
    (reserved : m'.graphReservedCurrent = m.graphReservedCurrent)
    (reservedHigh : m'.graphReservedHigh = m.graphReservedHigh)
    (used : m'.graphUsedCurrent.toNat = m'.usedTotal)
    (usedHigh : m'.graphUsedCurrent ≤ m'.graphUsedHigh)
    (live : ∀ base number, (base, number) ∈ m'.liveGraphAllocations ↔
      ∃ object, (number, object) ∈ m'.objects ∧ object.base = base ∧ object.active = true) :
    Books useMetalDeviceAddresses m' where
  used := used
  usedHigh := usedHigh
  reserved := by
    have total : m'.reservedTotal = m.reservedTotal := by
      unfold reservedTotal total
      rw [objects, map_map]
      refine congrArg sum (map_congr_left fun object mem => ?_)
      obtain ⟨-, active, placement, same⟩ := keeps object mem
      simp [same]
    rw [reserved, total, books.reserved]
  reservedHigh := by rw [reserved, reservedHigh]; exact books.reservedHigh
  distinct := by
    have keys : m'.objects.map Prod.fst = m.objects.map Prod.fst := by
      rw [objects, map_map]
      exact map_congr_left fun object mem => (keeps object mem).1
    rw [keys]
    exact books.distinct
  numbered := by
    rw [objects, next]
    intro object mem
    obtain ⟨old, old_mem, rfl⟩ := mem_map.mp mem
    rw [(keeps old old_mem).1]
    exact books.numbered old old_mem
  wellFormed := by
    rw [objects]
    intro object mem
    obtain ⟨old, old_mem, rfl⟩ := mem_map.mp mem
    obtain ⟨-, active, placement, same⟩ := keeps old old_mem
    have formed := books.wellFormed old old_mem
    rw [same]
    exact ⟨formed.base, formed.size, formed.baseFits, formed.aliasFits, formed.accounted⟩
  based := by
    rw [objects]
    intro object mem
    obtain ⟨old, old_mem, rfl⟩ := mem_map.mp mem
    obtain ⟨-, active, placement, same⟩ := keeps old old_mem
    rw [same]
    exact books.based old old_mem
  separate := by
    rw [objects, pairwise_map]
    refine books.separate.imp_of_mem fun {first second} mem mem' separate => ?_
    obtain ⟨-, active, placement, same⟩ := keeps first mem
    obtain ⟨-, active', placement', same'⟩ := keeps second mem'
    rw [Separate, same, same']
    exact separate
  named := by
    intro base number
    rw [names, books.named, objects]
    constructor
    · rintro ⟨object, mem, rfl⟩
      obtain ⟨key, active, placement, same⟩ := keeps _ mem
      refine ⟨(f (number, object)).2, mem_map.mpr ⟨_, mem, Prod.ext key rfl⟩, ?_⟩
      rw [same]
    · rintro ⟨object, mem, rfl⟩
      obtain ⟨old, old_mem, changed⟩ := mem_map.mp mem
      obtain ⟨key, active, placement, same⟩ := keeps _ old_mem
      rw [changed] at key same
      refine ⟨old.2, ?_, ?_⟩
      · have : old = (number, old.2) := Prod.ext key.symm rfl
        exact this ▸ old_mem
      · simp only at same
        rw [same]
  live := live

section

variable (mem : (number, allocation) ∈ m.objects)
include mem

theorem mem_setActive (active : Bool) (object : Nat × GraphAllocationState) :
    object ∈ m.objects.change number (fun object => { object with active }) ↔
      (object ∈ m.objects ∧ object.1 ≠ number) ∨ object = (number, { allocation with active }) := by
  rw [mem_change]
  refine or_congr_right ⟨?_, ?_⟩
  · rintro ⟨other, other_mem, rfl⟩
    rw [value_unique books.distinct other_mem mem]
  · rintro rfl
    exact ⟨allocation, mem, rfl⟩

theorem usedTotal_setActive (active : Bool) :
    { m with objects := m.objects.change number fun object => { object with active } }.usedTotal +
        (if allocation.active then allocation.size.toNat else 0) =
      m.usedTotal + if active then allocation.size.toNat else 0 :=
  total_change (fun object => { object with active })
    (fun object => if object.active then object.size.toNat else 0) books.distinct mem

theorem activated (inactive : allocation.active = false) (table : AllocationTable Buffer) :
    Books useMetalDeviceAddresses (m.activated number allocation table) := by
  have total : (m.activated number allocation table).usedTotal + _ = _ :=
    books.usedTotal_setActive mem true
  rw [inactive, if_neg Bool.false_ne_true, if_pos rfl, Nat.add_zero] at total
  have objects := books.mem_setActive mem true
  have less : m.usedTotal + allocation.size.toNat < 2 ^ 64 := by
    refine lt_of_le_of_lt ?_ (reserved_lt books.wellFormed books.separate)
    rw [← total]
    have same : (m.activated number allocation table).reservedTotal = m.reservedTotal := by
      have moved := total_change (fun object => { object with active := true })
        (fun object => object.size.toNat) books.distinct mem
      exact add_right_cancel moved
    rw [← same]
    exact total_le fun object _ => by split <;> omega
  have sum : (m.graphUsedCurrent + allocation.size).toNat =
      m.usedTotal + allocation.size.toNat := by
    rw [BitVec.toNat_add, books.used, Nat.mod_eq_of_lt less]
  have fresh : ∀ other, (allocation.base, other) ∉ m.liveGraphAllocations := by
    intro other found
    obtain ⟨object, object_mem, base, active⟩ := (books.live _ _).mp found
    have same := books.eq_of_base object_mem mem base
    rw [(Prod.mk.inj same).2, inactive] at active
    cases active
  have lives : ∀ binding, binding ∈ m.liveGraphAllocations.assign allocation.base number ↔
      binding ∈ m.liveGraphAllocations ∨ binding = (allocation.base, number) := by
    intro binding
    rw [assign_of_absent fresh]
    simp
  refine books.map (fun binding => if binding.1 = number then
    (binding.1, { binding.2 with active := true }) else binding) rfl ?_ rfl rfl rfl rfl ?_ ?_ ?_
  · intro object _
    dsimp only
    split
    · exact ⟨rfl, true, object.2.freePlacement, rfl⟩
    · exact ⟨rfl, object.2.active, object.2.freePlacement, rfl⟩
  · rw [total]
    exact sum
  · exact le_max_right _ _
  · intro base other
    refine (lives (base, other)).trans ?_
    rw [books.live]
    constructor
    · rintro (⟨object, object_mem, rfl, active⟩ | same)
      · have different : other ≠ number := by
          rintro rfl
          rw [value_unique books.distinct object_mem mem, inactive] at active
          cases active
        exact ⟨object, (objects _).mpr (.inl ⟨object_mem, different⟩), rfl, active⟩
      · obtain ⟨rfl, rfl⟩ := Prod.mk.inj same
        exact ⟨_, (objects _).mpr (.inr rfl), rfl, rfl⟩
    · rintro ⟨object, object_mem, rfl, active⟩
      rcases (objects _).mp object_mem with ⟨old, -⟩ | same
      · exact .inl ⟨object, old, rfl, active⟩
      · obtain ⟨rfl, rfl⟩ := Prod.mk.inj same
        exact .inr rfl

theorem deactivated (active : allocation.active = true) (table : AllocationTable Buffer) :
    Books useMetalDeviceAddresses (m.deactivated number allocation table) := by
  have total : (m.deactivated number allocation table).usedTotal + _ = _ :=
    books.usedTotal_setActive mem false
  rw [active, if_pos rfl, if_neg Bool.false_ne_true, Nat.add_zero] at total
  have objects := books.mem_setActive mem false
  have less : takeOff m.graphUsedCurrent allocation.size ≤ m.graphUsedCurrent := by
    rw [BitVec.le_def, toNat_takeOff]
    exact Nat.sub_le _ _
  refine books.map (fun binding => if binding.1 = number then
    (binding.1, { binding.2 with active := false }) else binding) rfl ?_ rfl rfl rfl rfl ?_ ?_ ?_
  · intro object _
    dsimp only
    split
    · exact ⟨rfl, false, object.2.freePlacement, rfl⟩
    · exact ⟨rfl, object.2.active, object.2.freePlacement, rfl⟩
  · refine (toNat_takeOff _ _).trans ?_
    rw [books.used]
    omega
  · exact le_trans less books.usedHigh
  · intro base other
    refine mem_remove.trans ?_
    rw [books.live]
    constructor
    · rintro ⟨⟨object, object_mem, rfl, active⟩, different⟩
      refine ⟨object, (objects _).mpr (.inl ⟨object_mem, ?_⟩), rfl, active⟩
      rintro rfl
      rw [value_unique books.distinct object_mem mem] at different
      exact different rfl
    · rintro ⟨object, object_mem, rfl, active'⟩
      rcases (objects _).mp object_mem with ⟨old, different⟩ | same
      · refine ⟨⟨object, old, rfl, active'⟩, fun same => different ?_⟩
        exact congrArg Prod.fst (books.eq_of_base old mem same)
      · obtain ⟨rfl, rfl⟩ := Prod.mk.inj same
        cases active'

end

/-! ## Release -/

theorem release (inactive : ∀ object, (number, object) ∈ m.objects → object.active = false) :
    Books useMetalDeviceAddresses (m.releaseGraphAllocation number) := by
  cases found : m.objects.find? number with
  | none =>
    rw [releaseGraphAllocation, found]
    exact books
  | some allocation =>
    have mem := books.find.mp found
    have idle := inactive allocation mem
    have accounted := (books.wellFormed _ mem).accounted
    have released : m.releaseGraphAllocation number =
        { m with
          graphReservedCurrent := takeOff m.graphReservedCurrent allocation.size
          graphAllocations := m.graphAllocations.remove allocation.base
          liveGraphAllocations := m.liveGraphAllocations.remove allocation.base
          objects := m.objects.remove number } := by
      simp only at accounted
      simp only [releaseGraphAllocation, found, idle, accounted, Bool.false_eq_true,
        if_false, if_true]
    rw [released]
    have reserved := total_remove (fun object => object.size.toNat) books.distinct mem
    have used := total_remove
      (fun object => if object.active then object.size.toNat else 0) books.distinct mem
    simp only [idle, Bool.false_eq_true, if_false, add_zero] at used
    have other : ∀ {object : GraphAllocationState} {key : Nat}, (key, object) ∈ m.objects →
        (object.base ≠ allocation.base ↔ key ≠ number) := by
      intro object key object_mem
      refine not_congr ⟨fun same => ?_, ?_⟩
      · exact congrArg Prod.fst (books.eq_of_base object_mem mem same)
      · rintro rfl
        rw [value_unique books.distinct object_mem mem]
    constructor
    · exact books.used.trans used.symm
    · exact books.usedHigh
    · refine (toNat_takeOff _ _).trans ?_
      have := books.reserved
      unfold reservedTotal at this ⊢
      dsimp only
      omega
    · refine le_trans ?_ books.reservedHigh
      rw [BitVec.le_def, toNat_takeOff]
      exact Nat.sub_le _ _
    · exact nodup_remove books.distinct
    · exact fun object mem => books.numbered object (mem_remove.mp mem).1
    · exact fun object mem => books.wellFormed object (mem_remove.mp mem).1
    · exact fun object mem => books.based object (mem_remove.mp mem).1
    · exact books.separate.sublist filter_sublist
    · intro base key
      refine mem_remove.trans ?_
      rw [books.named]
      constructor
      · rintro ⟨⟨object, object_mem, rfl⟩, different⟩
        exact ⟨object, mem_remove.mpr ⟨object_mem, (other object_mem).mp different⟩, rfl⟩
      · rintro ⟨object, object_mem, rfl⟩
        obtain ⟨object_mem, different⟩ := mem_remove.mp object_mem
        exact ⟨⟨object, object_mem, rfl⟩, (other object_mem).mpr different⟩
    · intro base key
      refine mem_remove.trans ?_
      rw [books.live]
      constructor
      · rintro ⟨⟨object, object_mem, rfl, active⟩, different⟩
        exact ⟨object, mem_remove.mpr ⟨object_mem, (other object_mem).mp different⟩,
          rfl, active⟩
      · rintro ⟨object, object_mem, rfl, active⟩
        obtain ⟨object_mem, different⟩ := mem_remove.mp object_mem
        exact ⟨⟨object, object_mem, rfl, active⟩, (other object_mem).mpr different⟩

theorem reserve (allocates : Allocates m buffer size) (positive : size ≠ 0)
    (mapped : buffer.contents ≠ 0 ∧ (useMetalDeviceAddresses = true → buffer.deviceAddress ≠ 0)) :
    m.graphAllocations.contains
        (if useMetalDeviceAddresses then buffer.deviceAddress else buffer.contents) = false ∧
      Books useMetalDeviceAddresses (m.reserve useMetalDeviceAddresses buffer size) ∧
      ∃ allocation, allocation.buffer = buffer ∧ allocation.active = false ∧
        (m.reserve useMetalDeviceAddresses buffer size).objects =
          m.objects ++ [(m.nextObject, allocation)] := by
  generalize base_def : (if useMetalDeviceAddresses = true then buffer.deviceAddress
    else buffer.contents) = base
  have nonzero : base ≠ 0 := by
    rw [← base_def]
    split
    · next device => exact mapped.2 device
    · exact mapped.1
  have fits : base.toNat + size.toNat < 2 ^ 64 := by
    rw [← base_def]
    split
    · exact allocates.deviceAddress
    · exact allocates.contents
  have apart : ∀ object ∈ m.objects,
      Intervals.Apart object.2.interval (base.toNat, size.toNat) := by
    intro object mem
    have based := books.based object mem
    rw [GraphAllocationState.Based] at based
    rw [interval, based, ← base_def]
    split
    · next device => exact allocates.deviceApart (mapped.2 device) object mem
    · exact allocates.hostApart object mem
  have size_pos : 0 < size.toNat :=
    pos_of_ne_zero fun zero => positive (BitVec.eq_of_toNat_eq (by simpa using zero))
  have untaken : ∀ object ∈ m.objects, object.2.base ≠ base := by
    intro object mem same
    have := apart object mem
    have := books.size_pos mem
    simp only [Intervals.Apart, interval, same] at *
    omega
  have free : m.graphAllocations.contains base = false := by
    rw [contains_eq_false_iff]
    intro taken
    obtain ⟨⟨key, number⟩, mem, rfl⟩ := mem_map.mp taken
    obtain ⟨object, object_mem, same⟩ := (books.named _ _).mp mem
    exact untaken _ object_mem same
  let allocation : GraphAllocationState := ⟨buffer, base,
    if base = buffer.contents then buffer.deviceAddress else buffer.contents, size, false, true,
    .none⟩
  have formed : allocation.WellFormed := by
    refine ⟨nonzero, positive, fits, ?_, rfl⟩
    show BitVec.toNat (if base = buffer.contents then buffer.deviceAddress else buffer.contents) +
      size.toNat < 2 ^ 64
    split
    · exact allocates.deviceAddress
    · exact allocates.contents
  have wellFormed : ∀ object ∈ m.objects ++ [(m.nextObject, allocation)],
      object.2.WellFormed := by
    intro object mem
    rcases mem_append.mp mem with old | new
    · exact books.wellFormed object old
    · rw [mem_singleton.mp new]
      exact formed
  have separate : Pairwise Separate (m.objects ++ [(m.nextObject, allocation)]) :=
    pairwise_append.mpr ⟨books.separate, pairwise_singleton _ _,
      fun object mem new new_mem => by
        rw [mem_singleton.mp new_mem]
        exact ⟨allocates.fresh object mem, apart object mem⟩⟩
  let made : Memory :=
    { m with
      objects := m.objects ++ [(m.nextObject, allocation)]
      nextObject := m.nextObject + 1
      graphAllocations := m.graphAllocations ++ [(base, m.nextObject)]
      graphReservedCurrent := m.graphReservedCurrent + size
      graphReservedHigh := max m.graphReservedHigh (m.graphReservedCurrent + size) }
  have reserved : m.reserve useMetalDeviceAddresses buffer size = made := by
    simp only [Memory.reserve, base_def, free, emplace_of_fresh free, Bool.false_eq_true,
      if_false]
    rfl
  rw [reserved]
  refine ⟨free, ?_, allocation, rfl, rfl, rfl⟩
  have objects : ∀ object, object ∈ made.objects ↔
      object ∈ m.objects ∨ object = (m.nextObject, allocation) := fun object => by
    simp only [made, mem_append, mem_singleton]
  have total : made.reservedTotal = m.reservedTotal + size.toNat := by
    simp only [reservedTotal, made, total_append, total_cons,
      total_nil, allocation, add_zero]
  have less : made.reservedTotal < 2 ^ 64 := reserved_lt wellFormed separate
  constructor
  · refine books.used.trans ?_
    simp [usedTotal, made, allocation]
  · exact books.usedHigh
  · rw [total] at less ⊢
    exact (BitVec.toNat_add _ _).trans (by rw [books.reserved, Nat.mod_eq_of_lt less])
  · exact le_max_right _ _
  · show ((m.objects ++ [(m.nextObject, allocation)]).map Prod.fst).Nodup
    rw [map_append, nodup_append]
    refine ⟨books.distinct, nodup_singleton _, ?_⟩
    rintro key mem _ new rfl
    obtain ⟨object, object_mem, rfl⟩ := mem_map.mp mem
    have := books.numbered object object_mem
    have : object.1 = m.nextObject := by simpa using new
    omega
  · intro object mem
    rcases (objects object).mp mem with old | rfl
    · exact Nat.lt_succ_of_lt (books.numbered object old)
    · exact Nat.lt_succ_self _
  · exact wellFormed
  · intro object mem
    rcases (objects object).mp mem with old | rfl
    · exact books.based object old
    · exact base_def.symm
  · exact separate
  · intro other number
    show (other, number) ∈ m.graphAllocations ++ [(base, m.nextObject)] ↔ _
    rw [mem_append, books.named, mem_singleton]
    constructor
    · rintro (⟨object, mem, rfl⟩ | same)
      · exact ⟨object, (objects _).mpr (.inl mem), rfl⟩
      · obtain ⟨rfl, rfl⟩ := Prod.mk.inj same
        exact ⟨allocation, (objects _).mpr (.inr rfl), rfl⟩
    · rintro ⟨object, mem, rfl⟩
      rcases (objects _).mp mem with old | same
      · exact .inl ⟨object, old, rfl⟩
      · obtain ⟨rfl, rfl⟩ := Prod.mk.inj same
        exact .inr rfl
  · intro other number
    refine (books.live other number).trans ⟨?_, ?_⟩
    · rintro ⟨object, mem, same, active⟩
      exact ⟨object, (objects _).mpr (.inl mem), same, active⟩
    · rintro ⟨object, mem, same, active⟩
      rcases (objects _).mp mem with old | new
      · exact ⟨object, old, same, active⟩
      · obtain ⟨rfl, rfl⟩ := Prod.mk.inj new
        cases active

theorem inactive_of_reset :
    ∀ object ∈ m.resetGraphAllocationState.objects, object.2.active = false := by
  intro object mem
  obtain ⟨⟨number, old⟩, old_mem, rfl⟩ := mem_map.mp mem
  have named : number ∈ m.graphAllocations.map Prod.snd :=
    mem_map.mpr ⟨(old.base, number), (books.named _ _).mpr ⟨old, old_mem, rfl⟩, rfl⟩
  rw [if_pos (.inr named)]

theorem reset :
    Books useMetalDeviceAddresses m.resetGraphAllocationState := by
  have inactive := books.inactive_of_reset
  refine books.map _ rfl ?_ rfl rfl rfl rfl ?_ ?_ ?_
  · intro object _
    dsimp only
    split
    · exact ⟨rfl, false, object.2.freePlacement, rfl⟩
    · exact ⟨rfl, object.2.active, object.2.freePlacement, rfl⟩
  · refine (total_eq_zero fun object mem => ?_).symm
    rw [inactive object mem]
    rfl
  · exact BitVec.le_def.mpr (Nat.zero_le _)
  · intro base number
    refine ⟨fun mem => absurd mem not_mem_nil, ?_⟩
    rintro ⟨object, mem, -, active⟩
    rw [inactive (number, object) mem] at active
    cases active

theorem setAllocations (allocations : AllocationTable Buffer) :
    Books useMetalDeviceAddresses { m with allocations } :=
  ⟨books.used, books.usedHigh, books.reserved, books.reservedHigh, books.distinct, books.numbered,
    books.wellFormed, books.based, books.separate, books.named, books.live⟩

end

theorem release_objects (m : Memory) (number : Nat) :
    (m.releaseGraphAllocation number).objects = m.objects.remove number := by
  cases found : m.objects.find? number with
  | none =>
    have absent := find?_eq_none_iff.mp found
    simp only [releaseGraphAllocation, found, remove_of_absent absent]
  | some allocation => simp only [releaseGraphAllocation, found]

theorem release_allocations
    (inactive : ∀ object, (number, object) ∈ m.objects → object.active = false) :
    (m.releaseGraphAllocation number).allocations = m.allocations := by
  cases found : m.objects.find? number with
  | none => simp only [releaseGraphAllocation, found]
  | some allocation =>
    have idle := inactive allocation (mem_of_find? found)
    simp only [releaseGraphAllocation, found, idle, Bool.false_eq_true, if_false]

theorem releaseAll (books : Books useMetalDeviceAddresses m) (numbers : List Nat)
    (inactive : ∀ number ∈ numbers, ∀ object, (number, object) ∈ m.objects →
      object.active = false) :
    Books useMetalDeviceAddresses (numbers.foldl releaseGraphAllocation m) ∧
      (numbers.foldl releaseGraphAllocation m).allocations = m.allocations ∧
      ∀ object, object ∈ (numbers.foldl releaseGraphAllocation m).objects ↔
        object ∈ m.objects ∧ object.1 ∉ numbers := by
  induction numbers generalizing m with
  | nil => exact ⟨books, rfl, fun object => by simp⟩
  | cons number rest ih =>
    have here := inactive number mem_cons_self
    have objects := release_objects m number
    obtain ⟨rest_books, allocations, members⟩ := ih (books.release here)
      fun other mem object object_mem => by
        rw [objects] at object_mem
        exact inactive other (mem_cons_of_mem _ mem) object
          (mem_remove.mp object_mem).1
    refine ⟨rest_books, allocations.trans (release_allocations here), fun object => ?_⟩
    rw [foldl_cons, members, objects, mem_remove, mem_cons, not_or, and_assoc]

theorem collect (books : Books useMetalDeviceAddresses m) (references : List Nat) :
    Books useMetalDeviceAddresses (m.collect references) ∧
      (m.collect references).allocations = m.allocations ∧
      ∀ object, object ∈ (m.collect references).objects ↔
        object ∈ m.objects ∧ (object.1 ∈ references ∨ object.2.active = true) := by
  have lives : ∀ object ∈ m.objects,
      object.1 ∈ m.liveGraphAllocations.map Prod.snd ↔ object.2.active = true := by
    intro object mem
    constructor
    · intro found
      obtain ⟨⟨base, number⟩, live_mem, same⟩ := mem_map.mp found
      obtain ⟨other, other_mem, -, active⟩ := (books.live _ _).mp live_mem
      rw [show number = object.1 from same] at other_mem
      rw [value_unique books.distinct mem other_mem]
      exact active
    · intro active
      exact mem_map.mpr ⟨(object.2.base, object.1),
        (books.live _ _).mpr ⟨object.2, mem, rfl, active⟩, rfl⟩
  obtain ⟨after, allocations, members⟩ := books.releaseAll
    ((m.objects.map Prod.fst).filter fun number =>
      number ∉ references ∧ number ∉ m.liveGraphAllocations.map Prod.snd)
    fun number mem object object_mem => by
      have unowned := of_decide_eq_true (mem_filter.mp mem).2
      by_contra active
      exact unowned.2 ((lives _ object_mem).mpr (by simpa using active))
  refine ⟨after, allocations, fun object => (members object).trans (and_congr_right fun mem => ?_)⟩
  rw [mem_filter, decide_eq_true_eq, lives object mem]
  have key : object.1 ∈ m.objects.map Prod.fst := mem_map_of_mem mem
  tauto

end Books

namespace Tabled

variable {table : AllocationTable Buffer}

theorem congr (tabled : Tabled m) (bounded : table.Bounded)
    (entries : ∀ entry, entry ∈ table.entries ↔ entry ∈ m.allocations.entries) :
    Tabled { m with allocations := table } where
  bounded := bounded
  recorded := fun object mem active range range_mem =>
    (entries range).mpr (tabled.recorded object mem active range range_mem)
  absent := fun object mem inactive entry entry_mem =>
    tabled.absent object mem inactive entry ((entries entry).mp entry_mem)
  only := fun entry mem => tabled.only entry ((entries entry).mp mem)

theorem activated (tabled : Tabled m) (books : Books useMetalDeviceAddresses m) {number : Nat}
    {allocation : GraphAllocationState} (mem : (number, allocation) ∈ m.objects)
    (inactive : allocation.active = false) (bounded : table.Bounded)
    (entries : ∀ entry, entry ∈ table.entries ↔
      entry ∈ m.allocations.entries ∨ entry ∈ allocation.ranges) :
    Tabled (m.activated number allocation table) := by
  have objects := books.mem_setActive mem true
  constructor
  · exact bounded
  · intro object object_mem active range range_mem
    rcases (objects object).mp object_mem with ⟨old, -⟩ | rfl
    · exact (entries range).mpr (.inl (tabled.recorded object old active range range_mem))
    · exact (entries range).mpr (.inr range_mem)
  · intro object object_mem idle entry entry_mem
    rcases (objects object).mp object_mem with ⟨old, different⟩ | rfl
    · rcases (entries entry).mp entry_mem with before | new
      · exact tabled.absent object old idle entry before
      · rw [buffer_of_mem_ranges new]
        intro same
        exact different (congrArg Prod.fst (books.eq_of_buffer old mem (Option.some.inj same).symm))
    · cases idle
  · intro entry entry_mem
    rcases (entries entry).mp entry_mem with before | new
    · obtain ⟨object, object_mem, active, range⟩ := tabled.only entry before
      refine ⟨object, (objects object).mpr (.inl ⟨object_mem, ?_⟩), active, range⟩
      rintro rfl
      rw [value_unique books.distinct (show (object.1, object.2) ∈ m.objects from object_mem)
        mem, inactive] at active
      cases active
    · exact ⟨_, (objects _).mpr (.inr rfl), rfl, new⟩

theorem deactivated (tabled : Tabled m) (books : Books useMetalDeviceAddresses m) {number : Nat}
    {allocation : GraphAllocationState} (mem : (number, allocation) ∈ m.objects)
 (bounded : table.Bounded) (entries : ∀ entry, entry ∈ table.entries ↔
      entry ∈ m.allocations.entries ∧ entry.2.buffer ≠ some allocation.buffer) :
    Tabled (m.deactivated number allocation table) := by
  have objects := books.mem_setActive mem false
  constructor
  · exact bounded
  · intro object object_mem active range range_mem
    rcases (objects object).mp object_mem with ⟨old, different⟩ | rfl
    · refine (entries range).mpr ⟨tabled.recorded object old active range range_mem, ?_⟩
      rw [buffer_of_mem_ranges range_mem]
      intro same
      exact different (congrArg Prod.fst (books.eq_of_buffer old mem (Option.some.inj same)))
    · cases active
  · intro object object_mem idle entry entry_mem
    obtain ⟨before, other⟩ := (entries entry).mp entry_mem
    rcases (objects object).mp object_mem with ⟨old, -⟩ | rfl
    · exact tabled.absent object old idle entry before
    · exact other
  · intro entry entry_mem
    obtain ⟨before, other⟩ := (entries entry).mp entry_mem
    obtain ⟨object, object_mem, active, range⟩ := tabled.only entry before
    refine ⟨object, (objects object).mpr (.inl ⟨object_mem, ?_⟩), active, range⟩
    rintro rfl
    rw [buffer_of_mem_ranges range, value_unique books.distinct
      (show (object.1, object.2) ∈ m.objects from object_mem) mem] at other
    exact other rfl

theorem collect (tabled : Tabled m) (books : Books useMetalDeviceAddresses m)
    (references : List Nat) : Tabled (m.collect references) := by
  obtain ⟨-, allocations, objects⟩ := books.collect references
  constructor
  · rw [allocations]
    exact tabled.bounded
  · rw [allocations]
    exact fun object mem => tabled.recorded object ((objects object).mp mem).1
  · rw [allocations]
    exact fun object mem => tabled.absent object ((objects object).mp mem).1
  · rw [allocations]
    intro entry mem
    obtain ⟨object, object_mem, active, range⟩ := tabled.only entry mem
    exact ⟨object, (objects object).mpr ⟨object_mem, .inr active⟩, active, range⟩

end Tabled

/-! ## The calls -/

/-- The memory keeps the invariant and its objects. -/
structure Keeps (useMetalDeviceAddresses : Bool) (m m' : Memory) : Prop where
  invariant : Invariant useMetalDeviceAddresses m'
  objects : ∀ number ∈ m.objects.map Prod.fst, number ∈ m'.objects.map Prod.fst

namespace Invariant

section

variable (inv : Invariant useMetalDeviceAddresses m)

include inv

theorem keeps : Keeps useMetalDeviceAddresses m m :=
  ⟨inv, fun _ mem => mem⟩

theorem activate (number : Nat) :
    Keeps useMetalDeviceAddresses m (m.activateGraphAllocation number).2 := by
  cases found : m.objects.find? number with
  | none =>
    rw [Memory.activateGraphAllocation, found]
    exact inv.keeps
  | some allocation =>
  have mem := inv.books.find.mp found
  have formed := inv.books.wellFormed _ mem
  have done : ∀ table : AllocationTable Buffer, table.Bounded → allocation.active = false →
      (∀ entry, entry ∈ table.entries ↔
        entry ∈ m.allocations.entries ∨ entry ∈ allocation.ranges) →
      Keeps useMetalDeviceAddresses m (m.activated number allocation table) :=
    fun table bounded inactive entries =>
      ⟨⟨inv.books.activated mem inactive table,
        inv.table.activated inv.books mem inactive bounded entries⟩,
        fun key key_mem => by simpa only [activated, keys_change] using key_mem⟩
  rw [Memory.activateGraphAllocation, found]
  dsimp only
  split
  · exact inv.keeps
  split
  · exact inv.keeps
  rename_i idle
  have inactive : allocation.active = false := by simpa using idle
  cases first : m.allocations.insert allocation.base allocation.size .device 0
      (some allocation.buffer) false with
  | error => exact inv.keeps
  | ok table =>
  have bounded := inv.table.bounded.insert first formed.baseFits
  have entries := mem_of_insert first formed.baseFits
  dsimp only
  split
  · rename_i aliased
    cases second : table.insert allocation.alias_ allocation.size .device 0
        (some allocation.buffer) true with
    | ok both =>
      refine done both (bounded.insert second formed.aliasFits) inactive fun entry => ?_
      rw [mem_of_insert second formed.aliasFits, entries, mem_ranges]
      tauto
    | error =>
      -- the first range goes again, and the table is what it was
      have erased := erase_of_mem ((entries _).mpr (.inl rfl)) formed.base
      dsimp only at erased ⊢
      rw [erased, Option.getD_some]
      refine ⟨⟨inv.books.setAllocations _, inv.table.congr (bounded.filter _) fun entry => ?_⟩,
        fun _ mem => mem⟩
      rw [OrderedMap.mem_filter, entries]
      constructor
      · rintro ⟨rfl | before, other⟩
        · simp at other
        · exact before
      · exact fun before => ⟨.inr before,
          by simpa using inv.table.absent _ mem inactive entry before⟩
  · rename_i single
    refine done table bounded inactive fun entry => ?_
    rw [entries, mem_ranges]
    tauto

theorem deactivate (number : Nat) :
    Keeps useMetalDeviceAddresses m (m.deactivateGraphAllocation number).2 := by
  cases found : m.objects.find? number with
  | none =>
    rw [deactivateGraphAllocation, found]
    exact inv.keeps
  | some allocation =>
  have mem := inv.books.find.mp found
  rw [deactivateGraphAllocation, found]
  dsimp only
  split
  · exact inv.keeps
  rename_i busy
  have active : allocation.active = true := by simpa using busy
  have recorded := inv.table.recorded _ mem active _ (base_mem_ranges allocation)
  have erased := erase_of_mem recorded (inv.books.wellFormed _ mem).base
  dsimp only at erased
  rw [erased]
  refine ⟨⟨inv.books.deactivated mem active _,
    inv.table.deactivated inv.books mem (inv.table.bounded.filter _) fun entry => ?_⟩,
    fun key key_mem => by simpa only [deactivated, keys_change] using key_mem⟩
  rw [OrderedMap.mem_filter]
  simp

variable {pointer : BitVec 64}

/-- An erasure at no address of an active graph allocation erases nothing. -/
theorem erase (elsewhere : ¬ m.ActiveAt pointer) : m.erase pointer = m := by
  have absent : ∀ entry ∈ m.allocations.entries, entry.1 ≠ pointer := by
    intro entry mem same
    obtain ⟨object, object_mem, active, range⟩ := inv.table.only entry mem
    exact elsewhere ⟨object, object_mem, active, entry, range, same⟩
  rw [Memory.erase, AllocationTable.erase_of_absent absent, Option.getD_none]

theorem lock (pointer : BitVec 64) :
    m.lock pointer = m.graphAllocations.find? pointer := by
  cases found : m.graphAllocations.find? pointer with
  | none => rw [Memory.lock, found]
  | some number =>
    obtain ⟨object, mem, -⟩ := (inv.books.named _ _).mp (mem_of_find? found)
    have exists_ : (m.objects.find? number).isSome := by
      rw [inv.books.find.mpr mem]
      rfl
    simp only [Memory.lock, found, exists_, if_true]

/-- `cudaFree` at the base of a graph allocation, or at no address of one. -/
theorem free (good : m.graphAllocations.find? pointer = none → ¬ m.ActiveAt pointer) :
    Keeps useMetalDeviceAddresses m (m.cudaFree pointer) := by
  rw [cudaFree, inv.lock]
  split
  · exact inv.keeps
  cases found : m.graphAllocations.find? pointer with
  | none =>
    dsimp only
    rw [inv.erase (good found)]
    exact inv.keeps
  | some number => exact inv.deactivate number

theorem collect (references : List Nat) :
    Invariant useMetalDeviceAddresses (m.collect references) :=
  ⟨(inv.books.collect references).1, inv.table.collect inv.books references⟩

theorem reserve (allocates : Allocates m buffer size) (positive : size ≠ 0)
    (mapped : buffer.contents ≠ 0 ∧ (useMetalDeviceAddresses = true → buffer.deviceAddress ≠ 0)) :
    m.graphAllocations.contains
        (if useMetalDeviceAddresses then buffer.deviceAddress else buffer.contents) = false ∧
      Keeps useMetalDeviceAddresses m (m.reserve useMetalDeviceAddresses buffer size) ∧
      m.nextObject ∈ (m.reserve useMetalDeviceAddresses buffer size).objects.map Prod.fst := by
  obtain ⟨free, books, allocation, own, inactive, objects⟩ :=
    inv.books.reserve allocates positive mapped
  have table : (m.reserve useMetalDeviceAddresses buffer size).allocations = m.allocations := by
    simp only [Memory.reserve, free, Bool.false_eq_true, if_false]
  refine ⟨free, ⟨⟨books, ?_⟩, fun number mem => ?_⟩, ?_⟩
  · constructor
    · rw [table]
      exact inv.table.bounded
    · rw [table, objects]
      intro object mem active
      rcases mem_append.mp mem with old | new
      · exact inv.table.recorded object old active
      · rw [mem_singleton.mp new, inactive] at active
        cases active
    · rw [table, objects]
      intro object mem idle entry entry_mem
      rcases mem_append.mp mem with old | new
      · exact inv.table.absent object old idle entry entry_mem
      · obtain ⟨other, other_mem, -, range⟩ := inv.table.only entry entry_mem
        rw [mem_singleton.mp new, buffer_of_mem_ranges range, own]
        exact fun same => allocates.fresh other other_mem (Option.some.inj same)
    · rw [table, objects]
      intro entry mem
      obtain ⟨object, object_mem, active, range⟩ := inv.table.only entry mem
      exact ⟨object, mem_append_left _ object_mem, active, range⟩
  · rw [objects, map_append]
    exact mem_append_left _ mem
  · rw [objects, map_append]
    exact mem_append_right _ (mem_singleton.mpr rfl)

theorem place (number : Nat)
    (placement : GraphFreePlacement) :
    Keeps useMetalDeviceAddresses m
      { m with
        objects := m.objects.change number
          fun object => { object with freePlacement := placement } } := by
  have objects : ∀ object, object ∈ m.objects.change number
      (fun object => { object with freePlacement := placement }) →
        ∃ old freePlacement, (object.1, old) ∈ m.objects ∧ object.2 = { old with freePlacement } := by
    intro object mem
    rcases mem_change.mp mem with ⟨old, -⟩ | ⟨old, old_mem, rfl⟩
    · exact ⟨object.2, object.2.freePlacement, old, rfl⟩
    · exact ⟨old, placement, old_mem, rfl⟩
  have changed : ∀ key old, (key, old) ∈ m.objects → ∃ freePlacement,
      (key, { old with freePlacement }) ∈ m.objects.change number
        fun object => { object with freePlacement := placement } := by
    intro key old mem
    by_cases same : key = number
    · exact ⟨placement, mem_change.mpr (.inr ⟨old, same ▸ mem, by rw [same]⟩)⟩
    · exact ⟨old.freePlacement, mem_change.mpr (.inl ⟨mem, same⟩)⟩
  refine ⟨⟨inv.books.map _ rfl (fun object _ => ?_) rfl rfl rfl rfl ?_ inv.books.usedHigh ?_, ?_⟩,
    fun key mem => by simpa only [keys_change] using mem⟩
  · dsimp only
    split
    · exact ⟨rfl, object.2.active, placement, rfl⟩
    · exact ⟨rfl, object.2.active, object.2.freePlacement, rfl⟩
  · refine inv.books.used.trans ?_
    unfold usedTotal total change
    rw [map_map]
    refine congrArg sum (map_congr_left fun object _ => ?_)
    by_cases same : object.1 = number <;> simp [same]
  · intro base key
    refine (inv.books.live base key).trans ⟨?_, ?_⟩
    · rintro ⟨object, mem, same, active⟩
      obtain ⟨freePlacement, there⟩ := changed key object mem
      exact ⟨_, there, same, active⟩
    · rintro ⟨object, mem, same, active⟩
      obtain ⟨old, freePlacement, old_mem, rfl⟩ := objects (key, object) mem
      exact ⟨old, old_mem, same, active⟩
  · constructor
    · exact inv.table.bounded
    · rintro ⟨key, object⟩ mem active range range_mem
      obtain ⟨old, freePlacement, old_mem, rfl⟩ := objects _ mem
      exact inv.table.recorded _ old_mem active range range_mem
    · rintro ⟨key, object⟩ mem idle entry entry_mem
      obtain ⟨old, freePlacement, old_mem, rfl⟩ := objects _ mem
      exact inv.table.absent _ old_mem idle entry entry_mem
    · intro entry mem
      obtain ⟨⟨key, object⟩, object_mem, active, range⟩ := inv.table.only entry mem
      obtain ⟨freePlacement, there⟩ := changed key object object_mem
      exact ⟨_, there, active, range⟩

theorem reset (references : List Nat) :
    Invariant useMetalDeviceAddresses
      { m.resetGraphAllocationState.collect references with allocations := .initial } := by
  obtain ⟨books, -, objects⟩ := inv.books.reset.collect references
  have inactive : ∀ object ∈ (m.resetGraphAllocationState.collect references).objects,
      object.2.active = false := fun object mem =>
    inv.books.inactive_of_reset object ((objects object).mp mem).1
  refine ⟨books.setAllocations _, .initial, ?_, ?_, ?_⟩
  · intro object mem active
    rw [inactive object mem] at active
    cases active
  · exact fun _ _ _ entry mem => absurd mem OrderedMap.mem_empty
  · exact fun entry mem => absurd mem OrderedMap.mem_empty

/-- An erasure past the graph allocations leaves an active one without its ranges. -/
theorem not_accounted_of_erase (here : m.ActiveAt pointer) (references : List Nat) :
    ¬ ((m.erase pointer).collect references).Accounted := by
  intro accounted
  obtain ⟨object, object_mem, active, range, range_mem, rfl⟩ := here
  have recorded := inv.table.recorded object object_mem active range range_mem
  have erased := erase_of_mem recorded (inv.table.bounded.base range recorded)
  have books : Books useMetalDeviceAddresses (m.erase range.1) := inv.books.setAllocations _
  obtain ⟨-, allocations, objects⟩ := books.collect references
  have still := accounted.recorded object ((objects object).mpr ⟨object_mem, .inr active⟩) active
    _ (base_mem_ranges object.2)
  rw [allocations, Memory.erase, erased, Option.getD_some, OrderedMap.mem_filter,
    buffer_of_mem_ranges range_mem] at still
  simp at still

end

end Invariant

end Books

/-! ## Runs -/

section Runs

variable {σ : Type} {s s' : State σ} {useMetalDeviceAddresses : Bool}

/-- No free goes past the graph allocations: when the runtime does not find the address among them,
no active one has it. -/
def Good (s : State σ) [DecidableEq σ] : Action σ → Prop
  | .free pointer =>
    s.memory.graphAllocations.find? pointer = none → ¬ s.memory.ActiveAt pointer
  | .finish stream => ∀ other pointer,
      s.callbacks.find? (fun callback => callback.1 = stream) = some (other, .free pointer none) →
        ¬ s.memory.ActiveAt pointer
  | _ => True

/-- The invariant of the memory, and nobody owns an object that does not exist. -/
structure Sound (useMetalDeviceAddresses : Bool) (s : State σ) : Prop where
  memory : Invariant useMetalDeviceAddresses s.memory
  linked : ∀ number ∈ s.references, number ∈ s.memory.objects.map Prod.fst

theorem mem_references {number : Nat} : number ∈ s.references ↔
    (∃ graph ∈ s.graphs, number ∈ graph.2.nodes.filterMap Node.allocation?) ∨
      (∃ exec ∈ s.execs, number ∈ exec.2.nodes.filterMap Node.allocation?) ∨
        (∃ callback ∈ s.callbacks, callback.2.allocation? = some number) ∨
          number ∈ s.phase.allocations := by
  simp only [references, mem_append, mem_flatMap, mem_filterMap, or_assoc]

namespace Sound

section

variable (sound : Sound useMetalDeviceAddresses s)

include sound

/-- The memory keeps its objects, and whoever owns one now has owned it, or it exists. -/
theorem next (keeps : Keeps useMetalDeviceAddresses s.memory s'.memory)
    (references : ∀ number ∈ s'.references,
      number ∈ s.references ∨ number ∈ s'.memory.objects.map Prod.fst) :
    Sound useMetalDeviceAddresses s' where
  memory := keeps.invariant
  linked := fun number mem => (references number mem).elim
    (fun old => keeps.objects number (sound.linked number old)) id

theorem collect :
    Sound useMetalDeviceAddresses s.collect where
  memory := sound.memory.collect _
  linked := fun number mem => by
    obtain ⟨-, -, objects⟩ := sound.memory.books.collect s.references
    obtain ⟨object, object_mem, rfl⟩ := mem_map.mp (sound.linked number mem)
    exact mem_map_of_mem ((objects object).mpr ⟨object_mem, .inl mem⟩)

theorem addNode (graph : Nat) {node : Node}
    (there : ∀ number, node.allocation? = some number →
      number ∈ s.memory.objects.map Prod.fst) :
    Sound useMetalDeviceAddresses (s.addNode graph node) := by
  refine sound.next sound.memory.keeps fun number mem => ?_
  rcases mem_references.mp mem with ⟨object, object_mem, owns⟩ | rest
  · have changed : object ∈ s.graphs.change graph
        fun object => { object with nodes := object.nodes ++ [node] } := object_mem
    rcases mem_change.mp changed with ⟨old, -⟩ | ⟨old, old_mem, rfl⟩
    · exact .inl (mem_references.mpr (.inl ⟨object, old, owns⟩))
    · rw [filterMap_append, mem_append] at owns
      rcases owns with before | new
      · exact .inl (mem_references.mpr (.inl ⟨_, old_mem, before⟩))
      · obtain ⟨last, last_mem, owns⟩ := mem_filterMap.mp new
        rw [mem_singleton.mp last_mem] at owns
        exact .inr (there number owns)
  · exact .inl (mem_references.mpr (.inr rest))

theorem markMemoryNodes (lifetime : Nat) :
    Sound useMetalDeviceAddresses (s.markMemoryNodes lifetime) :=
  sound.next sound.memory.keeps fun _ mem => .inl mem

variable {memory : Memory}

theorem setMemory (keeps : Keeps useMetalDeviceAddresses s.memory memory) :
    Sound useMetalDeviceAddresses { s with memory } :=
  sound.next keeps fun _ mem => .inl mem

theorem addMemAllocNode (graph : Nat) (allocates : Allocates s.memory buffer size) :
    Sound useMetalDeviceAddresses
      (s.cudaGraphAddMemAllocNode useMetalDeviceAddresses graph buffer size) := by
  unfold cudaGraphAddMemAllocNode
  cases s.graphs.find? graph with
  | none => exact sound
  | some object =>
  dsimp only
  split
  · exact sound
  rename_i valid
  simp only [not_or, not_and] at valid
  obtain ⟨free, keeps, there⟩ := sound.memory.reserve allocates valid.1 ⟨valid.2.1, valid.2.2⟩
  rw [free, if_neg Bool.false_ne_true]
  refine ((sound.setMemory keeps).markMemoryNodes object.lifetime).addNode graph ?_
  rintro number ⟨⟩
  exact there

theorem addMemFreeNode (graph : Nat)
    (pointer : BitVec 64) (dependenciesHold : Bool) :
    Sound useMetalDeviceAddresses (s.cudaGraphAddMemFreeNode graph pointer dependenciesHold) := by
  unfold cudaGraphAddMemFreeNode
  cases s.graphs.find? graph with
  | none => exact sound
  | some object =>
  dsimp only
  split
  · exact sound
  cases (s.madeIn object.nodes pointer).or (s.memory.lock pointer) with
  | none => exact sound
  | some number =>
  dsimp only
  cases found : s.memory.objects.find? number with
  | none => exact sound
  | some allocation =>
  dsimp only
  split
  · exact sound
  refine ((sound.setMemory (sound.memory.place number _)).markMemoryNodes object.lifetime).addNode
    graph ?_
  rintro _ ⟨⟩
  have there : number ∈ s.memory.objects.map Prod.fst :=
    mem_map_of_mem (mem_of_find? found)
  simpa only [State.markMemoryNodes, keys_change] using there

theorem instantiate {graph : Nat} {object : Graph}
    (found : s.graphs.find? graph = some object) {ordered : List Node}
    (perm : ordered.Perm object.nodes) (autoFreeOnLaunch : Bool) :
    Sound useMetalDeviceAddresses (s.cudaGraphInstantiate graph ordered autoFreeOnLaunch) := by
  rw [cudaGraphInstantiate, found]
  dsimp only
  split
  · exact sound
  refine sound.next sound.memory.keeps fun number mem => .inl ?_
  rcases mem_references.mp mem with graphs | ⟨exec, exec_mem, owns⟩ | rest
  · exact mem_references.mpr (.inl graphs)
  · rcases mem_append.mp exec_mem with old | new
    · exact mem_references.mpr (.inr (.inl ⟨exec, old, owns⟩))
    · rw [mem_singleton.mp new] at owns
      exact mem_references.mpr (.inl ⟨_, mem_of_find? found,
        (perm.filterMap Node.allocation?).mem_iff.mp owns⟩)
  · exact mem_references.mpr (.inr (.inr rest))

theorem destroyExec (exec : Nat) :
    Sound useMetalDeviceAddresses (s.cudaGraphExecDestroy exec) := by
  unfold cudaGraphExecDestroy
  cases s.execs.find? exec with
  | none => exact sound
  | some object =>
  refine sound.next sound.memory.keeps fun number mem => .inl ?_
  rcases mem_references.mp mem with graphs | ⟨other, other_mem, owns⟩ | rest
  · exact mem_references.mpr (.inl graphs)
  · exact mem_references.mpr (.inr (.inl ⟨other, (mem_remove.mp other_mem).1, owns⟩))
  · exact mem_references.mpr (.inr (.inr rest))

theorem launch {exec : Nat} {object : GraphExec}
    (found : s.execs.find? exec = some object) {autoFree : List Nat}
    (own : ∀ number ∈ autoFree, number ∈ autoFrees object.nodes) :
    Sound useMetalDeviceAddresses { s with phase := .launching object.nodes autoFree } := by
  have mine : ∀ number ∈ object.nodes.filterMap Node.allocation?, number ∈ s.references :=
    fun number mem => mem_references.mpr
      (.inr (.inl ⟨_, mem_of_find? found, mem⟩))
  refine sound.next sound.memory.keeps fun number mem => .inl ?_
  rcases mem_references.mp mem with graphs | execs | callbacks | phase
  · exact mem_references.mpr (.inl graphs)
  · exact mem_references.mpr (.inr (.inl execs))
  · exact mem_references.mpr (.inr (.inr (.inl callbacks)))
  · rcases mem_append.mp phase with nodes | frees
    · exact mine number nodes
    · refine mine number ?_
      obtain ⟨node, node_mem, makes⟩ := mem_filterMap.mp (mem_eraseDups.mp (own number frees))
      refine mem_filterMap.mpr ⟨node, node_mem, ?_⟩
      cases node with
      | memAlloc allocation => simpa [Node.allocation?] using makes
      | memFree | other => cases makes

theorem setPhase {phase : Phase} (keeps : Keeps useMetalDeviceAddresses s.memory memory)
    (less : ∀ number ∈ phase.allocations, number ∈ s.phase.allocations) :
    Sound useMetalDeviceAddresses { s with memory, phase } := by
  refine sound.next keeps fun number mem => .inl ?_
  rcases mem_references.mp mem with graphs | execs | callbacks | here
  · exact mem_references.mpr (.inl graphs)
  · exact mem_references.mpr (.inr (.inl execs))
  · exact mem_references.mpr (.inr (.inr (.inl callbacks)))
  · exact mem_references.mpr (.inr (.inr (.inr (less number here))))

theorem advance {nodeSucceeds : Bool}
    (stepped : s.advance nodeSucceeds = some s') : Sound useMetalDeviceAddresses s' := by
  have goOn : ∀ {result : CudaError × Memory} {next : Phase},
      Keeps useMetalDeviceAddresses s.memory result.2 →
      (∀ number ∈ next.allocations, number ∈ s.phase.allocations) →
        Sound useMetalDeviceAddresses (s.goOn result next) := by
    intro result next keeps less
    refine sound.setPhase keeps fun number mem => ?_
    split at mem
    · exact less number mem
    · cases mem
  unfold State.advance at stepped
  cases phase : s.phase with
  | idle => simp [phase] at stepped
  | launching nodes autoFree =>
    cases nodes with
    | nil =>
      simp only [phase] at stepped
      cases stepped
      exact sound.setPhase sound.memory.keeps fun number mem => by
        rw [phase]
        exact mem
    | cons node rest =>
      have less : ∀ number ∈ (Phase.launching rest autoFree).allocations,
          number ∈ s.phase.allocations := by
        intro number mem
        rw [phase]
        rcases mem_append.mp mem with nodes | frees
        · exact mem_append_left _ (by
            obtain ⟨later, later_mem, owns⟩ := mem_filterMap.mp nodes
            exact mem_filterMap.mpr ⟨later, mem_cons_of_mem _ later_mem, owns⟩)
        · exact mem_append_right _ frees
      cases node with
      | other =>
        simp only [phase] at stepped
        cases stepped
        refine sound.setPhase sound.memory.keeps fun number mem => ?_
        split at mem
        · exact less number mem
        · cases mem
      | memAlloc allocation =>
        simp only [phase] at stepped
        cases stepped
        exact goOn (sound.memory.activate allocation) less
      | memFree allocation pointer =>
        simp only [phase] at stepped
        cases stepped
        exact goOn (sound.memory.deactivate allocation) less
  | freeing autoFree =>
    cases autoFree with
    | nil =>
      simp only [phase] at stepped
      cases stepped
      exact sound.setPhase sound.memory.keeps fun number mem => by cases mem
    | cons allocation rest =>
      simp only [phase] at stepped
      cases stepped
      have less : ∀ active : Bool, ∀ number ∈ (if active then
          Phase.deactivating allocation rest else .freeing rest).allocations,
            number ∈ allocation :: rest := by
        intro active number mem
        cases active with
        | true => exact mem
        | false => exact mem_cons_of_mem _ mem
      refine sound.setPhase sound.memory.keeps fun number mem => ?_
      rw [phase]
      exact less _ number mem
  | deactivating allocation autoFree =>
    simp only [phase] at stepped
    cases stepped
    refine goOn (sound.memory.deactivate allocation) fun number mem => ?_
    rw [phase]
    exact mem_cons_of_mem _ mem

theorem freeAsync (pointer : BitVec 64) (stream : σ)
    (accepted : Bool) : Sound useMetalDeviceAddresses (s.cudaFreeAsync pointer stream accepted) := by
  unfold cudaFreeAsync
  split
  · exact sound
  cases s.memory.allocations.resolve pointer with
  | none => exact sound
  | some resolved =>
  dsimp only
  split
  · exact sound
  split
  · refine sound.next sound.memory.keeps fun number mem => ?_
    rcases mem_references.mp mem with graphs | execs | ⟨callback, callback_mem, owns⟩ | phase
    · exact .inl (mem_references.mpr (.inl graphs))
    · exact .inl (mem_references.mpr (.inr (.inl execs)))
    · rcases mem_append.mp callback_mem with old | new
      · exact .inl (mem_references.mpr (.inr (.inr (.inl ⟨callback, old, owns⟩))))
      · rw [mem_singleton.mp new] at owns
        have found : s.memory.graphAllocations.find? pointer = some number :=
          (sound.memory.lock pointer).symm.trans owns
        obtain ⟨object, object_mem, -⟩ :=
          (sound.memory.books.named _ _).mp (mem_of_find? found)
        exact .inr (mem_map_of_mem object_mem)
    · exact .inl (mem_references.mpr (.inr (.inr (.inr phase))))
  · exact sound

end

/-- A callback frees a graph allocation, or nothing, and gives its pointer back. -/
theorem finish [DecidableEq σ] (sound : Sound useMetalDeviceAddresses s) {stream : σ}
    (good : Good s (.finish stream)) (stepped : s.finish stream = some s') :
    Sound useMetalDeviceAddresses s' := by
  have less : ∀ (memory : Memory) (pendingAsyncFrees : List (BitVec 64))
      (callbacks : List (σ × Callback)), Keeps useMetalDeviceAddresses s.memory memory →
      (∀ callback ∈ callbacks, ∃ old ∈ s.callbacks,
        old.2.allocation? = callback.2.allocation?) →
      Sound useMetalDeviceAddresses { s with memory, pendingAsyncFrees, callbacks } := by
    intro memory pendingAsyncFrees callbacks keeps old
    refine sound.next keeps fun number mem => .inl ?_
    rcases mem_references.mp mem with graphs | execs | ⟨callback, callback_mem, owns⟩ | phase
    · exact mem_references.mpr (.inl graphs)
    · exact mem_references.mpr (.inr (.inl execs))
    · obtain ⟨before, before_mem, same⟩ := old callback callback_mem
      exact mem_references.mpr (.inr (.inr (.inl ⟨before, before_mem, same.trans owns⟩)))
    · exact mem_references.mpr (.inr (.inr (.inr phase)))
  unfold State.finish at stepped
  cases found : s.callbacks.find? (fun callback => callback.1 = stream) with
  | none => simp [found] at stepped
  | some callback =>
  have mem := mem_of_find?_eq_some found
  obtain ⟨owner, callback⟩ := callback
  cases callback with
  | release pointer allocation =>
    simp only [found] at stepped
    cases stepped
    exact less _ _ _ sound.memory.keeps fun callback callback_mem =>
      ⟨callback, mem_of_mem_eraseP callback_mem, rfl⟩
  | free pointer allocation =>
    simp only [found] at stepped
    cases stepped
    refine less _ s.pendingAsyncFrees _ ?_ fun callback callback_mem => ?_
    · cases allocation with
      | some number => exact sound.memory.deactivate number
      | none =>
        show Keeps _ _ (s.memory.erase pointer)
        rw [sound.memory.erase (good owner pointer found)]
        exact sound.memory.keeps
    · rcases mem_cons.mp callback_mem with rfl | later
      · exact ⟨_, mem, rfl⟩
      · exact ⟨callback, mem_of_mem_eraseP later, rfl⟩

theorem deviceReset (sound : Sound useMetalDeviceAddresses s) :
    Sound useMetalDeviceAddresses s.cudaDeviceReset where
  memory := sound.memory.reset s.references
  linked := fun number mem => by
    have books := sound.memory.books.reset
    obtain ⟨-, -, objects⟩ := books.collect s.references
    obtain ⟨⟨key, object⟩, object_mem, rfl⟩ := mem_map.mp (sound.linked number mem)
    have there : key ∈ s.memory.resetGraphAllocationState.objects.map Prod.fst := by
      refine mem_map.mpr ⟨_, mem_map_of_mem object_mem, ?_⟩
      split <;> rfl
    obtain ⟨⟨key', idle⟩, idle_mem, rfl⟩ := mem_map.mp there
    exact mem_map.mpr ⟨_, (objects (key', idle)).mpr ⟨idle_mem, .inl mem⟩, rfl⟩

variable {a : Action σ}

theorem calls [DecidableEq σ] (sound : Sound useMetalDeviceAddresses s)
    (good : Good s a) (called : Calls useMetalDeviceAddresses s a s') :
    Sound useMetalDeviceAddresses s' := by
  cases called with
  | createGraph =>
    refine sound.next sound.memory.keeps fun number mem => .inl ?_
    rcases mem_references.mp mem with ⟨graph, graph_mem, owns⟩ | rest
    · rcases mem_append.mp graph_mem with old | new
      · exact mem_references.mpr (.inl ⟨graph, old, owns⟩)
      · rw [mem_singleton.mp new] at owns
        cases owns
    · exact mem_references.mpr (.inr rest)
  | addMemAllocNode graph buffer size allocates => exact sound.addMemAllocNode graph allocates
  | addMemFreeNode graph pointer dependenciesHold =>
    exact sound.addMemFreeNode graph pointer dependenciesHold
  | addOtherNode graph => exact sound.addNode graph fun number owns => by cases owns
  | destroyGraph graph =>
    refine sound.next sound.memory.keeps fun number mem => .inl ?_
    rcases mem_references.mp mem with ⟨object, object_mem, owns⟩ | rest
    · exact mem_references.mpr (.inl ⟨object, (mem_remove.mp object_mem).1, owns⟩)
    · exact mem_references.mpr (.inr rest)
  | instantiate graph object ordered autoFreeOnLaunch found perm =>
    exact sound.instantiate found perm autoFreeOnLaunch
  | destroyExec exec => exact sound.destroyExec exec
  | launch exec object found =>
    refine sound.launch found fun number mem => ?_
    split at mem
    · exact mem
    · cases mem
  | free pointer idle => exact sound.setMemory (sound.memory.free good)
  | freeAsync pointer stream accepted => exact sound.freeAsync pointer stream accepted
  | deviceReset idle => exact sound.deviceReset
  | resetUsedHigh =>
    have inv := sound.memory
    exact sound.setMemory ⟨⟨⟨inv.books.used, le_refl _, inv.books.reserved,
      inv.books.reservedHigh, inv.books.distinct, inv.books.numbered, inv.books.wellFormed,
      inv.books.based, inv.books.separate, inv.books.named, inv.books.live⟩,
      ⟨inv.table.bounded, inv.table.recorded, inv.table.absent, inv.table.only⟩⟩,
      fun _ mem => mem⟩
  | resetReservedHigh =>
    have inv := sound.memory
    exact sound.setMemory ⟨⟨⟨inv.books.used, inv.books.usedHigh, inv.books.reserved, le_refl _,
      inv.books.distinct, inv.books.numbered, inv.books.wellFormed, inv.books.based,
      inv.books.separate, inv.books.named, inv.books.live⟩,
      ⟨inv.table.bounded, inv.table.recorded, inv.table.absent, inv.table.only⟩⟩,
      fun _ mem => mem⟩

theorem step [DecidableEq σ] (sound : Sound useMetalDeviceAddresses s)
    (good : Good s a) (stepped : Step useMetalDeviceAddresses s a s') :
    Sound useMetalDeviceAddresses s' := by
  cases stepped with
  | call idle called => exact (sound.calls good called).collect
  | advance _ advanced => exact (sound.advance advanced).collect
  | finish finished => exact (sound.finish good finished).collect

/-- A free that goes past the graph allocations takes the ranges of an active one away. -/
theorem not_accounted [DecidableEq σ] (sound : Sound useMetalDeviceAddresses s)
    (bad : ¬ Good s a) (stepped : Step useMetalDeviceAddresses s a s') :
    ¬ s'.memory.Accounted := by
  cases stepped with
  | advance _ advanced => exact absurd trivial bad
  | finish finished =>
    rename_i next stream
    simp only [Good, not_forall, not_not] at bad
    obtain ⟨owner, pointer, found, here⟩ := bad
    simp only [State.finish, found] at finished
    cases finished
    exact sound.memory.not_accounted_of_erase here _
  | call idle called =>
    cases called with
    | free pointer drained =>
      simp only [Good, not_forall, not_not] at bad
      obtain ⟨unknown, here⟩ := bad
      have nonzero : pointer ≠ 0 := by
        obtain ⟨object, object_mem, active, range, range_mem, same⟩ := here
        rw [← same]
        exact sound.memory.table.bounded.base range
          (sound.memory.table.recorded object object_mem active range range_mem)
      have freed : s.memory.cudaFree pointer = s.memory.erase pointer := by
        simp only [cudaFree, nonzero, if_false, unknown]
      have broken := sound.memory.not_accounted_of_erase here s.references
      rw [← freed] at broken
      exact broken
    | _ => exact absurd trivial bad

end Sound

theorem sound_initial : Sound useMetalDeviceAddresses (initial : State σ) := by
  refine ⟨⟨⟨rfl, le_refl _, rfl, le_refl _, nodup_nil, ?_, ?_, ?_, Pairwise.nil, ?_, ?_⟩,
    ⟨.initial, ?_, ?_, fun entry mem => absurd mem OrderedMap.mem_empty⟩⟩, fun number mem => ?_⟩
  · exact fun object mem => absurd mem not_mem_nil
  · exact fun object mem => absurd mem not_mem_nil
  · exact fun object mem => absurd mem not_mem_nil
  · exact fun base number => ⟨fun mem => absurd mem not_mem_nil,
      fun ⟨object, mem, _⟩ => absurd mem not_mem_nil⟩
  · exact fun base number => ⟨fun mem => absurd mem not_mem_nil,
      fun ⟨object, mem, _⟩ => absurd mem not_mem_nil⟩
  · exact fun object mem => absurd mem not_mem_nil
  · exact fun object mem => absurd mem not_mem_nil
  · cases mem

variable [DecidableEq σ]

/-- The accounts are right in every state of a run exactly if no free of it goes past the graph
allocations. -/
theorem accounted_iff_good {trail : List (State σ × Action σ)} {u : State σ}
    (run : Run (Step useMetalDeviceAddresses) initial trail u) :
    Always (fun s => s.memory.Accounted) trail u ↔
      ∀ visited ∈ trail, Good visited.1 visited.2 :=
  run.always_iff (fun _ sound => sound.memory.accounted)
    (fun _ _ _ sound good stepped => sound.step good stepped)
    (fun _ _ _ sound bad stepped => sound.not_accounted bad stepped)
    sound_initial

end Runs

/-- A buffer with another address on the device. -/
def sampleBuffer : Buffer := ⟨0, 16, 4096⟩

/-- A program that makes a graph with one allocation node and launches it. -/
def launchActions : List (Action Unit) :=
  [.createGraph, .addMemAllocNode 0 sampleBuffer 8, .instantiate 0 [.memAlloc 0] false, .launch 1,
    .advance true, .advance true, .advance true]

/-- The memory with the active allocation. -/
def launchedMemory : Memory where
  allocations := ⟨[(16, ⟨8, .device, 0, some sampleBuffer, false⟩),
    (4096, ⟨8, .device, 0, some sampleBuffer, true⟩)], by decide⟩
  graphAllocations := [(16, 0)]
  liveGraphAllocations := [(16, 0)]
  graphUsedCurrent := 8
  graphUsedHigh := 8
  graphReservedCurrent := 8
  graphReservedHigh := 8
  objects := [(0, ⟨sampleBuffer, 16, 4096, 8, true, true, .none⟩)]
  nextObject := 1

theorem launches : ∃ (trail : List (State Unit × Action Unit)) (s : State Unit),
    Run (Step false) initial trail s ∧ trail.map Prod.snd = launchActions ∧
      s.phase = .idle ∧ s.callbacks = [] ∧ s.memory = launchedMemory := by
  have allocates : ∀ m : Memory, m.objects = [] → Allocates m sampleBuffer 8 := by
    intro m empty
    constructor
    · rw [empty]
      exact fun object mem => absurd mem not_mem_nil
    · decide
    · decide
    · rw [empty]
      exact fun object mem => absurd mem not_mem_nil
    · rw [empty]
      exact fun _ object mem => absurd mem not_mem_nil
  exact ⟨_, _, .cons (.call rfl .createGraph)
    (.cons (.call rfl (.addMemAllocNode 0 sampleBuffer 8 (allocates _ rfl)))
      (.cons (.call rfl (.instantiate 0 _ [.memAlloc 0] false rfl (Perm.refl _)))
        (.cons (.call rfl (.launch 1 _ rfl)) (.cons (.advance true rfl)
          (.cons (.advance true rfl) (.cons (.advance true rfl) (.nil _))))))), rfl, rfl, rfl, rfl⟩

theorem accounted_iff_good_freed : ∃ (trail : List (State Unit × Action Unit)) (u : State Unit),
    trail.map Prod.snd = launchActions ++ [.free 16] ∧
      (Always (fun s => s.memory.Accounted) trail u ↔
        ∀ visited ∈ trail, Good visited.1 visited.2) := by
  obtain ⟨trail, s, run, actions, idle, drained, -⟩ := launches
  have longer := run.snoc (.call idle (.free 16 drained))
  exact ⟨_, _, by rw [map_append, actions]; rfl, accounted_iff_good longer⟩

/-- A `cudaFree` at the other address takes the ranges of the active allocation away. -/
theorem alias_unaccounted :
    ¬ ∀ (trail : List (State Unit × Action Unit)) (u : State Unit),
      Run (Step false) initial trail u → Always (fun s => s.memory.Accounted) trail u := by
  intro always
  obtain ⟨trail, s, run, -, idle, drained, memory⟩ := launches
  have accounted := (always _ _ (run.snoc (.call idle (.free 4096 drained)))).2
  have freed : launchedMemory.cudaFree 4096 = { launchedMemory with allocations := .empty } := rfl
  have collected : (s.memory.cudaFree 4096).collect s.references =
      { launchedMemory with allocations := .empty } := by
    rw [memory, freed]
    simp [Memory.collect, launchedMemory]
  have broken : { launchedMemory with allocations := .empty }.Accounted := collected ▸ accounted
  exact absurd (broken.recorded _ mem_cons_self rfl _ (base_mem_ranges _)) not_mem_nil

end CuMetal.Runtime.GraphMemory
