import CuMetal.Runtime.AllocationFacts

/-!
# Buffers and their recorded ranges

The calls of `runtime/rt/cuda_runtime.cpp` that change the allocation table: a buffer is recorded
under the CPU mapping of its contents and under its GPU address.
-/

namespace CuMetal.Runtime

open OrderedMap

/-- The `cudaError_t` of `api/cuda_runtime.h:169-206`. -/
inductive CudaError
  | success | invalidValue | memoryAllocation | initializationError | launchTimeout
  | invalidDevicePointer | notReady | peerAccessAlreadyEnabled | peerAccessNotEnabled
  | devicesUnavailable | illegalAddress | launchOutOfResources | launchFailure
  | cooperativeLaunchTooLarge | notPermitted | notSupported | callRequiresNewerDriver
  | graphExecUpdateFailure | unknown | assert_ | invalidDeviceFunction | invalidConfiguration
  | invalidDevice | invalidMemcpyDirection | insufficientDriver | noDevice
  | invalidResourceHandle | operatingSystem | cudartUnloading
  deriving DecidableEq, Repr

/-- `metal_backend::Buffer` (`metal_backend.h:14-22`): a buffer object with its `contents()` and
`device_address()`. -/
structure Buffer where
  identity : Nat
  contents : BitVec 64
  deviceAddress : BitVec 64
  deriving DecidableEq

/-- What a call that allocates leaves: its status, the pointer it hands out and the table. -/
structure Allocated where
  status : CudaError
  pointer : BitVec 64
  allocations : AllocationTable Buffer

/-- Both ranges of a buffer, or none of them: what `cudaMalloc` (`cuda_runtime.cpp:3167-3185`),
`cudaHostAlloc` (3270-3283) and `activate_graph_allocation` (1388-1399) do with the table. -/
def recordBuffer (table : AllocationTable Buffer) (base aliasBase size : BitVec 64)
    (kind : AllocationKind) (flags : BitVec 32) (buffer : Buffer) :
    CudaError × AllocationTable Buffer :=
  match table.insert base size kind flags (some buffer) false with
  | .error _ => (.memoryAllocation, table)
  | .ok recorded =>
    if aliasBase ≠ 0 ∧ aliasBase ≠ base then
      match recorded.insert aliasBase size kind flags (some buffer) true with
      | .error _ => (.memoryAllocation, (recorded.erase base).getD recorded)
      | .ok aliased => (.success, aliased)
    else (.success, recorded)

/-- `cudaMalloc` (`cuda_runtime.cpp:3141-3199`) with a place for the pointer. `initialization` is
the answer of `ensure_initialized`, `status` and `buffer` are those of `allocate_buffer`. -/
def cudaMalloc (initialization status : CudaError) (buffer : Option Buffer)
    (useMetalDeviceAddresses : Bool) (table : AllocationTable Buffer) (size : BitVec 64) :
    Allocated :=
  if size = 0 then ⟨.invalidValue, 0, table⟩
  else if initialization ≠ .success then ⟨initialization, 0, table⟩
  else
    match status, buffer with
    | .success, some buffer =>
      if buffer.contents = 0 ∨ (useMetalDeviceAddresses ∧ buffer.deviceAddress = 0) then
        ⟨.memoryAllocation, 0, table⟩
      else
        let base := if useMetalDeviceAddresses then buffer.deviceAddress else buffer.contents
        let aliasBase := if base = buffer.contents then buffer.deviceAddress else buffer.contents
        let recorded := recordBuffer table base aliasBase size .device 0 buffer
        ⟨recorded.1, base, recorded.2⟩
    | .success, none => ⟨.memoryAllocation, 0, table⟩
    | status, _ => ⟨status, 0, table⟩

/-- `cudaHostAllocPortable | cudaHostAllocMapped | cudaHostAllocWriteCombined`. -/
def kSupportedHostAllocFlags : BitVec 32 := 1 ||| 2 ||| 4

/-- `cudaHostAlloc` (`cuda_runtime.cpp:3242-3293`). -/
def cudaHostAlloc (initialization status : CudaError) (buffer : Option Buffer)
    (table : AllocationTable Buffer) (size : BitVec 64) (flags : BitVec 32) : Allocated :=
  if size = 0 then ⟨.invalidValue, 0, table⟩
  else if flags &&& ~~~kSupportedHostAllocFlags ≠ 0 then ⟨.invalidValue, 0, table⟩
  else if initialization ≠ .success then ⟨initialization, 0, table⟩
  else
    match status, buffer with
    | .success, some buffer =>
      if buffer.contents = 0 then ⟨.memoryAllocation, 0, table⟩
      else
        let recorded := recordBuffer table buffer.contents buffer.deviceAddress size .host flags
          buffer
        ⟨recorded.1, buffer.contents, recorded.2⟩
    | .success, none => ⟨.memoryAllocation, 0, table⟩
    | status, _ => ⟨status, 0, table⟩

/-- The `GraphAllocationState` that `cudaGraphAddMemAllocNode` makes
(`cuda_runtime.cpp:5158-5182`), as far as the table depends on it. -/
structure GraphAllocation where
  buffer : Buffer
  base : BitVec 64
  aliasBase : BitVec 64
  size : BitVec 64
  active : Bool
  deriving DecidableEq

/-- The graph allocation of a new buffer (`cuda_runtime.cpp:5158-5182`). -/
def graphAllocation (useMetalDeviceAddresses : Bool) (buffer : Buffer) (size : BitVec 64) :
    Option GraphAllocation :=
  if buffer.contents = 0 ∨ (useMetalDeviceAddresses ∧ buffer.deviceAddress = 0) then none
  else
    let base := if useMetalDeviceAddresses then buffer.deviceAddress else buffer.contents
    let aliasBase := if base = buffer.contents then buffer.deviceAddress else buffer.contents
    some ⟨buffer, base, aliasBase, size, false⟩

/-- `activate_graph_allocation` (`cuda_runtime.cpp:1376-1411`). -/
def activateGraphAllocation (allocation : GraphAllocation) (table : AllocationTable Buffer) :
    CudaError × AllocationTable Buffer :=
  if allocation.base = 0 ∨ allocation.size = 0 ∨ allocation.active then (.invalidValue, table)
  else
    recordBuffer table allocation.base allocation.aliasBase allocation.size .device 0
      allocation.buffer

/-- The ranges of a buffer that the backend allocates end before the address space does. -/
def Buffer.Fits (buffer : Buffer) (size : BitVec 64) : Prop :=
  buffer.contents.toNat + size.toNat < 2 ^ 64 ∧ buffer.deviceAddress.toNat + size.toNat < 2 ^ 64

/-- The tables that calls of the runtime lead to. -/
inductive Reachable : AllocationTable Buffer → Prop
  | initial : Reachable AllocationTable.initial
  | malloc {table : AllocationTable Buffer} (initialization status : CudaError)
      (buffer : Option Buffer) (useMetalDeviceAddresses : Bool) (size : BitVec 64) :
      Reachable table → (∀ allocated ∈ buffer, allocated.Fits size) →
      Reachable
        (cudaMalloc initialization status buffer useMetalDeviceAddresses table size).allocations
  | hostAlloc {table : AllocationTable Buffer} (initialization status : CudaError)
      (buffer : Option Buffer) (size : BitVec 64) (flags : BitVec 32) :
      Reachable table → (∀ allocated ∈ buffer, allocated.Fits size) →
      Reachable (cudaHostAlloc initialization status buffer table size flags).allocations
  | activate {table : AllocationTable Buffer} (useMetalDeviceAddresses active : Bool)
      (buffer : Buffer) (size : BitVec 64) (allocation : GraphAllocation) :
      Reachable table → buffer.Fits size →
      graphAllocation useMetalDeviceAddresses buffer size = some allocation →
      Reachable (activateGraphAllocation { allocation with active := active } table).2
  | free {table next : AllocationTable Buffer} (pointer : BitVec 64) :
      Reachable table → table.erase pointer = some next → Reachable next
  | reset {table : AllocationTable Buffer} : Reachable table → Reachable table.clear

/-! ## What the table records -/

/-- Every recorded range is one of the two of its buffer, and the other one is recorded too. -/
structure Recorded (table : AllocationTable Buffer) : Prop where
  bounded : table.Bounded
  buffer : ∀ entry ∈ table.entries, ∃ buffer, entry.2.buffer = some buffer ∧
    (entry.1 = buffer.contents ∨ entry.1 = buffer.deviceAddress)
  contents : ∀ entry ∈ table.entries, ∀ buffer, entry.2.buffer = some buffer →
    ∃ other ∈ table.entries, other.1 = buffer.contents ∧ other.2.buffer = some buffer ∧
      other.2.size = entry.2.size
  device : ∀ entry ∈ table.entries, ∀ buffer, entry.2.buffer = some buffer →
    buffer.deviceAddress ≠ 0 →
    ∃ other ∈ table.entries, other.1 = buffer.deviceAddress ∧ other.2.buffer = some buffer ∧
      other.2.size = entry.2.size

namespace Recorded

open AllocationTable

variable {table : AllocationTable Buffer}

theorem initial : Recorded initial where
  bounded := .initial
  buffer := fun _ mem => absurd mem mem_empty
  contents := fun _ mem => absurd mem mem_empty
  device := fun _ mem => absurd mem mem_empty

variable {next : AllocationTable Buffer} {base : BitVec 64}

theorem congr (recorded : Recorded table)
    (same : ∀ entry, entry ∈ next.entries ↔ entry ∈ table.entries) : Recorded next where
  bounded :=
    { base := fun entry mem => recorded.bounded.base entry ((same entry).mp mem)
      ends := fun entry mem => recorded.bounded.ends entry ((same entry).mp mem)
      apart := fun first mem second mem' =>
        recorded.bounded.apart first ((same first).mp mem) second ((same second).mp mem') }
  buffer := fun entry mem => recorded.buffer entry ((same entry).mp mem)
  contents := fun entry mem buffer held => by
    obtain ⟨other, mem', rest⟩ := recorded.contents entry ((same entry).mp mem) buffer held
    exact ⟨other, (same other).mpr mem', rest⟩
  device := fun entry mem buffer held address => by
    obtain ⟨other, mem', rest⟩ := recorded.device entry ((same entry).mp mem) buffer held address
    exact ⟨other, (same other).mpr mem', rest⟩

theorem without (recorded : Recorded table) (gone : Option Buffer) :
    Recorded (table.filter fun entry => entry.2.buffer ≠ gone) where
  bounded := recorded.bounded.filter _
  buffer := fun entry mem => recorded.buffer entry (mem_filter.mp mem).1
  contents := fun entry mem buffer held => by
    obtain ⟨old, stays⟩ := mem_filter.mp mem
    obtain ⟨other, mem', same, owner, size⟩ := recorded.contents entry old buffer held
    refine ⟨other, mem_filter.mpr ⟨mem', ?_⟩, same, owner, size⟩
    rwa [owner, ← held]
  device := fun entry mem buffer held address => by
    obtain ⟨old, stays⟩ := mem_filter.mp mem
    obtain ⟨other, mem', same, owner, size⟩ := recorded.device entry old buffer held address
    refine ⟨other, mem_filter.mpr ⟨mem', ?_⟩, same, owner, size⟩
    rwa [owner, ← held]

theorem erase_eq (result : table.erase base = some next) :
    ∃ found, next = table.filter fun entry => entry.2.buffer ≠ found := by
  unfold erase at result
  split at result
  · cases result
  · split at result
    · cases result
    next found _ => exact ⟨found.2.buffer, (Option.some.inj result).symm⟩

theorem erase (recorded : Recorded table)
    (result : table.erase base = some next) : Recorded next := by
  obtain ⟨found, rfl⟩ := erase_eq result
  exact recorded.without found

theorem fresh_of_insert {size : BitVec 64}
    {kind : AllocationKind} {flags : BitVec 32} {buffer : Option Buffer} {isAlias : Bool}
    (result : table.insert base size kind flags buffer isAlias = .ok next)
    (fits : base.toNat + size.toNat < 2 ^ 64) : ∀ entry ∈ table.entries, entry.1 ≠ base := by
  intro entry mem same
  obtain ⟨accepted, -⟩ := insert_ok_iff.mp result
  simp only [Refuses, not_or, Bool.not_eq_true] at accepted
  obtain ⟨-, size_ne, -, after, -⟩ := accepted
  have beyond := le_of_not_overlapsNext after mem (le_of_eq same.symm)
  rw [BitVec.le_def, BitVec.toNat_add, Nat.mod_eq_of_lt fits, same] at beyond
  apply size_ne
  apply BitVec.eq_of_toNat_eq
  show size.toNat = 0
  omega

section Record

variable {base aliasBase size : BitVec 64} {kind : AllocationKind} {flags : BitVec 32}
  {buffer : Buffer}

def Bases (buffer : Buffer) (base aliasBase : BitVec 64) : Prop :=
  (base = buffer.contents ∧ aliasBase = buffer.deviceAddress) ∨
    (base = buffer.deviceAddress ∧ aliasBase = buffer.contents ∧ aliasBase ≠ 0)

theorem add {next : AllocationTable Buffer} (recorded : Recorded table)
    (bases : Bases buffer base aliasBase) (bounded : next.Bounded)
    (new : ∀ entry ∈ next.entries, entry ∈ table.entries ∨
      (entry.2.buffer = some buffer ∧ entry.2.size = size ∧
        (entry.1 = base ∨ entry.1 = aliasBase)))
    (old : ∀ entry ∈ table.entries, entry ∈ next.entries)
    (atBase : ∃ entry ∈ next.entries, entry.1 = base ∧ entry.2.buffer = some buffer ∧
      entry.2.size = size)
    (atAlias : aliasBase ≠ 0 → ∃ entry ∈ next.entries, entry.1 = aliasBase ∧
      entry.2.buffer = some buffer ∧ entry.2.size = size) : Recorded next where
  bounded := bounded
  buffer := fun entry mem => by
    rcases new entry mem with was | ⟨owner, -, key⟩
    · exact recorded.buffer entry was
    · refine ⟨buffer, owner, ?_⟩
      rcases bases with ⟨rfl, rfl⟩ | ⟨rfl, rfl, -⟩
      · exact key
      · exact key.symm
  contents := fun entry mem held owner => by
    rcases new entry mem with was | ⟨owner', size', -⟩
    · obtain ⟨other, mem', rest⟩ := recorded.contents entry was held owner
      exact ⟨other, old other mem', rest⟩
    · obtain rfl := Option.some.inj (owner.symm.trans owner')
      rw [size']
      rcases bases with ⟨rfl, rfl⟩ | ⟨rfl, rfl, named⟩
      · exact atBase
      · exact atAlias named
  device := fun entry mem held owner address => by
    rcases new entry mem with was | ⟨owner', size', -⟩
    · obtain ⟨other, mem', rest⟩ := recorded.device entry was held owner address
      exact ⟨other, old other mem', rest⟩
    · obtain rfl := Option.some.inj (owner.symm.trans owner')
      rw [size']
      rcases bases with ⟨rfl, rfl⟩ | ⟨rfl, rfl, -⟩
      · exact atAlias address
      · exact atBase

theorem recordBuffer (recorded : Recorded table) (bases : Bases buffer base aliasBase)
    (fits : base.toNat + size.toNat < 2 ^ 64) (fitsAlias : aliasBase.toNat + size.toNat < 2 ^ 64) :
    Recorded (Runtime.recordBuffer table base aliasBase size kind flags buffer).2 := by
  unfold Runtime.recordBuffer
  cases inserted : table.insert base size kind flags (some buffer) false with
  | error _ => exact recorded
  | ok first =>
    have fresh := fresh_of_insert inserted fits
    have bounded := recorded.bounded.insert inserted fits
    obtain ⟨-, rfl⟩ := insert_ok_iff.mp inserted
    have mem_first : ∀ entry, entry ∈
        (table.assign base ⟨size, kind, flags, some buffer, false⟩).entries ↔
          entry = (base, ⟨size, kind, flags, some buffer, false⟩) ∨ entry ∈ table.entries := by
      intro entry
      rw [mem_assign]
      refine or_congr_right ⟨fun mem => mem.1, fun mem => ⟨mem, fresh entry mem⟩⟩
    dsimp only
    split
    next other =>
      cases inserted' : insert
          (table.assign base ⟨size, kind, flags, some buffer, false⟩) aliasBase size kind flags
          (some buffer) true with
      | error _ =>
        -- the range under the other base is taken back
        dsimp only
        cases erased : AllocationTable.erase
            (table.assign base ⟨size, kind, flags, some buffer, false⟩) base with
        | none =>
          exfalso
          have base_ne : base ≠ 0 := bounded.base _ ((mem_first _).mpr (.inl rfl))
          have found := (find_eq_some_iff).mpr
            ⟨(mem_first (base, ⟨size, kind, flags, some buffer, false⟩)).mpr (.inl rfl), rfl⟩
          dsimp only at found
          rw [AllocationTable.erase, if_neg base_ne, found] at erased
          cases erased
        | some left =>
          obtain ⟨found, mem, key, kept⟩ := erasesExactly _ base left erased
          have owner : found.2.buffer = some buffer := by
            rcases (mem_first found).mp mem with rfl | was
            · rfl
            · exact absurd key (fresh found was)
          apply (recorded.without (some buffer)).congr
          intro entry
          rw [Option.getD_some, kept, mem_first, owner, mem_filter]
          constructor
          · rintro ⟨rfl | was, different⟩
            · exact absurd rfl different
            · exact ⟨was, by simpa using different⟩
          · rintro ⟨was, different⟩
            exact ⟨.inr was, by simpa using different⟩
      | ok second =>
        have fresh' := fresh_of_insert inserted' fitsAlias
        have bounded' := bounded.insert inserted' fitsAlias
        obtain ⟨-, rfl⟩ := insert_ok_iff.mp inserted'
        have mem_second : ∀ entry, entry ∈ entries
            ((table.assign base ⟨size, kind, flags, some buffer, false⟩).assign aliasBase
              ⟨size, kind, flags, some buffer, true⟩) ↔
            entry = (aliasBase, ⟨size, kind, flags, some buffer, true⟩) ∨
              entry = (base, ⟨size, kind, flags, some buffer, false⟩) ∨
              entry ∈ table.entries := by
          intro entry
          rw [mem_assign, ← mem_first]
          exact or_congr_right ⟨fun mem => mem.1, fun mem => ⟨mem, fresh' entry mem⟩⟩
        apply recorded.add bases bounded'
        · intro entry mem
          rcases (mem_second entry).mp mem with rfl | rfl | was
          · exact .inr ⟨rfl, rfl, .inr rfl⟩
          · exact .inr ⟨rfl, rfl, .inl rfl⟩
          · exact .inl was
        · exact fun entry was => (mem_second entry).mpr (.inr (.inr was))
        · exact ⟨_, (mem_second _).mpr (.inr (.inl rfl)), rfl, rfl, rfl⟩
        · exact fun _ => ⟨_, (mem_second _).mpr (.inl rfl), rfl, rfl, rfl⟩
    next one =>
      apply recorded.add bases bounded
      · intro entry mem
        rcases (mem_first entry).mp mem with rfl | was
        · exact .inr ⟨rfl, rfl, .inl rfl⟩
        · exact .inl was
      · exact fun entry was => (mem_first entry).mpr (.inr was)
      · exact ⟨_, (mem_first _).mpr (.inl rfl), rfl, rfl, rfl⟩
      · intro named
        have same : aliasBase = base := by
          by_contra different
          exact one ⟨named, different⟩
        exact ⟨_, (mem_first _).mpr (.inl rfl), same.symm, rfl, rfl⟩

end Record

variable {buffer : Buffer} {size : BitVec 64}

theorem bases_of_mode (useMetalDeviceAddresses : Bool) (named : buffer.contents ≠ 0) :
    let base := if useMetalDeviceAddresses then buffer.deviceAddress else buffer.contents
    Bases buffer base
      (if base = buffer.contents then buffer.deviceAddress else buffer.contents) := by
  cases useMetalDeviceAddresses with
  | false => exact .inl ⟨rfl, if_pos rfl⟩
  | true =>
    by_cases same : buffer.deviceAddress = buffer.contents
    · exact .inl ⟨same, by simp [same]⟩
    · exact .inr ⟨rfl, by simp [same], by simpa [same] using named⟩

theorem fits_of_bases {base aliasBase : BitVec 64}
    (fits : buffer.Fits size) (bases : Bases buffer base aliasBase) :
    base.toNat + size.toNat < 2 ^ 64 ∧ aliasBase.toNat + size.toNat < 2 ^ 64 := by
  rcases bases with ⟨rfl, rfl⟩ | ⟨rfl, rfl, -⟩
  · exact fits
  · exact fits.symm

variable {initialization status : CudaError}

theorem malloc (recorded : Recorded table) {buffer : Option Buffer} {mode : Bool}
    (fits : ∀ allocated ∈ buffer, allocated.Fits size) :
    Recorded (cudaMalloc initialization status buffer mode table size).allocations := by
  unfold cudaMalloc
  split
  · exact recorded
  split
  · exact recorded
  split
  next _ _ buffer =>
    split
    · exact recorded
    next valid =>
      have named : buffer.contents ≠ 0 := fun zero => valid (.inl zero)
      have bases := bases_of_mode mode named
      obtain ⟨reach, reach'⟩ := fits_of_bases (fits buffer rfl) bases
      exact recorded.recordBuffer bases reach reach'
  · exact recorded
  · exact recorded

theorem hostAlloc (recorded : Recorded table) {buffer : Option Buffer} {flags : BitVec 32}
    (fits : ∀ allocated ∈ buffer, allocated.Fits size) :
    Recorded (cudaHostAlloc initialization status buffer table size flags).allocations := by
  unfold cudaHostAlloc
  split
  · exact recorded
  split
  · exact recorded
  split
  · exact recorded
  split
  next _ _ buffer =>
    split
    · exact recorded
    · obtain ⟨reach, reach'⟩ := fits buffer rfl
      exact recorded.recordBuffer (.inl ⟨rfl, rfl⟩) reach reach'
  · exact recorded
  · exact recorded

theorem activate (recorded : Recorded table) {mode active : Bool}
 {allocation : GraphAllocation} (fits : buffer.Fits size)
    (made : graphAllocation mode buffer size = some allocation) :
    Recorded (activateGraphAllocation { allocation with active := active } table).2 := by
  unfold graphAllocation at made
  split at made
  · cases made
  next valid =>
    cases made
    have named : buffer.contents ≠ 0 := fun zero => valid (.inl zero)
    have bases := bases_of_mode mode named
    obtain ⟨reach, reach'⟩ := fits_of_bases fits bases
    rw [activateGraphAllocation, apply_ite Prod.snd]
    refine iteInduction (fun _ => recorded) fun _ => ?_
    exact recorded.recordBuffer bases reach reach'

theorem of_reachable (reachable : Reachable table) : Recorded table := by
  induction reachable with
  | initial => exact initial
  | malloc _ _ _ _ _ _ fits ih => exact ih.malloc fits
  | hostAlloc _ _ _ _ _ _ fits ih => exact ih.hostAlloc fits
  | activate _ _ _ _ _ _ fits made ih => exact ih.activate fits made
  | free _ _ result ih => exact ih.erase result
  | reset _ _ => exact initial

end Recorded

end CuMetal.Runtime
