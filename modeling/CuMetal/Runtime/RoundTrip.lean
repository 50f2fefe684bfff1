import CuMetal.Runtime.Copies

/-!
# Copies to the device and back

A host-to-device copy replaces the words that are addresses in a live allocation by device
addresses and a device-to-host copy replaces them by host addresses, each counting words from the
start of its own transfer.
-/

namespace CuMetal.Runtime

open WordMap AllocationTable ByteMemory List

/-! ## Lookups in a table of buffers -/

theorem resolve_place {β : Type} {table : AllocationTable β} (bounded : Bounded table)
    {entry : BitVec 64 × Entry β} (mem : entry ∈ table.entries) {i : Nat}
    (inside : i < entry.2.size.toNat) :
    ∃ resolved, table.resolve (place entry.1 i) = some resolved ∧
      resolved.buffer = entry.2.buffer ∧ resolved.kind = entry.2.kind ∧
      resolved.offset = BitVec.ofNat 64 i ∧
      resolved.remainingSize.toNat = entry.2.size.toNat - i := by
  have ends := bounded.ends entry mem
  have address : (place entry.1 i).toNat = entry.1.toNat + i := by
    rw [place, BitVec.toNat_add, BitVec.toNat_ofNat]
    omega
  have holds : Contains entry (place entry.1 i) := by
    rw [Contains, address]
    omega
  cases result : table.resolve (place entry.1 i) with
  | none => exact absurd holds (bounded.resolvesExactly.missing _ result entry mem)
  | some resolved =>
    obtain ⟨other, -, -, unique, buffer, kind, -, offset, total⟩ :=
      bounded.resolvesExactly.found _ resolved result
    obtain rfl := unique entry mem holds
    rw [address] at offset
    refine ⟨resolved, rfl, buffer, kind, ?_, by omega⟩
    apply BitVec.eq_of_toNat_eq
    rw [offset, BitVec.toNat_ofNat]
    omega

/-- The two ranges of a buffer, which resolve to the same offsets. -/
structure Ranges (table : AllocationTable Buffer) (buffer : Buffer) (size : Nat) : Prop where
  named : buffer.contents ≠ 0
  contentsEnd : buffer.contents.toNat + size < 2 ^ 64
  deviceEnd : buffer.deviceAddress ≠ 0 → buffer.deviceAddress.toNat + size < 2 ^ 64
  contents : ∀ i, i < size → ∃ resolved,
    table.resolve (ByteMemory.place buffer.contents i) = some resolved ∧
      resolved.buffer = some buffer ∧ resolved.offset = BitVec.ofNat 64 i
  device : buffer.deviceAddress ≠ 0 → ∀ i, i < size → ∃ resolved,
    table.resolve (ByteMemory.place buffer.deviceAddress i) = some resolved ∧
      resolved.buffer = some buffer ∧ resolved.offset = BitVec.ofNat 64 i

variable {address : BitVec 64}

theorem Recorded.ranges {table : AllocationTable Buffer} (recorded : Recorded table)
    {resolved : ResolvedAllocation Buffer} (result : table.resolve address = some resolved) :
    ∃ buffer, resolved.buffer = some buffer ∧
      Ranges table buffer (resolved.offset.toNat + resolved.remainingSize.toNat) ∧
      0 < resolved.remainingSize.toNat := by
  obtain ⟨entry, mem, holds, -, owner, -, -, offset, total⟩ :=
    recorded.bounded.resolvesExactly.found _ _ result
  obtain ⟨buffer, held, -⟩ := recorded.buffer entry mem
  obtain ⟨first, first_mem, first_key, first_owner, first_size⟩ :=
    recorded.contents entry mem buffer held
  have low := holds.1
  have high := holds.2
  refine ⟨buffer, owner.trans held, ?_, by omega⟩
  rw [total]
  have located : ∀ other ∈ table.entries, other.2.buffer = some buffer →
      other.2.size = entry.2.size → ∀ i, i < entry.2.size.toNat → ∃ resolved,
        table.resolve (place other.1 i) = some resolved ∧
          resolved.buffer = some buffer ∧ resolved.offset = BitVec.ofNat 64 i := by
    intro other mem' owner' size i inside
    obtain ⟨found, result', buffer', -, offset', -⟩ :=
      resolve_place recorded.bounded mem' (i := i) (by rw [size]; exact inside)
    exact ⟨found, result', buffer'.trans owner', offset'⟩
  constructor
  · rw [← first_key]
    exact recorded.bounded.base first first_mem
  · rw [← first_key, ← first_size]
    exact recorded.bounded.ends first first_mem
  · intro address_ne
    obtain ⟨second, second_mem, second_key, -, second_size⟩ :=
      recorded.device entry mem buffer held address_ne
    rw [← second_key, ← second_size]
    exact recorded.bounded.ends second second_mem
  · rw [← first_key]
    exact located first first_mem first_owner first_size
  · intro address_ne
    obtain ⟨second, second_mem, second_key, second_owner, second_size⟩ :=
      recorded.device entry mem buffer held address_ne
    rw [← second_key]
    exact located second second_mem second_owner second_size

/-- A sum that does not leave the address space passes the check of the rewritings. -/
theorem not_beyond {base offset : BitVec 64} (fits : base.toNat + offset.toNat < 2 ^ 64) :
    ¬ maxAddress - offset < base := by
  have small := offset.isLt
  have all : maxAddress.toNat = 2 ^ 64 - 1 := by decide
  have below : offset ≤ maxAddress := by
    rw [BitVec.le_def, all]
    omega
  rw [BitVec.lt_def, BitVec.toNat_sub_of_le below, all]
  omega

section Rewritings

variable {table : AllocationTable Buffer} (recorded : Recorded table)

include recorded

variable {candidate : BitVec 64} {resolved : ResolvedAllocation Buffer} {buffer : Buffer}

theorem restoredPointer_eq (result : table.resolve candidate = some resolved)
    (owner : resolved.buffer = some buffer) :
    restoredPointer table candidate = buffer.contents + resolved.offset := by
  obtain ⟨buffer', owner', ranges, -⟩ := recorded.ranges result
  obtain rfl := Option.some.inj (owner.symm.trans owner')
  have contentsEnd := ranges.contentsEnd
  have candidate_ne : candidate ≠ 0 := by
    rintro rfl
    cases result
  rw [restoredPointer, if_neg candidate_ne, result]
  simp only [owner]
  rw [if_neg]
  rw [not_or]
  exact ⟨ranges.named, not_beyond (by omega)⟩

theorem relocatedPointer_eq (result : table.resolve candidate = some resolved)
    (owner : resolved.buffer = some buffer) (address : buffer.deviceAddress ≠ 0) :
    relocatedPointer table candidate = buffer.deviceAddress + resolved.offset := by
  obtain ⟨buffer', owner', ranges, -⟩ := recorded.ranges result
  obtain rfl := Option.some.inj (owner.symm.trans owner')
  have deviceEnd := ranges.deviceEnd address
  have candidate_ne : candidate ≠ 0 := by
    rintro rfl
    cases result
  rw [relocatedPointer, if_neg candidate_ne, result]
  simp only [owner]
  rw [if_neg]
  rw [not_or]
  exact ⟨address, not_beyond (by omega)⟩

theorem restoredPointer_congr {other : BitVec 64} {resolved' : ResolvedAllocation Buffer}
    (result : table.resolve candidate = some resolved) (owner : resolved.buffer = some buffer)
    (result' : table.resolve other = some resolved') (owner' : resolved'.buffer = some buffer)
    (same : resolved'.offset = resolved.offset) :
    restoredPointer table other = restoredPointer table candidate := by
  rw [restoredPointer_eq recorded result owner, restoredPointer_eq recorded result' owner', same]

/-- What is restored does not depend on whether it was relocated, or restored, before. -/
theorem restores : Undoes (restoredPointer table) (relocatedPointer table) := by
  constructor
  · intro word
    cases result : table.resolve word with
    | none => simp [relocatedPointer, result]
    | some resolved =>
      obtain ⟨buffer, owner, ranges, positive⟩ := recorded.ranges result
      by_cases address : buffer.deviceAddress = 0
      · have kept : relocatedPointer table word = word := by
          simp [relocatedPointer, result, owner, address]
        rw [kept]
      · obtain ⟨found, result', owner', offset⟩ :=
          ranges.device address resolved.offset.toNat (by omega)
        rw [BitVec.ofNat_toNat, BitVec.setWidth_eq] at offset
        rw [place, BitVec.ofNat_toNat, BitVec.setWidth_eq] at result'
        rw [relocatedPointer_eq recorded result owner address]
        exact restoredPointer_congr recorded result owner result' owner' offset
  · intro word
    cases result : table.resolve word with
    | none =>
      have kept : restoredPointer table word = word := by
        simp [restoredPointer, result]
      rw [kept, kept]
    | some resolved =>
      obtain ⟨buffer, owner, ranges, positive⟩ := recorded.ranges result
      obtain ⟨found, result', owner', offset⟩ :=
        ranges.contents resolved.offset.toNat (by omega)
      rw [BitVec.ofNat_toNat, BitVec.setWidth_eq] at offset
      rw [place, BitVec.ofNat_toNat, BitVec.setWidth_eq] at result'
      have again := restoredPointer_congr recorded result owner result' owner' offset
      rwa [← restoredPointer_eq recorded result owner] at again

end Rewritings

/-- Part of a recorded allocation, with the place where the host sees it. -/
structure InAllocation (table : AllocationTable Buffer) (pointer : BitVec 64) (count : Nat)
    (host : BitVec 64) : Prop where
  lookup : ∃ resolved buffer, table.resolve pointer = some resolved ∧
    resolved.buffer = some buffer ∧ count ≤ resolved.remainingSize.toNat ∧
    host = buffer.contents + resolved.offset

/-- Memory of the program that no allocation records. -/
structure Pageable (table : AllocationTable Buffer) (pointer : BitVec 64) (count : Nat) :
    Prop where
  named : pointer ≠ 0
  inside : pointer.toNat + count ≤ 2 ^ 64
  unrecorded : ∀ i, i < count → table.resolve (ByteMemory.place pointer i) = none

/-- Every piece of the memory that a pointer names is found at its place. -/
def Accessible (table : AllocationTable Buffer) (pointer : BitVec 64) (count : Nat)
    (host : BitVec 64) : Prop :=
  ∀ start length, 0 < length → start + length ≤ count →
    ByteMemory.place pointer start ≠ 0 ∧ ByteMemory.place host start ≠ 0 ∧
      hostAccessiblePointer table (ByteMemory.place pointer start) (BitVec.ofNat 64 length) =
        ByteMemory.place host start

variable {pointer host : BitVec 64} {table : AllocationTable Buffer} {count : Nat}

theorem toNat_place {i : Nat} (inside : pointer.toNat + i < 2 ^ 64) :
    (place pointer i).toNat = pointer.toNat + i := by
  rw [place, BitVec.toNat_add, BitVec.toNat_ofNat]
  omega

theorem ne_zero_of_toNat (positive : 0 < address.toNat) : address ≠ 0 := by
  rintro rfl
  exact absurd positive (lt_irrefl 0)

theorem toNat_pos_of_ne (named : address ≠ 0) : 0 < address.toNat := by
  rcases Nat.eq_zero_or_pos address.toNat with zero | positive
  · exact absurd (BitVec.eq_of_toNat_eq (by simpa using zero)) named
  · exact positive

theorem Pageable.accessible
    (pageable : Pageable table pointer count) : Accessible table pointer count pointer := by
  intro start length positive inside
  have room := pageable.inside
  have named := toNat_pos_of_ne pageable.named
  have place_ne : place pointer start ≠ 0 := by
    apply ne_zero_of_toNat
    rw [toNat_place (by omega)]
    omega
  refine ⟨place_ne, place_ne, ?_⟩
  rw [hostAccessiblePointer, if_neg place_ne, pageable.unrecorded start (by omega)]

theorem InAllocation.resolve_place (recorded : Recorded table)
 (within : InAllocation table pointer count host) {start : Nat} (inside : start < count) :
    ∃ resolved buffer, table.resolve (place pointer start) = some resolved ∧
      resolved.buffer = some buffer ∧ count - start ≤ resolved.remainingSize.toNat ∧
      buffer.contents ≠ 0 ∧
      buffer.contents.toNat + resolved.offset.toNat + resolved.remainingSize.toNat < 2 ^ 64 ∧
      place host start = buffer.contents + resolved.offset := by
  obtain ⟨resolved, buffer, result, owner, room, rfl⟩ := within.lookup
  obtain ⟨entry, mem, holds, -, owner', -, -, offset, total⟩ :=
    recorded.bounded.resolvesExactly.found _ _ result
  have ends := recorded.bounded.ends entry mem
  have low := holds.1
  -- the pointer is the entry's own base with the offset added
  have shifted : place pointer start =
      place entry.1 (resolved.offset.toNat + start) := by
    apply BitVec.eq_of_toNat_eq
    rw [toNat_place (by omega), toNat_place (by omega)]
    omega
  obtain ⟨found, result', owner'', -, offset', remaining⟩ :=
    Runtime.resolve_place recorded.bounded mem (i := resolved.offset.toNat + start) (by omega)
  obtain ⟨buffer', held, ranges, -⟩ := recorded.ranges result
  obtain rfl := Option.some.inj (owner.symm.trans held)
  have contentsEnd := ranges.contentsEnd
  have offset_toNat : found.offset.toNat = resolved.offset.toNat + start := by
    rw [offset', BitVec.toNat_ofNat]
    omega
  refine ⟨found, buffer, by rw [shifted]; exact result', by rw [owner'', ← owner', owner],
    by omega, ranges.named, by omega, ?_⟩
  rw [place, offset', BitVec.ofNat_add, BitVec.ofNat_toNat, BitVec.setWidth_eq,
    BitVec.add_assoc]

theorem InAllocation.accessible (recorded : Recorded table)
 (within : InAllocation table pointer count host) :
    Accessible table pointer count host := by
  intro start length positive inside
  obtain ⟨resolved, buffer, result, owner, room, named, ends, place⟩ :=
    within.resolve_place recorded (show start < count by omega)
  have place_ne : ByteMemory.place pointer start ≠ 0 := by
    intro zero
    rw [zero] at result
    cases result
  have positive' := toNat_pos_of_ne named
  have host_ne : ByteMemory.place host start ≠ 0 := by
    rw [place]
    apply ne_zero_of_toNat
    rw [BitVec.toNat_add]
    omega
  refine ⟨place_ne, host_ne, ?_⟩
  rw [hostAccessiblePointer, if_neg place_ne, result]
  simp only [owner]
  rw [if_neg, place]
  rw [not_or, BitVec.lt_def, BitVec.toNat_ofNat]
  exact ⟨by omega, named⟩

theorem InAllocation.isDevicePointer (recorded : Recorded table)
 (within : InAllocation table pointer count host) {start : Nat} (inside : start < count) :
    isDevicePointer table (place pointer start) = true := by
  obtain ⟨resolved, -, result, -⟩ := within.resolve_place recorded inside
  have place_ne : place pointer start ≠ 0 := by
    intro zero
    rw [zero] at result
    cases result
  simpa [Runtime.isDevicePointer, result] using place_ne

/-- Calls of `cudaMemcpy` for the pieces of a transfer, each synchronised. -/
def copies (kind : MemcpyKind) (dst src : BitVec 64) (calls : List (Nat × Nat))
    (state : RuntimeState) : RuntimeState :=
  calls.foldl (fun state piece =>
    (cudaMemcpy .success (ByteMemory.place dst piece.1) (ByteMemory.place src piece.1)
      (BitVec.ofNat 64 piece.2) kind state).2) state

section Transfers

variable {state : RuntimeState} {kind : MemcpyKind} {dst src hostDst hostSrc : BitVec 64}
  {count : Nat}

@[simp] theorem stagedBytes_nil (table : AllocationTable Buffer) (kind : MemcpyKind) :
    stagedBytes table kind [] = [] := by
  cases kind <;> rfl

section

variable (initialised : state.initStatus = .success) (small : count < 2 ^ 64)
  (dstEnd : Accessible state.allocations dst count hostDst)
  (srcEnd : Accessible state.allocations src count hostSrc)
  (resolves : ∀ start, start < count → resolveMemcpyKind state.allocations (ByteMemory.place dst
    start) (ByteMemory.place src start) kind = .ok kind)

include initialised small dstEnd srcEnd resolves

theorem cudaMemcpy_piece {piece : Nat × Nat} (inside : piece.1 + piece.2 ≤ count) :
    (cudaMemcpy .success (place dst piece.1) (place src piece.1)
      (BitVec.ofNat 64 piece.2) kind state).2 =
    { state with
      memory := transferPiece (stagedBytes state.allocations kind) hostDst hostSrc
        state.memory piece } := by
  have length : (BitVec.ofNat 64 piece.2).toNat = piece.2 := by
    rw [BitVec.toNat_ofNat]
    omega
  rcases Nat.eq_zero_or_pos piece.2 with zero | positive
  · -- an empty piece transfers nothing, whether or not its call succeeds
    have none : transferPiece (stagedBytes state.allocations kind) hostDst hostSrc
        state.memory piece = state.memory := by
      rw [transferPiece, zero]
      exact (congrArg _ (stagedBytes_nil _ _)).trans write_nil
    rw [none, zero]
    unfold cudaMemcpy
    split
    · rfl
    split
    · rfl
    split
    · rfl
    split <;> rfl
  · obtain ⟨dst_ne, hostDst_ne, hostDst_eq⟩ := dstEnd piece.1 piece.2 positive inside
    obtain ⟨src_ne, hostSrc_ne, hostSrc_eq⟩ := srcEnd piece.1 piece.2 positive inside
    have counted : 0 < BitVec.ofNat 64 piece.2 := by
      rw [BitVec.lt_def, length]
      exact positive
    unfold cudaMemcpy
    rw [if_neg (by tauto), if_neg (by simp [initialised]), resolves piece.1 (by omega)]
    simp only [ne_eq, not_true_eq_false, if_false, counted, if_true, hostDst_eq, hostSrc_eq,
      hostDst_ne, hostSrc_ne, or_self, length]
    rfl

theorem copies_eq {calls : List (Nat × Nat)} (inside : ∀ piece ∈ calls, piece.1 + piece.2 ≤ count) :
    copies kind dst src calls state =
      { state with
        memory := transfer (stagedBytes state.allocations kind) hostDst hostSrc calls
          state.memory } := by
  induction calls generalizing state with
  | nil => rfl
  | cons piece rest ih =>
    rw [copies, foldl_cons, cudaMemcpy_piece initialised small dstEnd srcEnd resolves
      (inside piece mem_cons_self)]
    exact ih initialised dstEnd srcEnd resolves
      (fun later mem => inside later (mem_cons_of_mem _ mem))

end

end Transfers

/-! ## The round trip -/

/-- The string that a host range holds, a range of a device allocation of the same length, and
the host range that receives what comes back. -/
structure Journey (state : RuntimeState) (device source target : BitVec 64)
    (hostDevice hostSource hostTarget : BitVec 64) (bytes : List UInt8) : Prop where
  reachable : Reachable state.allocations
  initialised : state.initStatus = .success
  device : InAllocation state.allocations device bytes.length hostDevice
  source : (Pageable state.allocations source bytes.length ∧ hostSource = source) ∨
    InAllocation state.allocations source bytes.length hostSource
  target : (Pageable state.allocations target bytes.length ∧ hostTarget = target) ∨
    InAllocation state.allocations target bytes.length hostTarget
  sourceApart : ∀ i j, i < bytes.length → j < bytes.length →
    ByteMemory.place hostSource i ≠ ByteMemory.place hostDevice j
  targetApart : ∀ i j, i < bytes.length → j < bytes.length →
    ByteMemory.place hostDevice i ≠ ByteMemory.place hostTarget j
  held : state.memory.read hostSource bytes.length = bytes

/-- The state after the string went to the device and came back, in the given calls. -/
def thereAndBack (device source target : BitVec 64) (there back : List (Nat × Nat))
    (state : RuntimeState) : RuntimeState :=
  copies .deviceToHost target device back (copies .hostToDevice device source there state)

theorem accessible_of_end {table : AllocationTable Buffer} (recorded : Recorded table)
    {pointer host : BitVec 64} {count : Nat}
    (hostEnd : (Pageable table pointer count ∧ host = pointer) ∨
      InAllocation table pointer count host) : Accessible table pointer count host := by
  rcases hostEnd with ⟨pageable, rfl⟩ | within
  · exact pageable.accessible
  · exact within.accessible recorded

section

variable {state : RuntimeState}
  {device source target hostDevice hostSource hostTarget : BitVec 64} {bytes : List UInt8}
  (journey : Journey state device source target hostDevice hostSource hostTarget bytes)
  {there back : List Nat} (thereWhole : there.sum = bytes.length)
  (backWhole : back.sum = bytes.length) {thereCalls backCalls : List (Nat × Nat)}
  (thereOrder : thereCalls.Perm (pieces 0 there)) (backOrder : backCalls.Perm (pieces 0 back))

include journey thereWhole backWhole thereOrder backOrder

/-- What comes back is the string with the words of the first transfer relocated and then those
of the second one restored. -/
theorem read_thereAndBack :
    (thereAndBack device source target thereCalls backCalls state).memory.read hostTarget
        bytes.length =
      mapPieces (restoredPointer state.allocations) back
        (mapPieces (relocatedPointer state.allocations) there bytes) := by
  have recorded := Recorded.of_reachable journey.reachable
  have small : bytes.length < 2 ^ 64 := by
    obtain ⟨resolved, -, -, -, room, -⟩ := journey.device.lookup
    have limit := resolved.remainingSize.isLt
    omega
  have bounds : ∀ {lengths : List Nat} {calls : List (Nat × Nat)}, lengths.sum = bytes.length →
      calls.Perm (pieces 0 lengths) → ∀ piece ∈ calls, piece.1 + piece.2 ≤ bytes.length := by
    intro lengths calls whole order piece mem
    have limits := (pieces_bounds (order.mem_iff.mp mem)).2
    omega
  have deviceEnd := journey.device.accessible recorded
  have up : ∀ start, start < bytes.length →
      resolveMemcpyKind state.allocations (place device start)
        (place source start) .hostToDevice = .ok .hostToDevice := by
    intro start inside
    simp [resolveMemcpyKind, journey.device.isDevicePointer recorded inside]
  have down : ∀ start, start < bytes.length →
      resolveMemcpyKind state.allocations (place target start)
        (place device start) .deviceToHost = .ok .deviceToHost := by
    intro start inside
    simp [resolveMemcpyKind, journey.device.isDevicePointer recorded inside]
  have arrives := copies_eq journey.initialised small deviceEnd
    (accessible_of_end recorded journey.source) up (bounds thereWhole thereOrder)
  rw [thereAndBack, arrives]
  generalize moved : transfer (stagedBytes state.allocations .hostToDevice) hostDevice
    hostSource thereCalls state.memory = memory
  have returns : copies .deviceToHost target device backCalls { state with memory := memory } =
      { state with
        memory := transfer (stagedBytes state.allocations .deviceToHost) hostTarget
          hostDevice backCalls memory } := by
    apply copies_eq
    · exact journey.initialised
    · exact small
    · exact accessible_of_end recorded journey.target
    · exact deviceEnd
    · exact down
    · exact bounds backWhole backOrder
  rw [returns, ← moved]
  show read (transfer (mapWords (restoredPointer state.allocations))
    hostTarget hostDevice backCalls (transfer
      (mapWords (relocatedPointer state.allocations)) hostDevice hostSource thereCalls
      state.memory)) hostTarget bytes.length = _
  rw [read_transfer (le_of_lt small) journey.targetApart backWhole backOrder,
    read_transfer (le_of_lt small) journey.sourceApart thereWhole thereOrder,
    journey.held]

/-- A string goes to the device and comes back unchanged exactly when no word of the way back is
a device address in a live allocation, and each word that the way there relocates is a word of
the way back too (or is mended by words that overlap it). -/
theorem thereAndBack_iff :
    (thereAndBack device source target thereCalls backCalls state).memory.read hostTarget
        bytes.length = bytes ↔
      Cancels (restoredPointer state.allocations) (relocatedPointer state.allocations) there back
        bytes := by
  rw [read_thereAndBack journey thereWhole backWhole thereOrder backOrder]
  exact roundTrip_iff (restores (Recorded.of_reachable journey.reachable)) thereWhole backWhole

end

/-- The table after one `cudaMalloc` of 16 bytes, seen at 0x1000 by the host and at 0x100000 by
the device. -/
def oneBufferTable : AllocationTable Buffer :=
  (cudaMalloc .success .success (some ⟨0, 0x1000, 0x100000⟩) false AllocationTable.initial
    16).allocations

theorem reachable_oneBufferTable : Reachable oneBufferTable := by
  apply Reachable.malloc
  · exact .initial
  · rintro _ ⟨⟩
    exact ⟨by decide, by decide⟩

/-- A state whose memory holds the bytes at the address 0x20. -/
def holding (bytes : List UInt8) : RuntimeState where
  initStatus := .success
  allocations := oneBufferTable
  memory := ByteMemory.write (fun _ => 0) 0x20 bytes

theorem journey_holding (bytes : List UInt8) (short : bytes.length ≤ 16) :
    Journey (holding bytes) 0x1000 0x20 0x40 0x1000 0x20 0x40 bytes where
  reachable := reachable_oneBufferTable
  initialised := rfl
  device := ⟨_, _, rfl, rfl, short, rfl⟩
  source := by
    have free : ∀ i < 16, oneBufferTable.resolve (place 0x20 i) = none := by decide
    exact .inl ⟨⟨by decide, by simp; omega, fun i inside => free i (by omega)⟩, rfl⟩
  target := by
    have free : ∀ i < 16, oneBufferTable.resolve (place 0x40 i) = none := by decide
    exact .inl ⟨⟨by decide, by simp; omega, fun i inside => free i (by omega)⟩, rfl⟩
  sourceApart := by
    have apart : ∀ i < 16, ∀ j < 16, place 0x20 i ≠ place 0x1000 j := by decide
    exact fun i j inside inside' => apart i (by omega) j (by omega)
  targetApart := by
    have apart : ∀ i < 16, ∀ j < 16, place 0x1000 i ≠ place 0x40 j := by decide
    exact fun i j inside inside' => apart i (by omega) j (by omega)
  held := by
    apply ext_getElem?
    intro i
    rcases lt_or_ge i bytes.length with inside | beyond
    · rw [getElem?_read inside, holding, write_inside (by omega) inside]
    · rw [getElem?_eq_none (by rw [length_read]; exact beyond), getElem?_eq_none beyond]

/-- A host address that goes to the device as one word and comes back in two halves is changed,
and so is a device address that comes back as one word. -/
theorem thereAndBack_changes :
    (Journey (holding (bytesOf 0x1008)) 0x1000 0x20 0x40 0x1000 0x20 0x40 (bytesOf 0x1008) ∧
      (thereAndBack 0x1000 0x20 0x40 (pieces 0 [8]) (pieces 0 [4, 4])
        (holding (bytesOf 0x1008))).memory.read 0x40 8 ≠ bytesOf 0x1008) ∧
    (Journey (holding (bytesOf 0x100008)) 0x1000 0x20 0x40 0x1000 0x20 0x40 (bytesOf 0x100008) ∧
      (thereAndBack 0x1000 0x20 0x40 (pieces 0 [8]) (pieces 0 [8])
        (holding (bytesOf 0x100008))).memory.read 0x40 8 ≠ bytesOf 0x100008) := by
  have short : ∀ word, (bytesOf word).length ≤ 16 := fun word => by simp [length_bytesOf]
  have halves := read_thereAndBack (journey_holding (bytesOf 0x1008) (short _))
    (show [8].sum = (bytesOf 0x1008).length from rfl)
    (show [4, 4].sum = (bytesOf 0x1008).length from rfl) (List.Perm.refl _) (List.Perm.refl _)
  have whole := read_thereAndBack (journey_holding (bytesOf 0x100008) (short _))
    (show [8].sum = (bytesOf 0x100008).length from rfl)
    (show [8].sum = (bytesOf 0x100008).length from rfl) (List.Perm.refl _) (List.Perm.refl _)
  rw [length_bytesOf] at halves whole
  rw [halves, whole]
  exact ⟨⟨journey_holding _ (short _), by decide +kernel⟩, journey_holding _ (short _),
    by decide +kernel⟩

/-- A host address and a device address. -/
def twoAddresses : List UInt8 := bytesOf 0x1008 ++ bytesOf 0x100008

/-- The host address goes and comes back as one word, and no call has the device address whole. -/
theorem thereAndBack_split :
    (thereAndBack 0x1000 0x20 0x40 [(8, 3), (0, 8), (11, 5)] [(12, 4), (0, 8), (8, 4)]
      (holding twoAddresses)).memory.read 0x40 16 = twoAddresses := by
  have length : twoAddresses.length = 16 := by rw [twoAddresses, length_append]; rfl
  have there : [(8, 3), (0, 8), (11, 5)].Perm (pieces 0 [8, 3, 5]) := by decide
  have back : [(12, 4), (0, 8), (8, 4)].Perm (pieces 0 [8, 4, 4]) := by decide
  have alone : ∀ position < 16,
      (IsWord [8, 3, 5] position → position = 0) ∧ (IsWord [8, 4, 4] position → position = 0) := by
    decide
  have inside : ∀ {lengths position}, lengths.sum = 16 → IsWord lengths position →
      position < 16 := by
    intro lengths position whole word
    obtain ⟨-, -, inside, -⟩ := coverOf_spec word
    omega
  rw [← length]
  apply (thereAndBack_iff (journey_holding twoAddresses length.le)
    (show [8, 3, 5].sum = twoAddresses.length from length.symm)
    (show [8, 4, 4].sum = twoAddresses.length from length.symm) there back).mpr
  constructor
  · intro position word
    obtain rfl := (alone position (inside rfl word)).2 word
    decide +kernel
  · intro position word _
    obtain rfl := (alone position (inside rfl word)).1 word
    exact .inl (by decide)

end CuMetal.Runtime
