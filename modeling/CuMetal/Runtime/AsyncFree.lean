import CuMetal.Lib.GuardedRun
import CuMetal.Runtime.Buffers

/-!
# Freeing in stream order

`cudaMalloc`, `cudaFree` and `cudaFreeAsync` (`runtime/rt/cuda_runtime.cpp`) by threads that take
turns, with the callbacks that `cudaFreeAsync` puts on the streams. The allocation table and
`pending_async_frees` have locks of their own, so each use of one of them is a step.
-/

namespace CuMetal.Runtime.Frees

/-- What a stream has to do: work, which a host function or the GPU does, or the callback of
`cudaFreeAsync` (`7565-7574`), before and after it erased the pointer from the table. Along with the
pointer the callback keeps the allocation that the call was made for, and the work that was on the
stream then. -/
inductive Item
  | work (isHostFunction : Bool)
  | free (pointer : BitVec 64) (allocation : Option Buffer) (before : List Nat)
  | release (pointer : BitVec 64)

def Item.isHostFunction : Item → Bool
  | .work isHostFunction => isHostFunction
  | .free .. | .release _ => true

/-- How far a thread is in its call. -/
inductive Phase (σ : Type)
  | idle
  /-- `cudaMalloc` before it records the second address (`3179`). -/
  | aliasing (buffer : Buffer) (base aliasBase size : BitVec 64)
  /-- `cudaFreeAsync` after it found the allocation (`7550`). -/
  | resolved (pointer : BitVec 64) (allocation : Option Buffer) (stream : σ)
  /-- It has put the pointer into `pending_async_frees` (`7556`). -/
  | claimed (pointer : BitVec 64) (allocation : Option Buffer) (stream : σ)
  /-- `cudaFree` in `metal_backend::synchronize`: it waits for the host functions of a stream, then
  for its tickets. -/
  | hostWait (pointer : BitVec 64) (before : List Nat) (stream : σ) (rest : List σ)
  | ticketWait (pointer : BitVec 64) (before : List Nat) (stream : σ) (awaited : List Nat)
      (rest : List σ)
  /-- It has synchronized (`3405`). -/
  | erasing (pointer : BitVec 64) (before : List Nat)

/-- A successful erasure from the table by a free: the allocation that left, the one that the
callback was made for, and the work that the free had to wait for and that was not done. -/
structure Removal where
  allocation : Option Buffer
  intended : Option (Option Buffer)
  late : List Nat

/-- The runtime, and the threads. The streams are queues of numbered items; `used` are the buffers
that the backend has handed out, `freed` the allocations whose free is done, and `removals` the
erasures that frees made. -/
structure State (ι σ : Type) where
  table : AllocationTable Buffer
  pendingAsyncFrees : List (BitVec 64)
  queues : σ → List (Nat × Item)
  nextWork : Nat
  threads : ι → Phase σ
  used : List Buffer
  freed : List (Option Buffer)
  removals : List Removal

/-- Who takes the next step: a thread calls, with the buffer that the backend gives it in
`cudaMalloc`; it goes on in its call, or the backend reports an error; other work comes on a stream;
the first item of a stream goes on. -/
inductive Action (ι σ : Type)
  | malloc (thread : ι) (buffer : Buffer) (size : BitVec 64)
  | free (thread : ι) (pointer : BitVec 64)
  | freeAsync (thread : ι) (pointer : BitVec 64) (stream : σ)
  | advance (thread : ι)
  | backendError (thread : ι)
  | submit (stream : σ) (isHostFunction : Bool)
  | finish (stream : σ)

def numbers (queue : List (Nat × Item)) : List Nat := queue.map Prod.fst

/-- The setting `CUMETAL_USE_METAL_DEVICE_ADDRESSES` and the live streams. -/
structure Settings (σ : Type) where
  useMetalDeviceAddresses : Bool
  live : List σ

/-- The address that `cudaMalloc` hands out (`3164`). -/
def Settings.base {σ : Type} (settings : Settings σ) (buffer : Buffer) : BitVec 64 :=
  if settings.useMetalDeviceAddresses then buffer.deviceAddress else buffer.contents

/-- The other address of the buffer (`3178`). -/
def Settings.aliasBase {σ : Type} (settings : Settings σ) (buffer : Buffer) : BitVec 64 :=
  if settings.base buffer = buffer.contents then buffer.deviceAddress else buffer.contents

/-- What `allocate_buffer` hands out: a buffer of its own, whose bytes lie within the address space
on both sides. -/
structure Allocates {σ : Type} (settings : Settings σ) (used : List Buffer) (buffer : Buffer)
    (size : BitVec 64) : Prop where
  fresh : buffer ∉ used
  contents : buffer.contents.toNat + size.toNat < 2 ^ 64
  deviceAddress : buffer.deviceAddress.toNat + size.toNat < 2 ^ 64
  size : size ≠ 0
  mapped : buffer.contents ≠ 0 ∧ (settings.useMetalDeviceAddresses → buffer.deviceAddress ≠ 0)

instance {σ : Type} (settings : Settings σ) (used : List Buffer) (buffer : Buffer)
    (size : BitVec 64) : Decidable (Allocates settings used buffer size) :=
  decidable_of_iff
    (buffer ∉ used ∧ buffer.contents.toNat + size.toNat < 2 ^ 64 ∧
      buffer.deviceAddress.toNat + size.toNat < 2 ^ 64 ∧ size ≠ 0 ∧ buffer.contents ≠ 0 ∧
      (settings.useMetalDeviceAddresses → buffer.deviceAddress ≠ 0))
    ⟨fun h => ⟨h.1, h.2.1, h.2.2.1, h.2.2.2.1, h.2.2.2.2⟩,
      fun h => ⟨h.fresh, h.contents, h.deviceAddress, h.size, h.mapped⟩⟩

section Step

variable {ι σ : Type} [DecidableEq ι] [DecidableEq σ] (settings : Settings σ)

/-- The call waits for the next stream, or is done with waiting. -/
def drainNext (pointer : BitVec 64) (before : List Nat) : List σ → Phase σ
  | [] => .erasing pointer before
  | stream :: rest => .hostWait pointer before stream rest

namespace State

variable (s : State ι σ)

def setThread (i : ι) (phase : Phase σ) : State ι σ :=
  { s with threads := Function.update s.threads i phase }

def setQueue (stream : σ) (queue : List (Nat × Item)) : State ι σ :=
  { s with queues := Function.update s.queues stream queue }

def enqueue (stream : σ) (item : Item) : State ι σ :=
  { s.setQueue stream (s.queues stream ++ [(s.nextWork, item)]) with nextWork := s.nextWork + 1 }

/-- The work of a stream that has not completed. -/
def outstanding : List Nat := settings.live.flatMap fun stream => numbers (s.queues stream)

/-- `AllocationTable::erase` by a free that is done with it, whether or not the address was found.
-/
def eraseFor (pointer : BitVec 64) (intended : Option (Option Buffer)) (before : List Nat) :
    State ι σ :=
  match s.table.find pointer, s.table.erase pointer with
  | some found, some table =>
    { s with
      table := table
      removals := s.removals ++
        [⟨found.2.buffer, intended, before.filter (· ∈ s.outstanding settings)⟩] }
  | _, _ => s

section EraseFor

omit [DecidableEq ι] [DecidableEq σ]

variable (pointer : BitVec 64) (intended : Option (Option Buffer)) (before : List Nat)

@[simp] theorem eraseFor_threads :
    (s.eraseFor settings pointer intended before).threads = s.threads := by
  unfold eraseFor
  split <;> rfl

@[simp] theorem eraseFor_queues :
    (s.eraseFor settings pointer intended before).queues = s.queues := by
  unfold eraseFor
  split <;> rfl

@[simp] theorem eraseFor_nextWork :
    (s.eraseFor settings pointer intended before).nextWork = s.nextWork := by
  unfold eraseFor
  split <;> rfl

@[simp] theorem eraseFor_freed :
    (s.eraseFor settings pointer intended before).freed = s.freed := by
  unfold eraseFor
  split <;> rfl

end EraseFor

/-- The next step of a thread in its call. -/
def advance (i : ι) : Option (State ι σ) :=
  match s.threads i with
  | .idle => none
  | .aliasing buffer base aliasBase size =>
    if aliasBase ≠ 0 ∧ aliasBase ≠ base then
      match s.table.insert aliasBase size .device 0 (some buffer) true with
      | .ok table => some ({ s with table }.setThread i .idle)
      | .error _ =>
        some ({ s with table := (s.table.erase base).getD s.table }.setThread i .idle)
    else some (s.setThread i .idle)
  | .resolved pointer allocation stream =>
    if s.pendingAsyncFrees.contains pointer then some (s.setThread i .idle)
    else
      some ({ s with pendingAsyncFrees := pointer :: s.pendingAsyncFrees }.setThread i
        (.claimed pointer allocation stream))
  | .claimed pointer allocation stream =>
    some ((s.enqueue stream (.free pointer allocation (numbers (s.queues stream)))).setThread i
      .idle)
  | .hostWait pointer before stream rest =>
    if (s.queues stream).any fun item => item.2.isHostFunction then none
    else some (s.setThread i (.ticketWait pointer before stream (numbers (s.queues stream)) rest))
  | .ticketWait pointer before stream awaited rest =>
    if awaited.any (· ∈ numbers (s.queues stream)) then none
    else some (s.setThread i (drainNext pointer before rest))
  | .erasing pointer before =>
    match s.table.find pointer with
    | none => some (s.setThread i .idle)
    | some found =>
      some (({ s.eraseFor settings pointer none before with
          freed := found.2.buffer :: s.freed } : State ι σ).setThread i .idle)

/-- The first item of a stream goes on. -/
def finish (stream : σ) : Option (State ι σ) :=
  match s.queues stream with
  | [] => none
  | (_, .work _) :: rest => some (s.setQueue stream rest)
  | (number, .free pointer allocation before) :: rest =>
    some ({ s.eraseFor settings pointer (some allocation) before with
      freed := allocation :: s.freed }.setQueue stream ((number, .release pointer) :: rest))
  | (_, .release pointer) :: rest =>
    some ({ s with
      pendingAsyncFrees := s.pendingAsyncFrees.filter (· ≠ pointer) }.setQueue stream rest)

end State

/-- The state after a step, if the step can be taken. -/
def step (s : State ι σ) : Action ι σ → Option (State ι σ)
  | .malloc i buffer size =>
    match s.threads i with
    | .idle =>
      if Allocates settings s.used buffer size then
        let base := settings.base buffer
        let handedOut := { s with used := buffer :: s.used }
        match s.table.insert base size .device 0 (some buffer) false with
        | .error _ => some handedOut
        | .ok table =>
          some ({ handedOut with table }.setThread i
            (.aliasing buffer base (settings.aliasBase buffer) size))
      else none
    | _ => none
  | .free i pointer =>
    match s.threads i with
    | .idle =>
      if pointer = 0 then some s
      else some (s.setThread i (drainNext pointer (s.outstanding settings) settings.live))
    | _ => none
  | .freeAsync i pointer stream =>
    match s.threads i with
    | .idle =>
      if stream ∈ settings.live then
        match s.table.resolve pointer with
        | none => some s
        | some resolved =>
          if resolved.offset ≠ 0 then some s
          else some (s.setThread i (.resolved pointer resolved.buffer stream))
      else none
    | _ => none
  | .advance i => s.advance settings i
  | .backendError i =>
    match s.threads i with
    | .ticketWait .. => some (s.setThread i .idle)
    | .claimed pointer _ _ =>
      some ({ s with
        pendingAsyncFrees := s.pendingAsyncFrees.filter (· ≠ pointer) }.setThread i .idle)
    | _ => none
  | .submit stream isHostFunction =>
    if stream ∈ settings.live then some (s.enqueue stream (.work isHostFunction)) else none
  | .finish stream => s.finish settings stream

/-- Nothing allocated, and no thread in a call. -/
def initial : State ι σ where
  table := .initial
  pendingAsyncFrees := []
  queues := fun _ => []
  nextWork := 0
  threads := fun _ => .idle
  used := []
  freed := []
  removals := []

end Step

end CuMetal.Runtime.Frees
