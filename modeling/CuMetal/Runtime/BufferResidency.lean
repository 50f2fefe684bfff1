import CuMetal.Lib.GuardedRun
import CuMetal.Runtime.Buffers
import Mathlib.Data.List.Nodup

/-!
# Which allocations a dispatch declares

How `runtime/metal_backend/metal_backend.mm` allocates buffers, from a heap or from the device, what
it remembers of them, and what it declares to a dispatch that may follow raw addresses. What Metal
answers to the requests of a call is part of the call.
-/

open CuMetal.Runtime (CudaError)

namespace CuMetal.Residency

/-- `CUMETAL_MTLHEAP_ALLOC`. -/
inductive HeapMode
  | auto_ | always | disabled
  deriving DecidableEq

/-- Where Metal takes the memory of a buffer from. -/
inductive Origin
  | device
  | heap (heap : Nat)
  deriving DecidableEq

/-- An `MTLBuffer`: objects with different numbers are different. -/
structure MTLBuffer where
  object : Nat
  origin : Origin
  deriving DecidableEq

/-- `BufferImpl` (`274-300`). -/
structure BufferImpl where
  buffer : MTLBuffer
  heapBacked : Bool

structure HeapArena where
  heap : Nat
  size : BitVec 64

/-- The part of `BackendState` (`671-697`) that allocations use, the buffers that exist, and the
number of the next Metal object. -/
structure BackendState where
  heapMode : HeapMode
  heapAutoThreshold : BitVec 64
  heapChunkBytes : BitVec 64
  bufferHeaps : List HeapArena
  liveBuffers : List MTLBuffer
  buffers : List BufferImpl
  nextObject : Nat

/-- What Metal answers in a call of `allocate_buffer`. -/
structure Answers where
  /-- The message, if the backend cannot be initialized. -/
  initialization : Option String
  /-- The heaps that have room for the buffer. -/
  room : Nat → Bool
  /-- `heapBufferSizeAndAlignWithLength`. -/
  size : BitVec 64
  align : BitVec 64
  newHeap : Bool
  newHeapRoom : Bool
  device : Bool

/-- `align_up` (`260-269`). -/
def alignUp (value alignment : BitVec 64) : BitVec 64 :=
  if alignment = 0 then value
  else if value % alignment = 0 then value
  else value + (alignment - value % alignment)

namespace BackendState

variable (s : BackendState)

def newBuffer (origin : Origin) (s : BackendState) : MTLBuffer × BackendState :=
  (⟨s.nextObject, origin⟩, { s with nextObject := s.nextObject + 1 })

/-- `allocate_buffer_from_heap_locked` (`1532-1579`). -/
def allocateBufferFromHeapLocked (answers : Answers) : Option MTLBuffer × BackendState :=
  match s.bufferHeaps.find? fun arena => answers.room arena.heap with
  | some arena =>
    let (buffer, s) := s.newBuffer (.heap arena.heap)
    (some buffer, s)
  | none =>
    let arenaSize := max s.heapChunkBytes (alignUp answers.size answers.align)
    if arenaSize = 0 then (none, s)
    else if !answers.newHeap then (none, s)
    else
      let heap := s.nextObject
      let s := { s with
        bufferHeaps := s.bufferHeaps ++ [⟨heap, arenaSize⟩], nextObject := s.nextObject + 1 }
      if answers.newHeapRoom then
        let (buffer, s) := s.newBuffer (.heap heap)
        (some buffer, s)
      else (none, s)

/-- The policy (`1738-1740`). -/
def useHeap (size : BitVec 64) : Bool :=
  s.heapMode = .always || (s.heapMode = .auto_ && s.heapAutoThreshold ≤ size)

/-- `allocate_buffer` (`1720-1771`): the status, the message, and the state after the call. -/
def allocateBuffer (size : BitVec 64) (answers : Answers) : CudaError × String × BackendState :=
  if size = 0 then (.invalidValue, "allocate_buffer invalid argument", s)
  else
    match answers.initialization with
    | some message => (.initializationError, message, s)
    | none =>
      let useHeap := s.useHeap size
      let (fromHeap, s) :=
        if useHeap then s.allocateBufferFromHeapLocked answers else (none, s)
      let (found, s) :=
        match fromHeap with
        | some buffer => (some buffer, s)
        | none =>
          if answers.device then
            let (buffer, s) := s.newBuffer .device
            (some buffer, s)
          else (none, s)
      match found with
      | none => (.memoryAllocation, "newBufferWithLength failed", s)
      | some buffer =>
        (.success, "",
          { s with
            liveBuffers := if useHeap then s.liveBuffers else s.liveBuffers ++ [buffer]
            buffers := s.buffers ++ [⟨buffer, useHeap⟩] })

/-- `unregister_live_buffer` (`1486-1499`). -/
def unregisterLiveBuffer (buffer : MTLBuffer) : BackendState :=
  { s with liveBuffers := s.liveBuffers.erase buffer }

/-- The last owner of a buffer lets go of it: `~BufferImpl` (`279-285`). -/
def destroy (index : Nat) : Option BackendState :=
  match s.buffers[index]? with
  | none => none
  | some gone =>
    let s := { s with buffers := s.buffers.eraseIdx index }
    some (if gone.heapBacked then s else s.unregisterLiveBuffer gone.buffer)

/-- `mark_allocations_resident` (`1501-1530`): the heaps and the buffers that it declares. -/
def markAllocationsResident (deviceAddresses : Bool) : List Nat × List MTLBuffer :=
  if deviceAddresses then (s.bufferHeaps.map HeapArena.heap, s.liveBuffers) else ([], [])

end BackendState

/-- What a caller and Metal may do. -/
inductive Action
  | allocate (size : BitVec 64) (answers : Answers)
  | destroy (index : Nat)

/-- One section under the lock. -/
def step (s : BackendState) : Action → Option BackendState
  | .allocate size answers => some (s.allocateBuffer size answers).2.2
  | .destroy index => s.destroy index

def initial (heapMode : HeapMode) (heapAutoThreshold heapChunkBytes : BitVec 64) : BackendState :=
  ⟨heapMode, heapAutoThreshold, heapChunkBytes, [], [], [], 0⟩

end CuMetal.Residency
