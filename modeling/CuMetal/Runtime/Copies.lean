import CuMetal.Lib.ByteMemory
import CuMetal.Runtime.Buffers

/-!
# Copies

The copies of `runtime/rt/cuda_runtime.cpp` and the two rewritings of embedded pointers that some
of them make.
-/

namespace CuMetal.Runtime

open WordMap

/-- The `cudaMemcpyKind` of `api/cuda_runtime.h:208-214`. -/
inductive MemcpyKind
  | hostToHost | hostToDevice | deviceToHost | deviceToDevice | default_
  deriving DecidableEq, Repr

/-- What the copies use of the `RuntimeState`, with the memory that it is the runtime of. A null
pointer is 0. -/
structure RuntimeState where
  initStatus : CudaError
  allocations : AllocationTable Buffer
  memory : ByteMemory

/-- `is_device_pointer` (`cuda_runtime.cpp:1302-1310`). -/
def isDevicePointer (table : AllocationTable Buffer) (pointer : BitVec 64) : Bool :=
  pointer ≠ 0 && (table.resolve pointer).isSome

/-- The largest `std::uintptr_t`. -/
def maxAddress : BitVec 64 := BitVec.allOnes 64

/-- The word that `relocate_embedded_device_pointers` stores for a candidate
(`cuda_runtime.cpp:1322-1337`). -/
def relocatedPointer (table : AllocationTable Buffer) (candidate : BitVec 64) : BitVec 64 :=
  if candidate = 0 then candidate
  else
    match table.resolve candidate with
    | none => candidate
    | some resolved =>
      match resolved.buffer with
      | none => candidate
      | some buffer =>
        if buffer.deviceAddress = 0 ∨ maxAddress - resolved.offset < buffer.deviceAddress then
          candidate
        else buffer.deviceAddress + resolved.offset

/-- The word that `restore_embedded_host_pointers` stores for a candidate
(`cuda_runtime.cpp:1347-1363`). -/
def restoredPointer (table : AllocationTable Buffer) (candidate : BitVec 64) : BitVec 64 :=
  if candidate = 0 then candidate
  else
    match table.resolve candidate with
    | none => candidate
    | some resolved =>
      match resolved.buffer with
      | none => candidate
      | some buffer =>
        if buffer.contents = 0 ∨ maxAddress - resolved.offset < buffer.contents then candidate
        else buffer.contents + resolved.offset

/-- `relocate_embedded_device_pointers` (`cuda_runtime.cpp:1312-1342`): every whole word from the
start of the bytes on. -/
def relocateEmbeddedDevicePointers (table : AllocationTable Buffer) (bytes : List UInt8) :
    List UInt8 :=
  mapWords (relocatedPointer table) bytes

/-- `restore_embedded_host_pointers` (`cuda_runtime.cpp:1344-1365`). -/
def restoreEmbeddedHostPointers (table : AllocationTable Buffer) (bytes : List UInt8) :
    List UInt8 :=
  mapWords (restoredPointer table) bytes

/-- `host_accessible_pointer` (`cuda_runtime.cpp:1476-1490`). -/
def hostAccessiblePointer (table : AllocationTable Buffer) (pointer count : BitVec 64) :
    BitVec 64 :=
  if pointer = 0 then 0
  else
    match table.resolve pointer with
    | none => pointer
    | some resolved =>
      match resolved.buffer with
      | none => 0
      | some buffer =>
        if resolved.remainingSize < count ∨ buffer.contents = 0 then 0
        else buffer.contents + resolved.offset

/-- `resolve_memcpy_kind` (`cuda_runtime.cpp:1520-1570`); `validate_memcpy_kind` accepts every
enumerator. -/
def resolveMemcpyKind (table : AllocationTable Buffer) (dst src : BitVec 64) (kind : MemcpyKind) :
    Except CudaError MemcpyKind :=
  let dstIsDevice := isDevicePointer table dst
  let srcIsDevice := isDevicePointer table src
  match kind with
  | .default_ =>
    if dstIsDevice && srcIsDevice then .ok .deviceToDevice
    else if dstIsDevice && !srcIsDevice then .ok .hostToDevice
    else if !dstIsDevice && srcIsDevice then .ok .deviceToHost
    else .ok .hostToHost
  | .hostToHost => .ok kind
  | .hostToDevice => if !dstIsDevice then .error .invalidDevicePointer else .ok kind
  | .deviceToHost => if !srcIsDevice then .error .invalidDevicePointer else .ok kind
  | .deviceToDevice =>
    if !dstIsDevice || !srcIsDevice then .error .invalidDevicePointer else .ok kind

/-- The bytes that a staged copy of a resolved kind stores. -/
def stagedBytes (table : AllocationTable Buffer) (resolvedKind : MemcpyKind)
    (bytes : List UInt8) : List UInt8 :=
  match resolvedKind with
  | .hostToDevice => relocateEmbeddedDevicePointers table bytes
  | .deviceToHost => restoreEmbeddedHostPointers table bytes
  | _ => bytes

/-- `cudaMemcpy` (`cuda_runtime.cpp:3412-3461`): the status and the state after it.
`synchronization` is the answer of `metal_backend::synchronize`. -/
def cudaMemcpy (synchronization : CudaError) (dst src count : BitVec 64) (kind : MemcpyKind)
    (state : RuntimeState) : CudaError × RuntimeState :=
  if (dst = 0 ∨ src = 0) ∧ 0 < count then (.invalidValue, state)
  else if state.initStatus ≠ .success then (state.initStatus, state)
  else
    match resolveMemcpyKind state.allocations dst src kind with
    | .error status => (status, state)
    | .ok resolvedKind =>
      if synchronization ≠ .success then (synchronization, state)
      else if 0 < count then
        let hostDst := hostAccessiblePointer state.allocations dst count
        let hostSrc := hostAccessiblePointer state.allocations src count
        if hostDst = 0 ∨ hostSrc = 0 then (.invalidValue, state)
        else
          let staged := stagedBytes state.allocations resolvedKind
            (state.memory.read hostSrc count.toNat)
          (.success, { state with memory := state.memory.write hostDst staged })
      else (.success, state)

/-- `std::memcpy` of each row (`cuda_runtime.cpp:3841-3846`). -/
def copyRows (dst dpitch src spitch width height : BitVec 64) (memory : ByteMemory) : ByteMemory :=
  (List.range height.toNat).foldl (fun memory row =>
    if 0 < width then
      memory.write (dst + BitVec.ofNat 64 row * dpitch)
        (memory.read (src + BitVec.ofNat 64 row * spitch) width.toNat)
    else memory) memory

/-- The bytes from the first one of the first row to the last one of the last row. -/
def rowSpan (pitch width height : BitVec 64) : BitVec 64 :=
  if height = 0 then 0 else (height - 1) * pitch + width

/-- `cudaMemcpy2D` (`cuda_runtime.cpp:3803-3849`). -/
def cudaMemcpy2D (synchronization : CudaError) (dst dpitch src spitch width height : BitVec 64)
    (kind : MemcpyKind) (state : RuntimeState) : CudaError × RuntimeState :=
  if (dst = 0 ∨ src = 0) ∧ 0 < width ∧ 0 < height then (.invalidValue, state)
  else if state.initStatus ≠ .success then (state.initStatus, state)
  else
    let kindStatus :=
      if 0 < width ∧ 0 < height then
        match resolveMemcpyKind state.allocations dst src kind with
        | .error status => status
        | .ok _ => .success
      else .success
    if kindStatus ≠ .success then (kindStatus, state)
    else if synchronization ≠ .success then (synchronization, state)
    else
      let hostDst := hostAccessiblePointer state.allocations dst (rowSpan dpitch width height)
      let hostSrc := hostAccessiblePointer state.allocations src (rowSpan spitch width height)
      if (hostDst = 0 ∨ hostSrc = 0) ∧ 0 < width ∧ 0 < height then (.invalidValue, state)
      else
        (.success,
          { state with memory := copyRows hostDst dpitch hostSrc spitch width height state.memory })

/-- What the backend answers to the calls that an asynchronous copy makes:
`resolve_runtime_stream`, `blit_copy`, `enqueue_host_function` and, for pageable memory,
`synchronize_stream_for_host_op`. -/
structure StreamBackend where
  resolveStream : CudaError
  blitCopy : CudaError
  enqueue : CudaError
  synchronize : CudaError

/-- What an asynchronous copy puts on its stream: a blit between two buffers, or one of the host
functions of `cuda_runtime.cpp:3546-3558`. -/
inductive StreamCopy
  | blit (dst : Buffer) (dstOffset : BitVec 64) (src : Buffer) (srcOffset count : BitVec 64)
  | nothing
  | storeStaged (hostDst : BitVec 64) (staged : List UInt8)
  | copyRestored (hostDst hostSrc count : BitVec 64)
  | copy (hostDst hostSrc count : BitVec 64)

/-- The memory after the stream carried out a copy. -/
def StreamCopy.run (table : AllocationTable Buffer) (memory : ByteMemory) :
    StreamCopy → ByteMemory
  | .blit dst dstOffset src srcOffset count =>
    memory.write (dst.contents + dstOffset) (memory.read (src.contents + srcOffset) count.toNat)
  | .nothing => memory
  | .storeStaged hostDst staged => memory.write hostDst staged
  | .copyRestored hostDst hostSrc count =>
    memory.write hostDst (restoreEmbeddedHostPointers table (memory.read hostSrc count.toNat))
  | .copy hostDst hostSrc count => memory.write hostDst (memory.read hostSrc count.toNat)

/-- `is_pageable_host_memory` (`cuda_runtime.cpp:1701-1707`). -/
def isPageableHostMemory (table : AllocationTable Buffer) (pointer : BitVec 64) : Bool :=
  pointer ≠ 0 && (table.resolve pointer).isNone

/-- The blit that `cudaMemcpyAsync` tries when both ends are recorded
(`cuda_runtime.cpp:3504-3510`). -/
def blitOf (table : AllocationTable Buffer) (dst src count : BitVec 64) : Option StreamCopy :=
  if 0 < count then
    match table.resolve dst, table.resolve src with
    | some dstAlloc, some srcAlloc =>
      match dstAlloc.buffer, srcAlloc.buffer with
      | some dstBuffer, some srcBuffer =>
        if count ≤ dstAlloc.remainingSize ∧ count ≤ srcAlloc.remainingSize then
          some (.blit dstBuffer dstAlloc.offset srcBuffer srcAlloc.offset count)
        else none
      | _, _ => none
    | _, _ => none
  else none

/-- The host function of an asynchronous copy (`cuda_runtime.cpp:3533-3558`), with what it staged
when the call was made. -/
def hostFunctionOf (table : AllocationTable Buffer) (memory : ByteMemory)
    (resolvedKind : MemcpyKind) (hostDst hostSrc count : BitVec 64) : StreamCopy :=
  if count = 0 then .nothing
  else
    match resolvedKind with
    | .hostToDevice =>
      .storeStaged hostDst
        (relocateEmbeddedDevicePointers table (memory.read hostSrc count.toNat))
    | .deviceToHost => .copyRestored hostDst hostSrc count
    | _ => .copy hostDst hostSrc count

/-- `cudaMemcpyAsync` on a stream that is not capturing (`cuda_runtime.cpp:3463-3568`): the
status, the state when the call returns, and what is still to be done on the stream. -/
def cudaMemcpyAsync (backend : StreamBackend) (dst src count : BitVec 64) (kind : MemcpyKind)
    (state : RuntimeState) : CudaError × RuntimeState × StreamCopy :=
  if (dst = 0 ∨ src = 0) ∧ 0 < count then (.invalidValue, state, .nothing)
  else if state.initStatus ≠ .success then (state.initStatus, state, .nothing)
  else
    match resolveMemcpyKind state.allocations dst src kind with
    | .error status => (status, state, .nothing)
    | .ok resolvedKind =>
      match blitOf state.allocations dst src count,
          backend.resolveStream = .success && backend.blitCopy = .success with
      | some blit, true => (.success, state, blit)
      | _, _ =>
        let hostDst := hostAccessiblePointer state.allocations dst count
        let hostSrc := hostAccessiblePointer state.allocations src count
        if (hostDst = 0 ∨ hostSrc = 0) ∧ 0 < count then (.invalidValue, state, .nothing)
        else
          let operation :=
            hostFunctionOf state.allocations state.memory resolvedKind hostDst hostSrc count
          if backend.resolveStream ≠ .success then (backend.resolveStream, state, .nothing)
          else if backend.enqueue ≠ .success then (backend.enqueue, state, .nothing)
          else if 0 < count ∧ isPageableHostMemory state.allocations dst then
            -- the call waits for the stream
            (backend.synchronize,
              { state with memory := operation.run state.allocations state.memory }, .nothing)
          else (.success, state, operation)

/-- The state once the stream has done what a copy left to it. -/
def synchronizeStream (result : CudaError × RuntimeState × StreamCopy) : RuntimeState :=
  { result.2.1 with memory := result.2.2.run result.2.1.allocations result.2.1.memory }

end CuMetal.Runtime
