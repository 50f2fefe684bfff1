import CuMetal.Lib.AssocMap
import CuMetal.Runtime.Copies

/-!
# Calls on a stream

The asynchronous calls of `runtime/rt/cuda_runtime.cpp` for one stream: what they leave on the
stream, what they record while it captures, and how a graph is instantiated and launched.
-/

namespace CuMetal.Runtime.Stream

/-! ## The session -/

/-- What the work on a stream reads and changes: the runtime with its memory, the graph
allocations that are active (`GraphAllocationState::active`), and `pending_async_frees`. -/
structure World where
  runtime : RuntimeState
  active : List (BitVec 64)
  pendingFrees : List (BitVec 64)

/-- A piece of work on a stream: a copy, a fill, a kernel or a host function, which changes memory,
or the end of a `cudaFreeAsync` (`cuda_runtime.cpp:7565-7574`), for a graph allocation or not. -/
inductive StreamTask
  | compute (effect : AllocationTable Buffer → ByteMemory → ByteMemory)
  | release (pointer : BitVec 64) (isGraphAllocation : Bool)

/-- `deactivate_graph_allocation` (`1413-1431`). -/
def deactivateGraphAllocation (base : BitVec 64) (world : World) : CudaError × World :=
  if base ∉ world.active then (.invalidValue, world)
  else
    match world.runtime.allocations.erase base with
    | none => (.invalidDevicePointer, world)
    | some allocations =>
      (.success,
        { world with
          runtime := { world.runtime with allocations }
          active := world.active.filter (· ≠ base) })

/-- The world after the stream carried out a piece of work. -/
def StreamTask.run (world : World) : StreamTask → World
  | .compute effect =>
    { world with
      runtime := { world.runtime with
        memory := effect world.runtime.allocations world.runtime.memory } }
  | .release pointer isGraphAllocation =>
    let released :=
      if isGraphAllocation then (deactivateGraphAllocation pointer world).2
      else
        { world with
          runtime := { world.runtime with
            allocations :=
              (world.runtime.allocations.erase pointer).getD world.runtime.allocations } }
    { released with pendingFrees := released.pendingFrees.erase pointer }

/-- A host function over memory. -/
abbrev HostFunction := ByteMemory → ByteMemory

/-- `dim3`. -/
structure Dim3 where
  x : BitVec 32
  y : BitVec 32
  z : BitVec 32
  deriving DecidableEq

/-- The arguments of `cudaLaunchKernel`; `arguments` are the values that `args` points to, up to
its null sentinel, and `none` is a null `args`. -/
structure KernelLaunch where
  func : BitVec 64
  gridDim : Dim3
  blockDim : Dim3
  arguments : Option (List (List UInt8))
  sharedMem : BitVec 64

/-- `cudaExtent`, `cudaPos` and `cudaPitchedPtr` (`api/cuda_runtime.h:663-680`). -/
structure Extent where
  width : BitVec 64
  height : BitVec 64
  depth : BitVec 64

structure Pos where
  x : BitVec 64
  y : BitVec 64
  z : BitVec 64

structure PitchedPtr where
  ptr : BitVec 64
  pitch : BitVec 64
  ysize : BitVec 64

/-- `cudaMemcpy3DParms` of a copy between pitched pointers (`api/cuda_runtime.h:783-792`). -/
structure Memcpy3DParms where
  srcPos : Pos
  srcPtr : PitchedPtr
  dstPos : Pos
  dstPtr : PitchedPtr
  extent : Extent

/-- `cudaMemsetParams`. -/
structure MemsetParams where
  dst : BitVec 64
  pitch : BitVec 64
  value : BitVec 32
  elementSize : BitVec 32
  width : BitVec 64
  height : BitVec 64

/-- The data of a graph node (`cuda_runtime.cpp:238-282`), by its type. -/
inductive GraphNode
  | empty
  | kernel (launch : KernelLaunch)
  | memcpy (dst src count : BitVec 64) (kind : MemcpyKind)
  | memcpy3D (params : Memcpy3DParms)
  | memset (dst : BitVec 64) (value : BitVec 32) (count : BitVec 64)
  | memsetParams (params : MemsetParams)
  | host (fn : HostFunction)
  | memAlloc (allocation : GraphAllocation)
  | memFree (allocation : GraphAllocation)

/-- A node with the positions of its `dependencies` in the graph. -/
structure CapturedNode where
  node : GraphNode
  dependencies : List Nat

/-- What the runtime holds for one stream: the world, the work that the stream still has to do,
`graph_allocations`, the bases whose `free_placement` is set, and the graph of `g_captures` while
the stream captures. -/
structure Session where
  world : World
  pending : List StreamTask
  graphAllocations : AssocMap (BitVec 64) GraphAllocation
  freePlaced : List (BitVec 64)
  capture : Option (List CapturedNode)

/-- What the body of `cudaLaunchKernel` does with a launch that it does not record: it refuses it,
puts it on the stream, or waits for it. -/
inductive KernelOutcome
  | refused (status : CudaError)
  | enqueued (effect : HostFunction)
  | completed (effect : HostFunction)

/-- What lies outside of these calls: the answers of the backend, the setting
`CUMETAL_USE_METAL_DEVICE_ADDRESSES`, the sizes in the `arg_info` of a registered kernel (none when
there is no such kernel), the launch of a kernel (`cuda_runtime.cpp:5836-6420`) with its effect on
memory, and the registered symbols with their sizes. -/
structure Device where
  backend : StreamBackend
  useMetalDeviceAddresses : Bool
  argumentSizes : BitVec 64 → List Nat
  submitKernel : KernelLaunch → RuntimeState → KernelOutcome
  lookupSymbol : BitVec 64 → Option (BitVec 64 × BitVec 64)

variable (device : Device)

/-- Work put on the stream. -/
def Session.push (task : StreamTask) (session : Session) : Session :=
  { session with pending := session.pending ++ [task] }

/-- All work of the stream done. -/
def Session.drained (session : Session) : Session :=
  { session with world := session.pending.foldl StreamTask.run session.world, pending := [] }

/-- `enqueue_stream_host_op` (`1675-1686`). -/
def enqueueStreamHostOp (task : StreamTask) (session : Session) : CudaError × Session :=
  if device.backend.resolveStream ≠ .success then (device.backend.resolveStream, session)
  else if device.backend.enqueue ≠ .success then (device.backend.enqueue, session)
  else (.success, session.push task)

/-- `enqueue_stream_host_op_pageable` (`1710-1720`). -/
def enqueueStreamHostOpPageable (completeBeforeReturn : Bool) (task : StreamTask)
    (session : Session) : CudaError × Session :=
  let enqueued := enqueueStreamHostOp device task session
  if enqueued.1 ≠ .success ∨ completeBeforeReturn = false then enqueued
  else (device.backend.synchronize, enqueued.2.drained)

/-- `append_captured_graph_node` (`478-486`), for a stream that captures. -/
def Session.record (node : GraphNode) (session : Session) : Session :=
  { session with
    capture := session.capture.map fun graph =>
      graph ++ [⟨node, if graph.isEmpty then [] else [graph.length - 1]⟩] }

/-! ## Calls that look for a capture -/

def copyTask (copy : StreamCopy) : StreamTask :=
  .compute fun allocations memory => copy.run allocations memory

/-- `cudaMemcpyAsync` past the capture (`3490-3559`), with the runtime that it finds. -/
def memcpyUncaptured (dst src count : BitVec 64) (kind : MemcpyKind) (runtime : RuntimeState)
    (session : Session) : CudaError × Session :=
  match resolveMemcpyKind runtime.allocations dst src kind with
  | .error status => (status, session)
  | .ok resolvedKind =>
    match blitOf runtime.allocations dst src count,
        device.backend.resolveStream = .success && device.backend.blitCopy = .success with
    | some blit, true => (.success, session.push (copyTask blit))
    | _, _ =>
      let hostDst := hostAccessiblePointer runtime.allocations dst count
      let hostSrc := hostAccessiblePointer runtime.allocations src count
      if (hostDst = 0 ∨ hostSrc = 0) ∧ 0 < count then (.invalidValue, session)
      else
        enqueueStreamHostOpPageable device
          (0 < count && isPageableHostMemory runtime.allocations dst)
          (copyTask (hostFunctionOf runtime.allocations runtime.memory resolvedKind
            hostDst hostSrc count))
          session

/-- `cudaMemcpyAsync` (`3463-3568`). -/
def cudaMemcpyAsync (dst src count : BitVec 64) (kind : MemcpyKind) (session : Session) :
    CudaError × Session :=
  let runtime := session.world.runtime
  if (dst = 0 ∨ src = 0) ∧ 0 < count then (.invalidValue, session)
  else if runtime.initStatus ≠ .success then (runtime.initStatus, session)
  else if session.capture.isSome then (.success, session.record (.memcpy dst src count kind))
  else memcpyUncaptured device dst src count kind runtime session

/-- What `std::memset` stores `count` times. -/
def fillBytes (value : BitVec 32) (count : BitVec 64) : List UInt8 :=
  List.replicate count.toNat (UInt8.ofNat value.toNat)

/-- `cudaMemsetAsync` past the capture (`3783-3793`). -/
def memsetUncaptured (devPtr : BitVec 64) (value : BitVec 32) (count : BitVec 64)
    (runtime : RuntimeState) (session : Session) : CudaError × Session :=
  let hostPtr := hostAccessiblePointer runtime.allocations devPtr count
  if hostPtr = 0 ∧ 0 < count then (.invalidValue, session)
  else
    enqueueStreamHostOpPageable device
      (0 < count && isPageableHostMemory runtime.allocations devPtr)
      (.compute fun _ memory =>
        if 0 < count then memory.write hostPtr (fillBytes value count) else memory)
      session

/-- `cudaMemsetAsync` (`3761-3801`). -/
def cudaMemsetAsync (devPtr : BitVec 64) (value : BitVec 32) (count : BitVec 64)
    (session : Session) : CudaError × Session :=
  let runtime := session.world.runtime
  if devPtr = 0 ∧ 0 < count then (.invalidValue, session)
  else if runtime.initStatus ≠ .success then (runtime.initStatus, session)
  else if session.capture.isSome then (.success, session.record (.memset devPtr value count))
  else memsetUncaptured device devPtr value count runtime session

/-- The argument values that a kernel with these sizes reads; a kernel without sizes has none to
cut to. -/
def boundArguments (sizes : List Nat) (arguments : Option (List (List UInt8))) :
    Option (List (List UInt8)) :=
  if sizes.isEmpty then arguments
  else arguments.map fun values => List.zipWith (fun size value => value.take size) sizes values

/-- `snapshot_graph_kernel_arguments` (`533-571`): the arguments of the node, if they can be
kept. -/
def snapshotGraphKernelArguments (launch : KernelLaunch) : Option (Option (List (List UInt8))) :=
  let sizes := device.argumentSizes launch.func
  if sizes.isEmpty then
    if launch.arguments.isNone then some none else none
  else
    match launch.arguments with
    | none => none
    | some values =>
      if values.length < sizes.length ∨ sizes.any (fun size => size = 0 || 64 * 1024 < size) then
        none
      else some (boundArguments sizes (some values))

/-- A grid and a block without an empty side, and a function (`5810-5813`). -/
def KernelLaunch.wellFormed (launch : KernelLaunch) : Bool :=
  launch.func ≠ 0 && launch.gridDim.x ≠ 0 && launch.gridDim.y ≠ 0 && launch.gridDim.z ≠ 0 &&
    launch.blockDim.x ≠ 0 && launch.blockDim.y ≠ 0 && launch.blockDim.z ≠ 0

/-- `cudaLaunchKernel` past the capture (`5835-6420`). -/
def launchUncaptured (launch : KernelLaunch) (runtime : RuntimeState) (session : Session) :
    CudaError × Session :=
  let bound := boundArguments (device.argumentSizes launch.func) launch.arguments
  match device.submitKernel { launch with arguments := bound } runtime with
  | .refused status => (status, session)
  | .enqueued effect => (.success, session.push (.compute fun _ => effect))
  | .completed effect => (.success, (session.push (.compute fun _ => effect)).drained)

/-- `cudaLaunchKernel` (`5782-6420`). -/
def cudaLaunchKernel (launch : KernelLaunch) (session : Session) : CudaError × Session :=
  let runtime := session.world.runtime
  if launch.wellFormed = false then (.invalidValue, session)
  else if runtime.initStatus ≠ .success then (runtime.initStatus, session)
  else if session.capture.isSome then
    match snapshotGraphKernelArguments device launch with
    | none => (.invalidValue, session)
    | some arguments => (.success, session.record (.kernel { launch with arguments }))
  else launchUncaptured device launch runtime session

/-- `cudaLaunchHostFunc` (`7831-7858`), with a function that is not null. -/
def cudaLaunchHostFunc (fn : HostFunction) (session : Session) : CudaError × Session :=
  if session.capture.isSome then (.success, session.record (.host fn))
  else if session.world.runtime.initStatus ≠ .success then
    (session.world.runtime.initStatus, session)
  else enqueueStreamHostOp device (.compute fun _ => fn) session

/-- `cudaGraphAddMemAllocNode` on the captured graph (`5129-5208`), with the answer of
`allocate_buffer`. -/
def addMemAllocNode (status : CudaError) (buffer : Option Buffer) (size : BitVec 64)
    (session : Session) : CudaError × Session :=
  if session.world.runtime.initStatus ≠ .success then (session.world.runtime.initStatus, session)
  else
    match status, buffer with
    | .success, some buffer =>
      match graphAllocation device.useMetalDeviceAddresses buffer size with
      | none => (.memoryAllocation, session)
      | some allocation =>
        if session.graphAllocations.contains allocation.base then (.memoryAllocation, session)
        else
          (.success,
            { session.record (.memAlloc allocation) with
              graphAllocations :=
                session.graphAllocations.emplace allocation.base allocation
              freePlaced := session.freePlaced.filter (· ≠ allocation.base) })
    | .success, none => (.memoryAllocation, session)
    | status, _ => (status, session)

/-- `cudaMallocAsync` (`7515-7536`) with a place for the pointer: the empty host function that it
puts on the stream has no effect and is left out. -/
def cudaMallocAsync (status : CudaError) (buffer : Option Buffer) (size : BitVec 64)
    (session : Session) : CudaError × Session :=
  if size = 0 then (.invalidValue, session)
  else if session.capture.isSome then addMemAllocNode device status buffer size session
  else if device.backend.resolveStream ≠ .success then (device.backend.resolveStream, session)
  else if device.backend.enqueue ≠ .success then (device.backend.enqueue, session)
  else
    let runtime := session.world.runtime
    let allocated := cudaMalloc runtime.initStatus status buffer device.useMetalDeviceAddresses
      runtime.allocations size
    (allocated.status,
      { session with
        world := { session.world with
          runtime := { runtime with allocations := allocated.allocations } } })

/-- The allocation of an allocation node of a graph with this base, the last one if there are
several (`5218-5225`). -/
def capturedAllocation (graph : List CapturedNode) (base : BitVec 64) : Option GraphAllocation :=
  (graph.filterMap fun captured =>
    match captured.node with
    | .memAlloc allocation => if allocation.base = base then some allocation else none
    | _ => none).getLast?

/-- Whether a graph has a free node for a pointer (`5226-5229`). -/
def freesPointer (graph : List CapturedNode) (pointer : BitVec 64) : Bool :=
  graph.any fun captured =>
    match captured.node with
    | .memFree allocation => allocation.base = pointer
    | _ => false

/-- `cudaGraphAddMemFreeNode` on the captured graph (`5210-5290`). The node depends on the last
one of the graph, which comes after the allocation, so the test of the order passes whenever the
graph has nodes. -/
def addMemFreeNode (pointer : BitVec 64) (graph : List CapturedNode) (session : Session) :
    CudaError × Session :=
  if freesPointer graph pointer then (.invalidValue, session)
  else
    match (capturedAllocation graph pointer).or (session.graphAllocations.find? pointer) with
    | none => (.invalidValue, session)
    | some allocation =>
      if session.freePlaced.contains pointer then (.invalidValue, session)
      else
        (.success,
          { session.record (.memFree allocation) with
            freePlaced := pointer :: session.freePlaced })

/-- `cudaFreeAsync` (`7538-7581`). -/
def cudaFreeAsync (pointer : BitVec 64) (session : Session) : CudaError × Session :=
  if pointer = 0 then (.success, session)
  else
    match session.capture with
    | some graph => addMemFreeNode pointer graph session
    | none =>
      match session.world.runtime.allocations.resolve pointer with
      | none => (.invalidDevicePointer, session)
      | some resolved =>
        if resolved.offset ≠ 0 then (.invalidDevicePointer, session)
        else if session.world.pendingFrees.contains pointer then
          (.invalidDevicePointer, session)
        else
          let isGraphAllocation := session.graphAllocations.contains pointer
          let freeing := { session with
            world := { session.world with
              pendingFrees := pointer :: session.world.pendingFrees } }
          let enqueued := enqueueStreamHostOp device (.release pointer isGraphAllocation) freeing
          if enqueued.1 = .success then enqueued else (enqueued.1, session)

/-! ## Calls that do not look for a capture -/

/-- The rows of a pageable source that was staged when the call was made (`3867-3870`). -/
def copyStagedRows (dst dpitch spitch width height : BitVec 64) (staged : List UInt8)
    (memory : ByteMemory) : ByteMemory :=
  (List.range height.toNat).foldl (fun memory row =>
    if 0 < width then
      memory.write (dst + BitVec.ofNat 64 row * dpitch)
        ((staged.drop (row * spitch.toNat)).take width.toNat)
    else memory) memory

/-- `cudaMemcpy2DAsync` (`3851-3879`); the kind is not looked at. -/
def cudaMemcpy2DAsync (dst dpitch src spitch width height : BitVec 64) (session : Session) :
    CudaError × Session :=
  let runtime := session.world.runtime
  let srcSpan := rowSpan spitch width height
  let hostDst := hostAccessiblePointer runtime.allocations dst (rowSpan dpitch width height)
  let hostSrc := hostAccessiblePointer runtime.allocations src srcSpan
  if (hostDst = 0 ∨ hostSrc = 0) ∧ 0 < width ∧ 0 < height then (.invalidValue, session)
  else
    enqueueStreamHostOpPageable device
      (0 < width && 0 < height && isPageableHostMemory runtime.allocations dst)
      (.compute fun _ memory =>
        if 0 < srcSpan ∧ 0 < width ∧ isPageableHostMemory runtime.allocations src then
          copyStagedRows hostDst dpitch spitch width height
            (runtime.memory.read hostSrc srcSpan.toNat) memory
        else copyRows hostDst dpitch hostSrc spitch width height memory)
      session

/-- `std::memset` of each row. -/
def fillRows (dst pitch : BitVec 64) (value : BitVec 32) (width height : BitVec 64)
    (memory : ByteMemory) : ByteMemory :=
  (List.range height.toNat).foldl (fun memory row =>
    if 0 < width then
      memory.write (dst + BitVec.ofNat 64 row * pitch) (fillBytes value width)
    else memory) memory

/-- `cudaMemset2DAsync` (`3905-3918`). -/
def cudaMemset2DAsync (devPtr pitch : BitVec 64) (value : BitVec 32) (width height : BitVec 64)
    (session : Session) : CudaError × Session :=
  let runtime := session.world.runtime
  let hostPtr := hostAccessiblePointer runtime.allocations devPtr (rowSpan pitch width height)
  if hostPtr = 0 ∧ 0 < width ∧ 0 < height then (.invalidValue, session)
  else
    enqueueStreamHostOpPageable device
      (0 < width && 0 < height && isPageableHostMemory runtime.allocations devPtr)
      (.compute fun _ => fillRows hostPtr pitch value width height) session

/-- The bytes from the first one of a block to its last one (`3956-3960`). -/
def blockSpan (pos : Pos) (pitch ysize : BitVec 64) (extent : Extent) : BitVec 64 :=
  if extent.depth = 0 ∨ extent.height = 0 then 0
  else
    (pos.z + extent.depth - 1) * pitch * ysize + (pos.y + extent.height - 1) * pitch +
      (pos.x + extent.width)

def Extent.occupied (extent : Extent) : Bool :=
  0 < extent.width && 0 < extent.height && 0 < extent.depth

/-- `cudaMemset3DAsync` (`3951-3970`). -/
def cudaMemset3DAsync (pitched : PitchedPtr) (value : BitVec 32) (extent : Extent)
    (session : Session) : CudaError × Session :=
  let runtime := session.world.runtime
  let planeSize := pitched.pitch * pitched.ysize
  let base := hostAccessiblePointer runtime.allocations pitched.ptr
    (blockSpan ⟨0, 0, 0⟩ pitched.pitch pitched.ysize extent)
  if base = 0 ∧ extent.occupied then (.invalidValue, session)
  else
    enqueueStreamHostOpPageable device
      (extent.occupied && isPageableHostMemory runtime.allocations pitched.ptr)
      (.compute fun _ memory =>
        (List.range extent.depth.toNat).foldl (fun memory z =>
          fillRows (base + BitVec.ofNat 64 z * planeSize) pitched.pitch value extent.width
            extent.height memory) memory)
      session

/-- A pitch or a height that is zero stands for that of the extent (`4073-4076`). -/
def orElse (given fallback : BitVec 64) : BitVec 64 := if given = 0 then fallback else given

/-- `cudaMemcpy3DAsync` between pitched pointers (`4064-4131`). -/
def cudaMemcpy3DAsync (params : Memcpy3DParms) (session : Session) : CudaError × Session :=
  let runtime := session.world.runtime
  let extent := params.extent
  let srcPitch := orElse params.srcPtr.pitch extent.width
  let dstPitch := orElse params.dstPtr.pitch extent.width
  let srcHeight := orElse params.srcPtr.ysize extent.height
  let dstHeight := orElse params.dstPtr.ysize extent.height
  let srcSpan := blockSpan params.srcPos srcPitch srcHeight extent
  let srcBase := hostAccessiblePointer runtime.allocations params.srcPtr.ptr srcSpan
  let dstBase := hostAccessiblePointer runtime.allocations params.dstPtr.ptr
    (blockSpan params.dstPos dstPitch dstHeight extent)
  if (srcBase = 0 ∨ dstBase = 0) ∧ extent.occupied then (.invalidValue, session)
  else
    let staged := extent.occupied && 0 < srcSpan &&
      isPageableHostMemory runtime.allocations params.srcPtr.ptr
    let row (pos : Pos) (pitch height : BitVec 64) (z y : Nat) : BitVec 64 :=
      (pos.z + BitVec.ofNat 64 z) * pitch * height + (pos.y + BitVec.ofNat 64 y) * pitch + pos.x
    enqueueStreamHostOpPageable device
      (extent.occupied && isPageableHostMemory runtime.allocations params.dstPtr.ptr)
      (.compute fun _ memory =>
        (List.range extent.depth.toNat).foldl (fun memory z =>
          (List.range extent.height.toNat).foldl (fun memory y =>
            memory.write (dstBase + row params.dstPos dstPitch dstHeight z y)
              (if staged then
                ((runtime.memory.read srcBase srcSpan.toNat).drop
                  (row params.srcPos srcPitch srcHeight z y).toNat).take extent.width.toNat
              else
                memory.read (srcBase + row params.srcPos srcPitch srcHeight z y)
                  extent.width.toNat)) memory) memory)
      session

/-- `resolve_memcpy_to_symbol_kind` and `resolve_memcpy_from_symbol_kind` (`1572-1625`), with the
direction that the call is for and its end that is no symbol. -/
def resolveMemcpySymbolKind (table : AllocationTable Buffer) (direction : MemcpyKind)
    (pointer : BitVec 64) (kind : MemcpyKind) : Except CudaError MemcpyKind :=
  let isDevice := isDevicePointer table pointer
  if kind = .default_ then .ok (if isDevice then .deviceToDevice else direction)
  else if kind = direction then .ok kind
  else if kind = .deviceToDevice then
    if isDevice then .ok kind else .error .invalidDevicePointer
  else .error .invalidValue

/-- `checked_symbol_ptr` (`1627-1652`), for a symbol that is not null. -/
def checkedSymbolPtr (symbol count offset : BitVec 64) : Except CudaError (BitVec 64) :=
  let resolved := (device.lookupSymbol symbol).getD (symbol, 0)
  if 0 < resolved.2 ∧ (resolved.2 < offset ∨ resolved.2 - offset < count) then
    .error .invalidValue
  else if maxAddress - count < offset then .error .invalidValue
  else .ok (resolved.1 + offset)

/-- `cudaMemcpyToSymbolAsync` (`3650-3691`). -/
def cudaMemcpyToSymbolAsync (symbol src count offset : BitVec 64) (kind : MemcpyKind)
    (session : Session) : CudaError × Session :=
  let runtime := session.world.runtime
  if symbol = 0 ∨ (src = 0 ∧ 0 < count) then (.invalidValue, session)
  else if runtime.initStatus ≠ .success then (runtime.initStatus, session)
  else
    match resolveMemcpySymbolKind runtime.allocations .hostToDevice src kind with
    | .error status => (status, session)
    | .ok _ =>
      match checkedSymbolPtr device symbol count offset with
      | .error status => (status, session)
      | .ok symbolPtr =>
        let staged := runtime.memory.read src count.toNat
        enqueueStreamHostOp device
          (.compute fun _ memory =>
            if 0 < count then
              memory.write symbolPtr
                (if isPageableHostMemory runtime.allocations src then staged
                else memory.read src count.toNat)
            else memory)
          session

/-- `cudaMemcpyFromSymbolAsync` (`3693-3727`). -/
def cudaMemcpyFromSymbolAsync (dst symbol count offset : BitVec 64) (kind : MemcpyKind)
    (session : Session) : CudaError × Session :=
  let runtime := session.world.runtime
  if (dst = 0 ∧ 0 < count) ∨ symbol = 0 then (.invalidValue, session)
  else if runtime.initStatus ≠ .success then (runtime.initStatus, session)
  else
    match resolveMemcpySymbolKind runtime.allocations .deviceToHost dst kind with
    | .error status => (status, session)
    | .ok _ =>
      match checkedSymbolPtr device symbol count offset with
      | .error status => (status, session)
      | .ok symbolPtr =>
        enqueueStreamHostOpPageable device
          (0 < count && isPageableHostMemory runtime.allocations dst)
          (.compute fun _ memory =>
            if 0 < count then memory.write dst (memory.read symbolPtr count.toNat) else memory)
          session

/-- The elements that a memset node with parameters stores (`4827-4838`). -/
def fillElements (params : MemsetParams) (destination pitch : BitVec 64) (memory : ByteMemory) :
    ByteMemory :=
  (List.range params.height.toNat).foldl (fun memory row =>
    (List.range params.width.toNat).foldl (fun memory column =>
      memory.write
        (destination + BitVec.ofNat 64 row * pitch +
          BitVec.ofNat 64 column * params.elementSize.setWidth 64)
        ((WordMap.toLittleEndian 4 params.value.toNat).take params.elementSize.toNat)) memory) memory

/-- What `cudaGraphLaunch` does with one node (`4780-4855`). -/
def performNode (node : GraphNode) (session : Session) : CudaError × Session :=
  match node with
  | .empty => (.success, session)
  | .kernel launch => cudaLaunchKernel device launch session
  | .memcpy dst src count kind => cudaMemcpyAsync device dst src count kind session
  | .memcpy3D params => cudaMemcpy3DAsync device params session
  | .memset dst value count => cudaMemsetAsync device dst value count session
  | .memsetParams params =>
    let rowBytes := params.width * params.elementSize.setWidth 64
    let pitch := orElse params.pitch rowBytes
    let destination := hostAccessiblePointer session.world.runtime.allocations params.dst
      ((params.height - 1) * pitch + rowBytes)
    if destination = 0 then (.invalidValue, session)
    else
      enqueueStreamHostOp device (.compute fun _ => fillElements params destination pitch) session
  | .host fn =>
    -- cudaStreamSynchronize, then the function on the calling thread
    if session.world.runtime.initStatus ≠ .success then
      (session.world.runtime.initStatus, session)
    else if device.backend.resolveStream ≠ .success then (device.backend.resolveStream, session)
    else if device.backend.synchronize ≠ .success then (device.backend.synchronize, session)
    else (.success, (session.push (.compute fun _ => fn)).drained)
  | .memAlloc allocation =>
    let activated := activateGraphAllocation
      { allocation with active := session.world.active.contains allocation.base }
      session.world.runtime.allocations
    (activated.1,
      { session with
        world := { session.world with
          runtime := { session.world.runtime with allocations := activated.2 }
          active :=
            if activated.1 = .success then allocation.base :: session.world.active
            else session.world.active } })
  | .memFree allocation =>
    let released := deactivateGraphAllocation allocation.base session.world
    (released.1, { session with world := released.2 })

/-- `cudaGraphLaunch` (`4773-4876`): the first node that fails ends it. -/
def cudaGraphLaunch : List GraphNode → Session → CudaError × Session
  | [], session => (.success, session)
  | node :: nodes, session =>
    let performed := performNode device node session
    if performed.1 = .success then cudaGraphLaunch nodes performed.2 else performed

/-- The first node of a graph that is not emitted and whose dependencies are (`512-519`). -/
def nextReady (graph : List CapturedNode) (emitted : List Nat) : Option Nat :=
  (List.range graph.length).find? fun i =>
    !emitted.contains i &&
      ((graph[i]?.map CapturedNode.dependencies).getD []).all emitted.contains

/-- `topologically_order_graph` (`488-527`): the positions of the nodes in the order of replay, or
nothing if some node never gets ready. -/
def topologicallyOrderGraph (graph : List CapturedNode) : Nat → List Nat → Option (List Nat)
  | 0, emitted => some emitted
  | count + 1, emitted =>
    match nextReady graph emitted with
    | none => none
    | some ready => topologicallyOrderGraph graph count (emitted ++ [ready])

/-- `cudaGraphInstantiate` (`4704-4756`) of a graph that has no executable yet: the nodes in the
order in which `cudaGraphLaunch` goes through them. -/
def cudaGraphInstantiate (graph : List CapturedNode) : Option (List GraphNode) :=
  (topologicallyOrderGraph graph graph.length []).map fun order =>
    order.filterMap fun i => graph[i]?.map CapturedNode.node

/-- The calls of the interface. `cudaMallocAsync` comes with the answer of `allocate_buffer`. -/
inductive StreamCall
  | launchKernel (launch : KernelLaunch)
  | memcpyAsync (dst src count : BitVec 64) (kind : MemcpyKind)
  | memcpy2DAsync (dst dpitch src spitch width height : BitVec 64)
  | memcpy3DAsync (params : Memcpy3DParms)
  | memsetAsync (devPtr : BitVec 64) (value : BitVec 32) (count : BitVec 64)
  | memset2DAsync (devPtr pitch : BitVec 64) (value : BitVec 32) (width height : BitVec 64)
  | memset3DAsync (pitched : PitchedPtr) (value : BitVec 32) (extent : Extent)
  | memcpyToSymbolAsync (symbol src count offset : BitVec 64) (kind : MemcpyKind)
  | memcpyFromSymbolAsync (dst symbol count offset : BitVec 64) (kind : MemcpyKind)
  | launchHostFunc (fn : HostFunction)
  | mallocAsync (status : CudaError) (buffer : Option Buffer) (size : BitVec 64)
  | freeAsync (pointer : BitVec 64)
  | graphLaunch (nodes : List GraphNode)

/-- What a call does when the stream does no work of its own meanwhile. -/
def performCall (session : Session) : StreamCall → CudaError × Session
  | .launchKernel launch => cudaLaunchKernel device launch session
  | .memcpyAsync dst src count kind => cudaMemcpyAsync device dst src count kind session
  | .memcpy2DAsync dst dpitch src spitch width height =>
    cudaMemcpy2DAsync device dst dpitch src spitch width height session
  | .memcpy3DAsync params => cudaMemcpy3DAsync device params session
  | .memsetAsync devPtr value count => cudaMemsetAsync device devPtr value count session
  | .memset2DAsync devPtr pitch value width height =>
    cudaMemset2DAsync device devPtr pitch value width height session
  | .memset3DAsync pitched value extent => cudaMemset3DAsync device pitched value extent session
  | .memcpyToSymbolAsync symbol src count offset kind =>
    cudaMemcpyToSymbolAsync device symbol src count offset kind session
  | .memcpyFromSymbolAsync dst symbol count offset kind =>
    cudaMemcpyFromSymbolAsync device dst symbol count offset kind session
  | .launchHostFunc fn => cudaLaunchHostFunc device fn session
  | .mallocAsync status buffer size => cudaMallocAsync device status buffer size session
  | .freeAsync pointer => cudaFreeAsync device pointer session
  | .graphLaunch nodes => cudaGraphLaunch device nodes session

/-- The stream carried out `count` more pieces of its work. -/
def Session.advance (count : Nat) (session : Session) : Session :=
  { session with
    world := (session.pending.take count).foldl StreamTask.run session.world
    pending := session.pending.drop count }

/-- A launch of a graph, with the stream at work between the nodes. `permits` says where a node may
be gone through. -/
inductive Launches (permits : GraphNode → Session → Prop) :
    List GraphNode → Session → CudaError → Session → Prop
  | done {session : Session} : Launches permits [] session .success session
  | work {nodes : List GraphNode} {session last : Session} {status : CudaError} (count : Nat) :
      Launches permits nodes (session.advance count) status last →
      Launches permits nodes session status last
  | node {node : GraphNode} {nodes : List GraphNode} {session next last : Session}
      {status : CudaError} : permits node session →
      performNode device node session = (.success, next) →
      Launches permits nodes next status last →
      Launches permits (node :: nodes) session status last
  | failed {node : GraphNode} {nodes : List GraphNode} {session last : Session}
      {status : CudaError} : permits node session →
      performNode device node session = (status, last) → status ≠ .success →
      Launches permits (node :: nodes) session status last

/-- One call after the other, with the stream at work between them and during the launch of a
graph: the statuses and the session after them. A caller goes on after a failed call. -/
inductive Issues : List StreamCall → Session → List CudaError → Session → Prop
  | done {session : Session} : Issues [] session [] session
  | work {calls : List StreamCall} {session last : Session} {statuses : List CudaError}
      (count : Nat) : Issues calls (session.advance count) statuses last →
      Issues calls session statuses last
  | call {call : StreamCall} {calls : List StreamCall} {session last : Session}
      {statuses : List CudaError} : (∀ nodes, call ≠ .graphLaunch nodes) →
      Issues calls (performCall device session call).2 statuses last →
      Issues (call :: calls) session ((performCall device session call).1 :: statuses) last
  | launch {nodes : List GraphNode} {calls : List StreamCall} {session next last : Session}
      {status : CudaError} {statuses : List CudaError} :
      Launches device (fun _ _ => True) nodes session status next →
      Issues calls next statuses last →
      Issues (.graphLaunch nodes :: calls) session (status :: statuses) last

/-- The session after `cudaStreamBeginCapture` (`4433-4452`). -/
def Session.beginCapture (session : Session) : Session := { session with capture := some [] }

/-- The session after `cudaStreamEndCapture` (`4454-4478`), which hands the graph out. -/
def Session.endCapture (session : Session) : Session := { session with capture := none }

end CuMetal.Runtime.Stream
