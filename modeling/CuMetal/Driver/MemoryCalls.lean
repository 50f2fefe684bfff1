import CuMetal.Runtime.SynchronousCalls

/-!
# Memory calls of the driver

The two- and three-dimensional copies and the wide fills of `runtime/driver/cuda_driver.cpp`: what
each checks, and whether it reads and writes memory itself or leaves a host function on a stream.
-/

namespace CuMetal.Driver

open CuMetal.Runtime (CudaError RuntimeState hostAccessiblePointer isDevicePointer)
open CuMetal.Runtime.Stream (orElse)
open WordMap (toLittleEndian)

/-- The `CUresult` values that these calls return. -/
inductive CuResult
  | success | invalidValue | outOfMemory | notInitialized | invalidContext | notSupported
  | launchTimeout | launchOutOfResources | notReady | illegalAddress | devicesUnavailable
  | deinitialized | noDevice | invalidDevice | notFound | invalidHandle | launchFailed | assert_
  | notPermitted | peerAccessAlreadyEnabled | peerAccessNotEnabled | graphExecUpdateFailure
  | unknown
  deriving DecidableEq, Repr

/-- What a call finds outside: the answer of `require_initialized_context` (`182-192`), whether there
is memory for its payload and for a graph node, and the answers of `cudaLaunchHostFunc` when it does
not record and of the backend when it waits. -/
structure Answers where
  ready : CuResult
  payload : Bool
  node : Bool
  launched : CudaError

/-- What is left of a call after its checks: it returns, it reads and writes memory itself, or it
hands a host function to `cudaLaunchHostFunc`, after which it may wait for the stream. A loop without
rounds is a return. -/
inductive Script (σ : Type)
  | finish (result : CuResult)
  | access (effect : ByteMemory → ByteMemory)
  | enqueue (stream : σ) (effect : ByteMemory → ByteMemory) (waits : Bool)

variable {σ : Type}

/-! ## Copies -/

/-- `CUmemorytype`. -/
inductive MemoryType
  | host | device | array | unified
  deriving DecidableEq

/-- An end of `CUDA_MEMCPY2D` (`api/cuda.h:518-537`), without its array. -/
structure Memcpy2DEnd where
  xInBytes : BitVec 64
  y : BitVec 64
  memoryType : MemoryType
  host : BitVec 64
  device : BitVec 64
  pitch : BitVec 64

/-- `CUDA_MEMCPY2D`. -/
structure Memcpy2D where
  src : Memcpy2DEnd
  dst : Memcpy2DEnd
  widthInBytes : BitVec 64
  height : BitVec 64

/-- The pitch of an end (`2292-2293`, `2315-2316`). -/
def Memcpy2D.pitch (copy : Memcpy2D) (side : Memcpy2DEnd) : BitVec 64 :=
  orElse side.pitch copy.widthInBytes

/-- `memcpy2d_source`, `memcpy2d_destination` (`2259-2286`). -/
def Memcpy2DEnd.resolve (state : RuntimeState) (side : Memcpy2DEnd) (span : BitVec 64) :
    BitVec 64 :=
  match side.memoryType with
  | .host => side.host
  | .device | .unified => hostAccessiblePointer state.allocations side.device span
  | .array => 0

/-- The span of an end (`2318-2321`). -/
def Memcpy2D.span (copy : Memcpy2D) (side : Memcpy2DEnd) : BitVec 64 :=
  (side.y + copy.height - 1) * copy.pitch side + side.xInBytes + copy.widthInBytes

/-- The first bytes of the two ends; a copy of nothing has none. -/
structure Bases where
  src : BitVec 64
  dst : BitVec 64

/-- `resolve_memcpy2d` (`2288-2326`). -/
def resolveMemcpy2D (state : RuntimeState) : Option Memcpy2D → Except CuResult (Memcpy2D × Bases)
  | none => .error .invalidValue
  | some copy =>
    if copy.src.memoryType = .array ∨ copy.dst.memoryType = .array then .error .notSupported
    else if copy.pitch copy.src < copy.widthInBytes ∨ copy.pitch copy.dst < copy.widthInBytes then
      .error .invalidValue
    else if copy.widthInBytes = 0 ∨ copy.height = 0 then .ok (copy, ⟨0, 0⟩)
    else
      let src := copy.src.resolve state (copy.span copy.src)
      let dst := copy.dst.resolve state (copy.span copy.dst)
      if src = 0 ∨ dst = 0 then .error .invalidValue else .ok (copy, ⟨src, dst⟩)

/-- The first byte that is copied of a row (`2346-2348`). -/
def Memcpy2D.row (copy : Memcpy2D) (side : Memcpy2DEnd) (base : BitVec 64) (y : Nat) : BitVec 64 :=
  base + (side.y + BitVec.ofNat 64 y) * copy.pitch side + side.xInBytes

/-- `perform_memcpy2d` (`2342-2351`): `std::memmove` of each row. -/
def performMemcpy2D (copy : Memcpy2D) (bases : Bases) (memory : ByteMemory) : ByteMemory :=
  (List.range copy.height.toNat).foldl (fun memory y =>
    memory.write (copy.row copy.dst bases.dst y)
      (memory.read (copy.row copy.src bases.src y) copy.widthInBytes.toNat)) memory

/-- Whether an end is ordinary host memory (`2328-2338`). -/
def Memcpy2DEnd.pageable (state : RuntimeState) (side : Memcpy2DEnd) : Bool :=
  side.memoryType = .host && side.host ≠ 0 && !isDevicePointer state.allocations side.host

/-- `cuMemcpy2D` (`2355-2363`). -/
def cuMemcpy2D (answers : Answers) (state : RuntimeState) (copy : Option Memcpy2D) : Script σ :=
  if answers.ready ≠ .success then .finish answers.ready
  else
    match resolveMemcpy2D state copy with
    | .error result => .finish result
    | .ok (copy, bases) =>
      if copy.widthInBytes = 0 ∨ copy.height = 0 then .finish .success
      else .access (performMemcpy2D copy bases)

/-- `cuMemcpy2DAsync` (`2365-2399`). -/
def cuMemcpy2DAsync (answers : Answers) (state : RuntimeState) (copy : Option Memcpy2D)
    (stream : σ) : Script σ :=
  if answers.ready ≠ .success then .finish answers.ready
  else if answers.payload = false then .finish .outOfMemory
  else
    match resolveMemcpy2D state copy with
    | .error result => .finish result
    | .ok (copy, bases) =>
      if copy.widthInBytes = 0 ∨ copy.height = 0 then .finish .success
      else
        .enqueue stream (performMemcpy2D copy bases)
          (copy.src.pageable state || copy.dst.pageable state)

/-- An end of `CUDA_MEMCPY3D` (`api/cuda.h:539-567`), without its array and its level. -/
structure Memcpy3DEnd extends Memcpy2DEnd where
  z : BitVec 64
  height : BitVec 64

/-- `CUDA_MEMCPY3D`. -/
structure Memcpy3D where
  src : Memcpy3DEnd
  dst : Memcpy3DEnd
  widthInBytes : BitVec 64
  height : BitVec 64
  depth : BitVec 64

namespace Memcpy3D

def empty (copy : Memcpy3D) : Bool :=
  copy.widthInBytes = 0 || copy.height = 0 || copy.depth = 0

def pitchOf (copy : Memcpy3D) (side : Memcpy3DEnd) : BitVec 64 :=
  orElse side.pitch copy.widthInBytes

def heightOf (copy : Memcpy3D) (side : Memcpy3DEnd) : BitVec 64 := orElse side.height copy.height

/-- The span of an end (`2168-2173`). -/
def span (copy : Memcpy3D) (side : Memcpy3DEnd) : BitVec 64 :=
  (side.z + copy.depth - 1) * copy.pitchOf side * copy.heightOf side +
    (side.y + copy.height - 1) * copy.pitchOf side + side.xInBytes + copy.widthInBytes

/-- The first byte that is copied of a row (`2197-2203`). -/
def row (copy : Memcpy3D) (side : Memcpy3DEnd) (base : BitVec 64) (z y : Nat) : BitVec 64 :=
  base + (side.z + BitVec.ofNat 64 z) * copy.pitchOf side * copy.heightOf side +
    (side.y + BitVec.ofNat 64 y) * copy.pitchOf side + side.xInBytes

end Memcpy3D

/-- The base of an end (`2174-2185`): whatever is not host memory is taken for device memory. -/
def Memcpy3DEnd.base (state : RuntimeState) (side : Memcpy3DEnd) (span : BitVec 64) : BitVec 64 :=
  if side.memoryType = .host then side.host
  else hostAccessiblePointer state.allocations side.device span

/-- `resolve_memcpy3d` (`2159-2188`). -/
def resolveMemcpy3D (state : RuntimeState) (copy : Memcpy3D) : Except CuResult Bases :=
  if copy.empty then .ok ⟨0, 0⟩
  else
    let src := copy.src.base state (copy.span copy.src)
    let dst := copy.dst.base state (copy.span copy.dst)
    if src = 0 ∨ dst = 0 then .error .invalidValue else .ok ⟨src, dst⟩

/-- `perform_memcpy3d` (`2190-2207`): `std::memcpy` of each row. -/
def performMemcpy3D (copy : Memcpy3D) (bases : Bases) (memory : ByteMemory) : ByteMemory :=
  (List.range copy.depth.toNat).foldl (fun memory z =>
    (List.range copy.height.toNat).foldl (fun memory y =>
      memory.write (copy.row copy.dst bases.dst z y)
        (memory.read (copy.row copy.src bases.src z y) copy.widthInBytes.toNat)) memory) memory

/-- `cuMemcpy3D` (`2211-2220`). -/
def cuMemcpy3D (answers : Answers) (state : RuntimeState) : Option Memcpy3D → Script σ
  | none => .finish .invalidValue
  | some copy =>
    if answers.ready ≠ .success then .finish answers.ready
    else
      match resolveMemcpy3D state copy with
      | .error result => .finish result
      | .ok bases =>
        if copy.empty then .finish .success else .access (performMemcpy3D copy bases)

/-- An end without a pointer of its kind (`2230-2233`). -/
def Memcpy3DEnd.missing (side : Memcpy3DEnd) : Bool :=
  (side.memoryType = .host && side.host = 0) || (side.memoryType = .device && side.device = 0)

/-- `cuMemcpy3DAsync` (`2224-2252`). -/
def cuMemcpy3DAsync (answers : Answers) (state : RuntimeState) (copy : Option Memcpy3D)
    (stream : σ) : Script σ :=
  match copy with
  | none => .finish .invalidValue
  | some copy =>
    if answers.ready ≠ .success then .finish answers.ready
    else if copy.empty then .finish .success
    else if copy.src.missing || copy.dst.missing then .finish .invalidValue
    else if answers.payload = false then .finish .outOfMemory
    else
      match resolveMemcpy3D state copy with
      | .error result => .finish result
      | .ok bases => .enqueue stream (performMemcpy3D copy bases) false

/-- A value, stored `count` times from an address on. -/
def fillValues (address : BitVec 64) (value : List UInt8) (count : Nat) (memory : ByteMemory) :
    ByteMemory :=
  (List.range count).foldl (fun memory i =>
    memory.write (address + BitVec.ofNat 64 (i * value.length)) value) memory

/-- A fill of consecutive values (`2604-2635`), which asks for no context. -/
def memsetValues (state : RuntimeState) (dst : BitVec 64) (value : List UInt8) (n : BitVec 64) :
    Script σ :=
  if dst = 0 then .finish .invalidValue
  else
    let pointer := hostAccessiblePointer state.allocations dst (n * BitVec.ofNat 64 value.length)
    if pointer = 0 then .finish .invalidValue
    else if n = 0 then .finish .success
    else .access (fillValues pointer value n.toNat)

/-- `cuMemsetD16` (`2604-2618`). -/
def cuMemsetD16 (state : RuntimeState) (dst : BitVec 64) (us : BitVec 16) (n : BitVec 64) :
    Script σ :=
  memsetValues state dst (toLittleEndian 2 us.toNat) n

/-- `cuMemsetD32` (`2620-2634`). -/
def cuMemsetD32 (state : RuntimeState) (dst : BitVec 64) (ui : BitVec 32) (n : BitVec 64) :
    Script σ :=
  memsetValues state dst (toLittleEndian 4 ui.toNat) n

/-- `cuMemsetD16Async` (`2636-2639`); the stream is not looked at. -/
def cuMemsetD16Async (state : RuntimeState) (dst : BitVec 64) (us : BitVec 16) (n : BitVec 64)
    (_ : σ) : Script σ :=
  cuMemsetD16 state dst us n

/-- `cuMemsetD32Async` (`2641-2644`); the stream is not looked at. -/
def cuMemsetD32Async (state : RuntimeState) (dst : BitVec 64) (ui : BitVec 32) (n : BitVec 64)
    (_ : σ) : Script σ :=
  cuMemsetD32 state dst ui n

def fillValueRows (base pitch : BitVec 64) (value : List UInt8) (width height : BitVec 64)
    (memory : ByteMemory) : ByteMemory :=
  (List.range height.toNat).foldl (fun memory row =>
    fillValues (base + BitVec.ofNat 64 row * pitch) value width.toNat memory) memory

/-- The base of a fill of rows, if the call goes on (`2650-2656`). -/
def resolveRows (answers : Answers) (state : RuntimeState) (dst pitch : BitVec 64)
    (value : List UInt8) (width height : BitVec 64) : Except CuResult (BitVec 64) :=
  if answers.ready ≠ .success then .error answers.ready
  else
    let base := hostAccessiblePointer state.allocations dst
      (if height = 0 then 0 else (height - 1) * pitch + width * BitVec.ofNat 64 value.length)
    if base = 0 ∧ 0 < width ∧ 0 < height then .error .invalidValue else .ok base

/-- A fill of rows (`2647-2689`). -/
def memsetRows (answers : Answers) (state : RuntimeState) (dst pitch : BitVec 64)
    (value : List UInt8) (width height : BitVec 64) : Script σ :=
  match resolveRows answers state dst pitch value width height with
  | .error result => .finish result
  | .ok base =>
    if width = 0 ∨ height = 0 then .finish .success
    else .access (fillValueRows base pitch value width height)

/-- `cuMemsetD2D8` (`2648-2659`). -/
def cuMemsetD2D8 (answers : Answers) (state : RuntimeState) (dst pitch : BitVec 64)
    (uc : BitVec 8) (width height : BitVec 64) : Script σ :=
  memsetRows answers state dst pitch (toLittleEndian 1 uc.toNat) width height

/-- `cuMemsetD2D16` (`2661-2674`). -/
def cuMemsetD2D16 (answers : Answers) (state : RuntimeState) (dst pitch : BitVec 64)
    (us : BitVec 16) (width height : BitVec 64) : Script σ :=
  memsetRows answers state dst pitch (toLittleEndian 2 us.toNat) width height

/-- `cuMemsetD2D32` (`2676-2689`). -/
def cuMemsetD2D32 (answers : Answers) (state : RuntimeState) (dst pitch : BitVec 64)
    (ui : BitVec 32) (width height : BitVec 64) : Script σ :=
  memsetRows answers state dst pitch (toLittleEndian 4 ui.toNat) width height

/-- A fill of rows on a stream (`2691-2761`). -/
def memsetRowsAsync (answers : Answers) (state : RuntimeState) (dst pitch : BitVec 64)
    (value : List UInt8) (width height : BitVec 64) (stream : σ) : Script σ :=
  match resolveRows answers state dst pitch value width height with
  | .error result => .finish result
  | .ok base =>
    if answers.payload = false then .finish .outOfMemory
    else .enqueue stream (fillValueRows base pitch value width height) false

/-- `cuMemsetD2D8Async` (`2692-2712`). -/
def cuMemsetD2D8Async (answers : Answers) (state : RuntimeState) (dst pitch : BitVec 64)
    (uc : BitVec 8) (width height : BitVec 64) (stream : σ) : Script σ :=
  memsetRowsAsync answers state dst pitch (toLittleEndian 1 uc.toNat) width height stream

/-- `cuMemsetD2D16Async` (`2713-2736`). -/
def cuMemsetD2D16Async (answers : Answers) (state : RuntimeState) (dst pitch : BitVec 64)
    (us : BitVec 16) (width height : BitVec 64) (stream : σ) : Script σ :=
  memsetRowsAsync answers state dst pitch (toLittleEndian 2 us.toNat) width height stream

/-- `cuMemsetD2D32Async` (`2737-2760`). -/
def cuMemsetD2D32Async (answers : Answers) (state : RuntimeState) (dst pitch : BitVec 64)
    (ui : BitVec 32) (width height : BitVec 64) (stream : σ) : Script σ :=
  memsetRowsAsync answers state dst pitch (toLittleEndian 4 ui.toNat) width height stream

/-- A memory call with its arguments. -/
inductive MemoryCall (σ : Type)
  | memcpy2D (copy : Option Memcpy2D)
  | memcpy2DAsync (copy : Option Memcpy2D) (stream : σ)
  | memcpy3D (copy : Option Memcpy3D)
  | memcpy3DAsync (copy : Option Memcpy3D) (stream : σ)
  | memsetD16 (dst : BitVec 64) (us : BitVec 16) (n : BitVec 64)
  | memsetD16Async (dst : BitVec 64) (us : BitVec 16) (n : BitVec 64) (stream : σ)
  | memsetD32 (dst : BitVec 64) (ui : BitVec 32) (n : BitVec 64)
  | memsetD32Async (dst : BitVec 64) (ui : BitVec 32) (n : BitVec 64) (stream : σ)
  | memsetD2D8 (dst pitch : BitVec 64) (uc : BitVec 8) (width height : BitVec 64)
  | memsetD2D8Async (dst pitch : BitVec 64) (uc : BitVec 8) (width height : BitVec 64) (stream : σ)
  | memsetD2D16 (dst pitch : BitVec 64) (us : BitVec 16) (width height : BitVec 64)
  | memsetD2D16Async (dst pitch : BitVec 64) (us : BitVec 16) (width height : BitVec 64)
      (stream : σ)
  | memsetD2D32 (dst pitch : BitVec 64) (ui : BitVec 32) (width height : BitVec 64)
  | memsetD2D32Async (dst pitch : BitVec 64) (ui : BitVec 32) (width height : BitVec 64)
      (stream : σ)

namespace MemoryCall

/-- The body of a call. -/
def script (answers : Answers) (state : RuntimeState) : MemoryCall σ → Script σ
  | memcpy2D copy => cuMemcpy2D answers state copy
  | memcpy2DAsync copy stream => cuMemcpy2DAsync answers state copy stream
  | memcpy3D copy => cuMemcpy3D answers state copy
  | memcpy3DAsync copy stream => cuMemcpy3DAsync answers state copy stream
  | memsetD16 dst us n => cuMemsetD16 state dst us n
  | memsetD16Async dst us n stream => cuMemsetD16Async state dst us n stream
  | memsetD32 dst ui n => cuMemsetD32 state dst ui n
  | memsetD32Async dst ui n stream => cuMemsetD32Async state dst ui n stream
  | memsetD2D8 dst pitch uc width height => cuMemsetD2D8 answers state dst pitch uc width height
  | memsetD2D8Async dst pitch uc width height stream =>
    cuMemsetD2D8Async answers state dst pitch uc width height stream
  | memsetD2D16 dst pitch us width height => cuMemsetD2D16 answers state dst pitch us width height
  | memsetD2D16Async dst pitch us width height stream =>
    cuMemsetD2D16Async answers state dst pitch us width height stream
  | memsetD2D32 dst pitch ui width height => cuMemsetD2D32 answers state dst pitch ui width height
  | memsetD2D32Async dst pitch ui width height stream =>
    cuMemsetD2D32Async answers state dst pitch ui width height stream

def stream? : MemoryCall σ → Option σ
  | memcpy2DAsync _ stream | memcpy3DAsync _ stream | memsetD16Async _ _ _ stream
  | memsetD32Async _ _ _ stream | memsetD2D8Async _ _ _ _ _ stream
  | memsetD2D16Async _ _ _ _ _ stream | memsetD2D32Async _ _ _ _ _ stream => some stream
  | _ => none

/-- The calls that read and write memory themselves: all synchronous ones, and two others. -/
def direct : MemoryCall σ → Bool
  | memcpy2D _ | memcpy3D _ | memsetD16 .. | memsetD32 .. | memsetD2D8 .. | memsetD2D16 ..
  | memsetD2D32 .. | memsetD16Async .. | memsetD32Async .. => true
  | _ => false

end MemoryCall

end CuMetal.Driver
