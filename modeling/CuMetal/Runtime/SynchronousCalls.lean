import CuMetal.Lib.GuardedRun
import CuMetal.Runtime.StreamCalls

/-!
# Synchronous memory calls

The copies and fills of `runtime/rt/cuda_runtime.cpp` that the host carries out itself, and the work
of the streams that is still going on when they are called.
-/

namespace CuMetal.Runtime.Sync

open CuMetal.Runtime.Stream

/-- What is left of a call after its first checks: it returns, it reads and writes memory at once,
or it does so after `metal_backend::synchronize`. -/
inductive Script
  | finish (status : CudaError)
  | access (body : RuntimeState → CudaError × RuntimeState)
  | synchronize (body : RuntimeState → CudaError × RuntimeState)

def store (effect : ByteMemory → ByteMemory) (state : RuntimeState) : CudaError × RuntimeState :=
  (.success, { state with memory := effect state.memory })

/-- `cudaChannelFormatDesc`, without its format kind. -/
structure ChannelFormatDesc where
  x : BitVec 32
  y : BitVec 32
  z : BitVec 32
  w : BitVec 32

/-- `CuMetalArray` (`cuda_runtime.cpp:364-371`). -/
structure CuMetalArray where
  data : BitVec 64
  width : BitVec 64
  height : BitVec 64
  depth : BitVec 64
  desc : ChannelFormatDesc

/-- What the calls ask of the rest of the runtime: the arrays by their handles, and the registered
symbols (`device.lookupSymbol`). -/
structure Environment where
  arrays : AssocMap (BitVec 64) CuMetalArray
  device : Device

/-- `resolve_array_handle` (`1104-1110`). -/
def Environment.resolveArrayHandle (env : Environment) (handle : BitVec 64) :
    Option CuMetalArray :=
  if handle = 0 then none else env.arrays.find? handle

/-- `array_element_size` (`1116-1127`). -/
def arrayElementSize (array : CuMetalArray) : Option (BitVec 64) :=
  let desc := array.desc
  if desc.x.slt 0 || desc.y.slt 0 || desc.z.slt 0 || desc.w.slt 0 then none
  else
    let bits := desc.x.zeroExtend 64 + desc.y.zeroExtend 64 + desc.z.zeroExtend 64 +
      desc.w.zeroExtend 64
    if bits = 0 ∨ 128 < bits ∨ bits % 8 ≠ 0 then none else some (bits / 8)

/-- `checked_multiply` (`1129-1136`). -/
def checkedMultiply (lhs rhs : BitVec 64) : Option (BitVec 64) :=
  if lhs ≠ 0 ∧ maxAddress / lhs < rhs then none else some (lhs * rhs)

/-- `valid_array_region` (`1138-1143`). -/
def validArrayRegion (array : CuMetalArray) (position : Pos) (extent : Extent) : Bool :=
  position.x ≤ array.width && extent.width ≤ array.width - position.x &&
    position.y ≤ array.height && extent.height ≤ array.height - position.y &&
    position.z ≤ array.depth && extent.depth ≤ array.depth - position.z

/-- `linear_3d_span` (`1145-1175`). -/
def linear3dSpan (pointer : PitchedPtr) (position : Pos) (widthBytes height depth : BitVec 64) :
    Option (BitVec 64) :=
  if pointer.ptr = 0 then none
  else
    let pitch := orElse pointer.pitch widthBytes
    let planeHeight := orElse pointer.ysize height
    if pitch < position.x ∨ pitch - position.x < widthBytes ∨ planeHeight < position.y ∨
        planeHeight - position.y < height then none
    else do
      let planeSize ← checkedMultiply pitch planeHeight
      if maxAddress - (depth - 1) < position.z ∨ maxAddress - (height - 1) < position.y then none
      else
        let planeOffset ← checkedMultiply (position.z + depth - 1) planeSize
        let rowOffset ← checkedMultiply (position.y + height - 1) pitch
        if maxAddress - rowOffset < planeOffset ∨
            maxAddress - position.x < planeOffset + rowOffset ∨
            maxAddress - widthBytes < planeOffset + rowOffset + position.x then none
        else some (planeOffset + rowOffset + position.x + widthBytes)

/-- `cudaMemcpy3DParms` (`api/cuda_runtime.h:783-792`) without its kind, of which every enumerator
is accepted. -/
structure ArrayMemcpy3DParms extends Memcpy3DParms where
  srcArray : BitVec 64
  dstArray : BitVec 64

/-- One end of a copy with an array, when it fits (`1199-1221`): its span, which for an array is not
computed. -/
def validEnd (array : Option CuMetalArray) (pointer : PitchedPtr) (position : Pos)
    (extent : Extent) (elementSize widthBytes : BitVec 64) : Option (BitVec 64) :=
  match array with
  | some array =>
    if validArrayRegion array position extent && arrayElementSize array = some elementSize then
      some 0
    else none
  | none => linear3dSpan pointer position widthBytes extent.height extent.depth

/-- `validate_array_memcpy_3d` (`1177-1224`) for a copy with an array at an end: the bytes of a row
and the spans of the ends. -/
def validateArrayMemcpy3D (env : Environment) (params : ArrayMemcpy3DParms) :
    Except CudaError (BitVec 64 × BitVec 64 × BitVec 64) :=
  let source := env.resolveArrayHandle params.srcArray
  let destination := env.resolveArrayHandle params.dstArray
  if (params.srcArray ≠ 0 ∧ source.isNone) ∨ (params.dstArray ≠ 0 ∧ destination.isNone) then
    .error .invalidResourceHandle
  else
    match source.or destination with
    | none => .ok (0, 0, 0)
    | some shape =>
      let spans := do
        let elementSize ← arrayElementSize shape
        let widthBytes ← checkedMultiply params.extent.width elementSize
        let sourceSpan ← validEnd source params.srcPtr params.srcPos params.extent elementSize
          widthBytes
        let destinationSpan ← validEnd destination params.dstPtr params.dstPos params.extent
          elementSize widthBytes
        some (widthBytes, sourceSpan, destinationSpan)
      match spans with
      | none => .error .invalidValue
      | some spans => .ok spans

/-! ## The calls -/

/-- `cudaMemcpy` (`3412-3461`). -/
def cudaMemcpy (dst src count : BitVec 64) (kind : MemcpyKind) (state : RuntimeState) : Script :=
  if (dst = 0 ∨ src = 0) ∧ 0 < count then .finish .invalidValue
  else if state.initStatus ≠ .success then .finish state.initStatus
  else
    match resolveMemcpyKind state.allocations dst src kind with
    | .error status => .finish status
    | .ok resolvedKind =>
      .synchronize fun state =>
        if 0 < count then
          let hostDst := hostAccessiblePointer state.allocations dst count
          let hostSrc := hostAccessiblePointer state.allocations src count
          if hostDst = 0 ∨ hostSrc = 0 then (.invalidValue, state)
          else
            store (fun memory =>
              memory.write hostDst
                (stagedBytes state.allocations resolvedKind (memory.read hostSrc count.toNat)))
              state
        else (.success, state)

/-- `cudaMemset` (`3729-3759`). -/
def cudaMemset (devPtr : BitVec 64) (value : BitVec 32) (count : BitVec 64)
    (state : RuntimeState) : Script :=
  if devPtr = 0 ∧ 0 < count then .finish .invalidValue
  else if state.initStatus ≠ .success then .finish state.initStatus
  else
    .synchronize fun state =>
      if 0 < count then
        let hostPtr := hostAccessiblePointer state.allocations devPtr count
        if hostPtr = 0 then (.invalidValue, state)
        else store (fun memory => memory.write hostPtr (fillBytes value count)) state
      else (.success, state)

/-- `cudaMemcpy2D` (`3804-3849`). -/
def cudaMemcpy2D (dst dpitch src spitch width height : BitVec 64) (kind : MemcpyKind)
    (state : RuntimeState) : Script :=
  if (dst = 0 ∨ src = 0) ∧ 0 < width ∧ 0 < height then .finish .invalidValue
  else if state.initStatus ≠ .success then .finish state.initStatus
  else
    let kindStatus :=
      if 0 < width ∧ 0 < height then
        match resolveMemcpyKind state.allocations dst src kind with
        | .error status => status
        | .ok _ => .success
      else .success
    if kindStatus ≠ .success then .finish kindStatus
    else
      .synchronize fun state =>
        let hostDst := hostAccessiblePointer state.allocations dst (rowSpan dpitch width height)
        let hostSrc := hostAccessiblePointer state.allocations src (rowSpan spitch width height)
        if (hostDst = 0 ∨ hostSrc = 0) ∧ 0 < width ∧ 0 < height then (.invalidValue, state)
        else store (copyRows hostDst dpitch hostSrc spitch width height) state

/-- `cudaMemset2D` (`3881-3904`). -/
def cudaMemset2D (devPtr pitch : BitVec 64) (value : BitVec 32) (width height : BitVec 64)
    (state : RuntimeState) : Script :=
  if devPtr = 0 ∧ 0 < width ∧ 0 < height then .finish .invalidValue
  else if state.initStatus ≠ .success then .finish state.initStatus
  else
    -- unlike `cudaMemcpy2D`, no synchronization
    .access fun state =>
      let hostPtr := hostAccessiblePointer state.allocations devPtr (rowSpan pitch width height)
      if hostPtr = 0 ∧ 0 < width ∧ 0 < height then (.invalidValue, state)
      else store (fillRows hostPtr pitch value width height) state

/-- `cudaMemset3D` (`3921-3948`). -/
def cudaMemset3D (pitched : PitchedPtr) (value : BitVec 32) (extent : Extent)
    (state : RuntimeState) : Script :=
  if pitched.ptr = 0 ∧ extent.occupied then .finish .invalidValue
  else if state.initStatus ≠ .success then .finish state.initStatus
  else
    let planeSize := pitched.pitch * pitched.ysize
    .access fun state =>
      let base := hostAccessiblePointer state.allocations pitched.ptr
        (blockSpan ⟨0, 0, 0⟩ pitched.pitch pitched.ysize extent)
      if base = 0 ∧ extent.occupied then (.invalidValue, state)
      else
        store (fun memory =>
          (List.range extent.depth.toNat).foldl (fun memory z =>
            fillRows (base + BitVec.ofNat 64 z * planeSize) pitched.pitch value extent.width
              extent.height memory) memory) state

/-- Where an end of a three-dimensional copy lies: its first byte, its pitch and height, the place
of the copy in it and the bytes from the start of a row. -/
structure BlockEnd where
  base : BitVec 64
  pitch : BitVec 64
  height : BitVec 64
  z : BitVec 64
  y : BitVec 64
  x : BitVec 64

/-- The first byte of a row (`4020-4026`, `4060-4067`). -/
def BlockEnd.row (side : BlockEnd) (z y : Nat) : BitVec 64 :=
  side.base + (side.z + BitVec.ofNat 64 z) * side.pitch * side.height +
    (side.y + BitVec.ofNat 64 y) * side.pitch + side.x

/-- `std::memcpy` of each row of each plane. -/
def copyBlock (destination source : BlockEnd) (widthBytes : BitVec 64) (extent : Extent)
    (memory : ByteMemory) : ByteMemory :=
  (List.range extent.depth.toNat).foldl (fun memory z =>
    (List.range extent.height.toNat).foldl (fun memory y =>
      memory.write (destination.row z y) (memory.read (source.row z y) widthBytes.toNat))
      memory) memory

/-- An end of a copy with an array (`3989-4016`). -/
def arrayEnd (state : RuntimeState) (array : Option CuMetalArray) (pointer : PitchedPtr)
    (position : Pos) (extent : Extent) (widthBytes elementSize span : BitVec 64) : BlockEnd :=
  match array with
  | some array =>
    ⟨array.data, array.width * elementSize, array.height, position.z, position.y,
      position.x * elementSize⟩
  | none =>
    ⟨hostAccessiblePointer state.allocations pointer.ptr span, orElse pointer.pitch widthBytes,
      orElse pointer.ysize extent.height, position.z, position.y, position.x⟩

/-- An end of a copy between pitched pointers (`4039-4056`). -/
def pitchedEnd (state : RuntimeState) (pointer : PitchedPtr) (position : Pos) (extent : Extent) :
    BlockEnd :=
  let pitch := orElse pointer.pitch extent.width
  let height := orElse pointer.ysize extent.height
  ⟨hostAccessiblePointer state.allocations pointer.ptr (blockSpan position pitch height extent),
    pitch, height, position.z, position.y, position.x⟩

/-- `cudaMemcpy3D` (`3972-4070`). -/
def cudaMemcpy3D (env : Environment) (params : ArrayMemcpy3DParms) (state : RuntimeState) :
    Script :=
  let extent := params.extent
  if (params.srcArray = 0) = (params.srcPtr.ptr = 0) ∨
      (params.dstArray = 0) = (params.dstPtr.ptr = 0) then
    .finish .invalidValue
  else if extent.width = 0 ∨ extent.height = 0 ∨ extent.depth = 0 then .finish .success
  else if params.srcArray ≠ 0 ∨ params.dstArray ≠ 0 then
    match validateArrayMemcpy3D env params with
    | .error status => .finish status
    | .ok (widthBytes, sourceSpan, destinationSpan) =>
      let elementSize := widthBytes / extent.width
      .access fun state =>
        let source := arrayEnd state (env.resolveArrayHandle params.srcArray) params.srcPtr
          params.srcPos extent widthBytes elementSize sourceSpan
        let destination := arrayEnd state (env.resolveArrayHandle params.dstArray) params.dstPtr
          params.dstPos extent widthBytes elementSize destinationSpan
        if source.base = 0 ∨ destination.base = 0 then (.invalidValue, state)
        else store (copyBlock destination source widthBytes extent) state
  else if state.initStatus ≠ .success then .finish state.initStatus
  else
    .access fun state =>
      let source := pitchedEnd state params.srcPtr params.srcPos extent
      let destination := pitchedEnd state params.dstPtr params.dstPos extent
      if (source.base = 0 ∨ destination.base = 0) ∧ extent.occupied then (.invalidValue, state)
      else store (copyBlock destination source extent.width extent) state

/-- `cudaMemcpyToSymbol` (`3570-3608`). -/
def cudaMemcpyToSymbol (env : Environment) (symbol src count offset : BitVec 64)
    (kind : MemcpyKind) (state : RuntimeState) : Script :=
  if symbol = 0 ∨ (src = 0 ∧ 0 < count) then .finish .invalidValue
  else if state.initStatus ≠ .success then .finish state.initStatus
  else
    match resolveMemcpySymbolKind state.allocations .hostToDevice src kind with
    | .error status => .finish status
    | .ok _ =>
      match checkedSymbolPtr env.device symbol count offset with
      | .error status => .finish status
      | .ok symbolPtr =>
        .synchronize (store fun memory =>
          if 0 < count then memory.write symbolPtr (memory.read src count.toNat) else memory)

/-- `cudaMemcpyFromSymbol` (`3610-3648`). -/
def cudaMemcpyFromSymbol (env : Environment) (dst symbol count offset : BitVec 64)
    (kind : MemcpyKind) (state : RuntimeState) : Script :=
  if (dst = 0 ∧ 0 < count) ∨ symbol = 0 then .finish .invalidValue
  else if state.initStatus ≠ .success then .finish state.initStatus
  else
    match resolveMemcpySymbolKind state.allocations .deviceToHost dst kind with
    | .error status => .finish status
    | .ok _ =>
      match checkedSymbolPtr env.device symbol count offset with
      | .error status => .finish status
      | .ok symbolPtr =>
        .synchronize (store fun memory =>
          if 0 < count then memory.write dst (memory.read symbolPtr count.toNat) else memory)

/-- The bytes of an element as the array copies compute them (`7997-7998`). -/
def elementBytes (desc : ChannelFormatDesc) : BitVec 64 :=
  ((desc.x + desc.y + desc.z + desc.w + 7).sdiv 8).signExtend 64

def CuMetalArray.rowBytes (array : CuMetalArray) : BitVec 64 :=
  array.width * elementBytes array.desc

/-- A block of rows fits into the array, and into the pitch of the other end
(`8000-8004`, `8020-8024`). -/
def CuMetalArray.fitsRows (array : CuMetalArray) (wOffset hOffset pitch width height : BitVec 64) :
    Bool :=
  wOffset ≤ array.rowBytes && width ≤ array.rowBytes - wOffset && hOffset ≤ array.height &&
    height ≤ array.height - hOffset && width ≤ pitch

/-- A string of bytes fits into the array (`8039-8044`, `8060-8065`). -/
def CuMetalArray.fitsBytes (array : CuMetalArray) (wOffset hOffset count : BitVec 64) : Bool :=
  let rowBytes := array.rowBytes
  let totalBytes := rowBytes * array.height * array.depth
  hOffset < array.height && wOffset ≤ rowBytes && hOffset ≤ maxAddress / rowBytes &&
    hOffset * rowBytes ≤ totalBytes - wOffset &&
    count ≤ totalBytes - (hOffset * rowBytes + wOffset)

def CuMetalArray.byteAt (array : CuMetalArray) (wOffset hOffset : BitVec 64) : BitVec 64 :=
  array.data + hOffset * array.rowBytes + wOffset

/-- `cudaMemcpy2DToArray` (`7990-8008`). -/
def cudaMemcpy2DToArray (env : Environment)
    (dst wOffset hOffset src spitch width height : BitVec 64) (kind : MemcpyKind)
    (state : RuntimeState) : Script :=
  if dst = 0 ∨ src = 0 then .finish .invalidValue
  else
    match env.resolveArrayHandle dst with
    | none => .finish .invalidResourceHandle
    | some array =>
      if array.fitsRows wOffset hOffset spitch width height = false then .finish .invalidValue
      else
        cudaMemcpy2D (array.byteAt wOffset hOffset) array.rowBytes src spitch width height kind
          state

/-- `cudaMemcpy2DFromArray` (`8010-8028`). -/
def cudaMemcpy2DFromArray (env : Environment)
    (dst dpitch src wOffset hOffset width height : BitVec 64) (kind : MemcpyKind)
    (state : RuntimeState) : Script :=
  if dst = 0 ∨ src = 0 then .finish .invalidValue
  else
    match env.resolveArrayHandle src with
    | none => .finish .invalidResourceHandle
    | some array =>
      if array.fitsRows wOffset hOffset dpitch width height = false then .finish .invalidValue
      else
        cudaMemcpy2D dst dpitch (array.byteAt wOffset hOffset) array.rowBytes width height kind
          state

/-- `cudaMemcpyToArray` (`8030-8049`). -/
def cudaMemcpyToArray (env : Environment) (dst wOffset hOffset src count : BitVec 64)
    (kind : MemcpyKind) (state : RuntimeState) : Script :=
  if dst = 0 ∨ src = 0 then .finish .invalidValue
  else
    match env.resolveArrayHandle dst with
    | none => .finish .invalidResourceHandle
    | some array =>
      if array.fitsBytes wOffset hOffset count = false then .finish .invalidValue
      else cudaMemcpy (array.byteAt wOffset hOffset) src count kind state

/-- `cudaMemcpyFromArray` (`8051-8070`). -/
def cudaMemcpyFromArray (env : Environment) (dst src wOffset hOffset count : BitVec 64)
    (kind : MemcpyKind) (state : RuntimeState) : Script :=
  if dst = 0 ∨ src = 0 then .finish .invalidValue
  else
    match env.resolveArrayHandle src with
    | none => .finish .invalidResourceHandle
    | some array =>
      if array.fitsBytes wOffset hOffset count = false then .finish .invalidValue
      else cudaMemcpy dst (array.byteAt wOffset hOffset) count kind state

/-- A synchronous call with its arguments. -/
inductive SyncCall
  | memcpy (dst src count : BitVec 64) (kind : MemcpyKind)
  | memcpyPeer (dst src count : BitVec 64)
  | memset (devPtr : BitVec 64) (value : BitVec 32) (count : BitVec 64)
  | memcpy2D (dst dpitch src spitch width height : BitVec 64) (kind : MemcpyKind)
  | memset2D (devPtr pitch : BitVec 64) (value : BitVec 32) (width height : BitVec 64)
  | memset3D (pitched : PitchedPtr) (value : BitVec 32) (extent : Extent)
  | memcpy3D (params : ArrayMemcpy3DParms)
  | memcpyToSymbol (symbol src count offset : BitVec 64) (kind : MemcpyKind)
  | memcpyFromSymbol (dst symbol count offset : BitVec 64) (kind : MemcpyKind)
  | memcpy2DToArray (dst wOffset hOffset src spitch width height : BitVec 64) (kind : MemcpyKind)
  | memcpy2DFromArray (dst dpitch src wOffset hOffset width height : BitVec 64)
      (kind : MemcpyKind)
  | memcpyToArray (dst wOffset hOffset src count : BitVec 64) (kind : MemcpyKind)
  | memcpyFromArray (dst src wOffset hOffset count : BitVec 64) (kind : MemcpyKind)

/-- The body of a call; `cudaMemcpyPeer` (`7817-7821`) is `cudaMemcpy` with the default kind. -/
def SyncCall.script (env : Environment) : SyncCall → RuntimeState → Script
  | .memcpy dst src count kind => cudaMemcpy dst src count kind
  | .memcpyPeer dst src count => cudaMemcpy dst src count .default_
  | .memset devPtr value count => cudaMemset devPtr value count
  | .memcpy2D dst dpitch src spitch width height kind =>
    cudaMemcpy2D dst dpitch src spitch width height kind
  | .memset2D devPtr pitch value width height => cudaMemset2D devPtr pitch value width height
  | .memset3D pitched value extent => cudaMemset3D pitched value extent
  | .memcpy3D params => cudaMemcpy3D env params
  | .memcpyToSymbol symbol src count offset kind =>
    cudaMemcpyToSymbol env symbol src count offset kind
  | .memcpyFromSymbol dst symbol count offset kind =>
    cudaMemcpyFromSymbol env dst symbol count offset kind
  | .memcpy2DToArray dst wOffset hOffset src spitch width height kind =>
    cudaMemcpy2DToArray env dst wOffset hOffset src spitch width height kind
  | .memcpy2DFromArray dst dpitch src wOffset hOffset width height kind =>
    cudaMemcpy2DFromArray env dst dpitch src wOffset hOffset width height kind
  | .memcpyToArray dst wOffset hOffset src count kind =>
    cudaMemcpyToArray env dst wOffset hOffset src count kind
  | .memcpyFromArray dst src wOffset hOffset count kind =>
    cudaMemcpyFromArray env dst src wOffset hOffset count kind

/-- The calls that do not wait for the streams. -/
def SyncCall.direct : SyncCall → Bool
  | .memset2D .. | .memset3D .. | .memcpy3D .. => true
  | _ => false

end CuMetal.Runtime.Sync
