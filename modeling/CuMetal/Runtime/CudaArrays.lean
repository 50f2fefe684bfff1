import CuMetal.Lib.Totals
import CuMetal.Runtime.PitchedBounds

/-!
# The array registry

The calls of `runtime/rt/cuda_runtime.cpp` that make and drop the arrays of the registry and the
allocations under them (`1104-1110`, `3141-3198`, `3373-3410`, `4150-4220`, `7893-7988`).
-/

namespace CuMetal.Runtime.Arrays

open CuMetal.Runtime.Stream CuMetal.Runtime.Sync CuMetal.Runtime.Pitched

/-- The allocation table, and the `arrays` of the registry by their handles. There are no graph
allocations. -/
structure State where
  allocations : AllocationTable Buffer
  arrays : AssocMap (BitVec 64) CuMetalArray

/-- What a call asks for: `ensure_initialized`, `allocate_buffer`, `metal_backend::synchronize`, and
the memory of a new `CuMetalArray`. -/
structure Answers where
  initialization : CudaError
  allocation : CudaError
  buffer : (size : BitVec 64) → Option Buffer
  synchronization : CudaError
  object : Option (BitVec 64)

namespace State

variable (s : State)

/-- `resolve_array_handle` (`1104-1110`). -/
def resolveArrayHandle (handle : BitVec 64) : Option CuMetalArray :=
  if handle = 0 then none else s.arrays.find? handle

/-- `cudaMalloc` (`3141-3198`) with a place for the pointer. -/
def malloc (useMetalDeviceAddresses : Bool) (size : BitVec 64) (answers : Answers) :
    CudaError × BitVec 64 × State :=
  let made := cudaMalloc answers.initialization answers.allocation (answers.buffer size)
    useMetalDeviceAddresses s.allocations size
  (made.status, made.pointer, { s with allocations := made.allocations })

/-- A new array of the registry, with so many bytes (`7909-7930`, `7951-7971`). -/
def createArray (useMetalDeviceAddresses : Bool) (desc : ChannelFormatDesc)
    (width height depth allocationSize : BitVec 64) (answers : Answers) : CudaError × State :=
  match answers.object with
  | none => (.memoryAllocation, s)
  | some handle =>
    let (status, data, s) := s.malloc useMetalDeviceAddresses allocationSize answers
    if status ≠ .success then (status, s)
    else
      let array : CuMetalArray := ⟨data, width, height, depth, desc⟩
      (.success, { s with arrays := s.arrays ++ [(handle, array)] })

/-- `cudaMallocArray` (`7893-7931`) with a place for the handle. -/
def cudaMallocArray (useMetalDeviceAddresses : Bool) (desc : Option ChannelFormatDesc)
    (width height : BitVec 64) (answers : Answers) : CudaError × State :=
  match desc with
  | none => (.invalidValue, s)
  | some desc =>
    if width = 0 then (.invalidValue, s)
    else
      let rows := if height = 0 then 1 else height
      let bytes := do
        let elementSize ← arrayElementSize ⟨0, 0, 0, 0, desc⟩
        let elements ← checkedMultiply width rows
        checkedMultiply elements elementSize
      match bytes with
      | none => (.invalidValue, s)
      | some allocationSize =>
        s.createArray useMetalDeviceAddresses desc width rows 1 allocationSize answers

/-- `cudaMalloc3DArray` (`7933-7972`) with a place for the handle. -/
def cudaMalloc3DArray (useMetalDeviceAddresses : Bool) (desc : Option ChannelFormatDesc)
    (extent : Extent) (answers : Answers) : CudaError × State :=
  match desc with
  | none => (.invalidValue, s)
  | some desc =>
    if extent.width = 0 || extent.height = 0 || extent.depth = 0 then (.invalidValue, s)
    else
      let bytes := do
        let elementSize ← arrayElementSize ⟨0, 0, 0, 0, desc⟩
        let plane ← checkedMultiply extent.width extent.height
        let elements ← checkedMultiply plane extent.depth
        checkedMultiply elements elementSize
      match bytes with
      | none => (.invalidValue, s)
      | some allocationSize =>
        s.createArray useMetalDeviceAddresses desc extent.width extent.height extent.depth
          allocationSize answers

/-- `cudaFree` (`3373-3410`). -/
def cudaFree (pointer : BitVec 64) (answers : Answers) : CudaError × State :=
  if pointer = 0 then (.success, s)
  else if answers.initialization ≠ .success then (answers.initialization, s)
  else if answers.synchronization ≠ .success then (answers.synchronization, s)
  else
    match s.allocations.erase pointer with
    | none => (.invalidDevicePointer, s)
    | some allocations => (.success, { s with allocations })

/-- `cudaFreeArray` (`7974-7988`). -/
def cudaFreeArray (handle : BitVec 64) (answers : Answers) : CudaError × State :=
  if handle = 0 then (.invalidValue, s)
  else
    match s.arrays.find? handle with
    | none => (.invalidResourceHandle, s)
    | some array =>
      let s := { s with arrays := AssocMap.remove s.arrays handle }
      (.success, (s.cudaFree array.data answers).2)

/-- `cudaDeviceReset` (`4150-4220`), which clears the table and not the registry. -/
def cudaDeviceReset (answers : Answers) : CudaError × State :=
  if answers.initialization ≠ .success then (answers.initialization, s)
  else if answers.synchronization ≠ .success then (answers.synchronization, s)
  else (.success, { s with allocations := s.allocations.clear })

end State

inductive Action
  | malloc (size : BitVec 64) (answers : Answers)
  | mallocArray (desc : Option ChannelFormatDesc) (width height : BitVec 64) (answers : Answers)
  | malloc3DArray (desc : Option ChannelFormatDesc) (extent : Extent) (answers : Answers)
  | freeArray (handle : BitVec 64) (answers : Answers)
  | free (pointer : BitVec 64) (answers : Answers)
  | deviceReset (answers : Answers)

def State.call (useMetalDeviceAddresses : Bool) (s : State) : Action → CudaError × State
  | .malloc size answers =>
    let (status, _, s) := s.malloc useMetalDeviceAddresses size answers
    (status, s)
  | .mallocArray desc width height answers =>
    s.cudaMallocArray useMetalDeviceAddresses desc width height answers
  | .malloc3DArray desc extent answers =>
    s.cudaMalloc3DArray useMetalDeviceAddresses desc extent answers
  | .freeArray handle answers => s.cudaFreeArray handle answers
  | .free pointer answers => s.cudaFree pointer answers
  | .deviceReset answers => s.cudaDeviceReset answers

def Action.answers : Action → Answers
  | .malloc _ answers | .mallocArray _ _ _ answers | .malloc3DArray _ _ answers
  | .freeArray _ answers | .free _ answers | .deviceReset answers => answers

/-- A buffer of `allocate_buffer` is a new object whose ranges end before the address space does,
and a new `CuMetalArray` is where no other one is. -/
structure Answers.Possible (answers : Answers) (s : State) : Prop where
  fits : ∀ size, ∀ buffer ∈ answers.buffer size, buffer.Fits size
  fresh : ∀ size, ∀ buffer ∈ answers.buffer size, ∀ entry ∈ s.allocations.entries,
    entry.2.buffer ≠ some buffer
  object : ∀ handle ∈ answers.object, handle ≠ 0 ∧ s.arrays.find? handle = none

def Steps (useMetalDeviceAddresses : Bool) (s : State) (action : Action) (s' : State) : Prop :=
  action.answers.Possible s ∧ (s.call useMetalDeviceAddresses action).2 = s'

def initial : State := ⟨.initial, []⟩

/-- The block of an array that `cudaMemcpy3D` goes over (`4013-4028`). -/
def regionBlock (array : CuMetalArray) (position : Pos) (extent : Extent)
    (elementSize : BitVec 64) : Block :=
  blockOf ⟨array.data, array.width * elementSize, array.height, position.z, position.y,
    position.x * elementSize⟩ (extent.width * elementSize) extent (some array)

/-- A byte of the rows of an array that `cudaMemcpy2DToArray` and `cudaMemcpy2DFromArray` go
over. -/
def rowByte (array : CuMetalArray) (wOffset hOffset : BitVec 64) (y c : Nat) : BitVec 64 :=
  array.byteAt wOffset hOffset + BitVec.ofNat 64 y * array.rowBytes + BitVec.ofNat 64 c

end CuMetal.Runtime.Arrays
