import CuMetal.Lib.SteppedWalk
import CuMetal.Runtime.SynchronousCalls

/-!
# Pitched and three-dimensional memory

The calls of `runtime/rt/cuda_runtime.cpp` that go over memory row by row, as fills and copies of
blocks, and the two calls that allocate such memory.
-/

namespace CuMetal.Runtime.Pitched

open CuMetal.Runtime.Stream CuMetal.Runtime.Sync List BlockEnd ByteMemory Sync

/-- The rows at one end of a call; `array` is the array that the end lies in, if there is one. -/
structure Block where
  side : BlockEnd
  width : BitVec 64
  height : BitVec 64
  depth : BitVec 64
  array : Option CuMetalArray

namespace Block

def byte (block : Block) (z y c : Nat) : BitVec 64 := ByteMemory.place (block.side.row z y) c

/-- The block has bytes. -/
structure Occupied (block : Block) : Prop where
  width : 0 < block.width.toNat
  height : 0 < block.height.toNat
  depth : 0 < block.depth.toNat

/-- The bytes from the base to the last one, without wrapping around. -/
def span (block : Block) : Nat :=
  (block.side.z.toNat + block.depth.toNat - 1) *
      (block.side.pitch.toNat * block.side.height.toNat) +
    (block.side.y.toNat + block.height.toNat - 1) * block.side.pitch.toNat +
    block.side.x.toNat + block.width.toNat

/-- The block as it lies from an address on. -/
def grid (block : Block) (low : BitVec 64) : SteppedWalk.Grid 64 where
  start := block.side.row 0 0 - low
  plane := block.side.pitch * block.side.height
  pitch := block.side.pitch
  depth := block.depth.toNat
  height := block.height.toNat
  width := block.width.toNat

/-- Stores into each row of each plane what `contents` gives for it. -/
def store (block : Block) (contents : Nat → Nat → ByteMemory → List UInt8) (memory : ByteMemory) :
    ByteMemory :=
  (List.range block.depth.toNat).foldl (fun memory z =>
    (List.range block.height.toNat).foldl (fun memory y =>
      memory.write (block.side.row z y) (contents z y memory)) memory) memory

end Block

/-- What an accepted call does with memory. -/
inductive Transfer
  | fill (destination : Block) (value : BitVec 32)
  | copy (destination source : Block)

namespace Transfer

def destination : Transfer → Block
  | .fill destination _ | .copy destination _ => destination

def blocks : Transfer → List Block
  | .fill destination _ => [destination]
  | .copy destination source => [destination, source]

/-- `std::memset` or `std::memcpy` of each row of each plane. -/
def run : Transfer → ByteMemory → ByteMemory
  | .fill destination value => destination.store fun _ _ _ => fillBytes value destination.width
  | .copy destination source =>
    destination.store fun z y memory => memory.read (source.side.row z y) source.width.toNat

end Transfer

/-- A call on pitched or three-dimensional memory. -/
inductive PitchedCall
  | memcpy2D (dst dpitch src spitch width height : BitVec 64) (kind : MemcpyKind)
  | memcpy2DAsync (dst dpitch src spitch width height : BitVec 64)
  | memset2D (devPtr pitch : BitVec 64) (value : BitVec 32) (width height : BitVec 64)
  | memset2DAsync (devPtr pitch : BitVec 64) (value : BitVec 32) (width height : BitVec 64)
  | memset3D (pitched : PitchedPtr) (value : BitVec 32) (extent : Extent)
  | memset3DAsync (pitched : PitchedPtr) (value : BitVec 32) (extent : Extent)
  | memcpy3D (params : ArrayMemcpy3DParms)
  | memcpy3DAsync (params : ArrayMemcpy3DParms)

/-- The rows from a pointer on, as `host_accessible_pointer` gives it for their span. -/
def rows (state : RuntimeState) (pointer pitch width height : BitVec 64) : Block where
  side := ⟨hostAccessiblePointer state.allocations pointer (rowSpan pitch width height), pitch, 0,
    0, 0, 0⟩
  width := width
  height := height
  depth := 1
  array := none

/-- The planes of a pitched pointer (`3930-3937`). -/
def planes (state : RuntimeState) (pitched : PitchedPtr) (extent : Extent) : Block where
  side := ⟨hostAccessiblePointer state.allocations pitched.ptr
    (blockSpan ⟨0, 0, 0⟩ pitched.pitch pitched.ysize extent), pitched.pitch, pitched.ysize, 0, 0, 0⟩
  width := extent.width
  height := extent.height
  depth := extent.depth
  array := none

/-- A null pointer stops a call that has bytes to go over. -/
def guarded (empty : Bool) (bases : List (BitVec 64)) (transfer : Transfer) : Option Transfer :=
  if bases.contains 0 && !empty then none else some transfer

/-- What `cudaMemcpy2D` and `cudaMemcpy2DAsync` copy. -/
def copyOfRows (state : RuntimeState) (dst dpitch src spitch width height : BitVec 64) :
    Option Transfer :=
  let destination := rows state dst dpitch width height
  let source := rows state src spitch width height
  guarded (width = 0 || height = 0) [destination.side.base, source.side.base]
    (.copy destination source)

/-- What `cudaMemset2D` and `cudaMemset2DAsync` fill. -/
def fillOfRows (state : RuntimeState) (devPtr pitch : BitVec 64) (value : BitVec 32)
    (width height : BitVec 64) : Option Transfer :=
  let destination := rows state devPtr pitch width height
  guarded (width = 0 || height = 0) [destination.side.base] (.fill destination value)

/-- What `cudaMemset3D` and `cudaMemset3DAsync` fill. -/
def fillOfPlanes (state : RuntimeState) (pitched : PitchedPtr) (value : BitVec 32)
    (extent : Extent) : Option Transfer :=
  let destination := planes state pitched extent
  guarded (!extent.occupied) [destination.side.base] (.fill destination value)

/-- A block at one end of a three-dimensional copy. -/
def blockOf (side : BlockEnd) (widthBytes : BitVec 64) (extent : Extent)
    (array : Option CuMetalArray) : Block :=
  ⟨side, widthBytes, extent.height, extent.depth, array⟩

/-- What a copy between pitched pointers copies. -/
def copyOfPlanes (state : RuntimeState) (params : Memcpy3DParms) : Option Transfer :=
  let destination := pitchedEnd state params.dstPtr params.dstPos params.extent
  let source := pitchedEnd state params.srcPtr params.srcPos params.extent
  guarded (!params.extent.occupied) [destination.base, source.base]
    (.copy (blockOf destination params.extent.width params.extent none)
      (blockOf source params.extent.width params.extent none))

/-- What a copy with an array copies (`3981-4028`). -/
def copyOfArrays (env : Environment) (state : RuntimeState) (params : ArrayMemcpy3DParms) :
    Option Transfer :=
  match validateArrayMemcpy3D env params with
  | .error _ => none
  | .ok (widthBytes, sourceSpan, destinationSpan) =>
    let elementSize := widthBytes / params.extent.width
    let sourceArray := env.resolveArrayHandle params.srcArray
    let destinationArray := env.resolveArrayHandle params.dstArray
    let source := arrayEnd state sourceArray params.srcPtr params.srcPos params.extent widthBytes
      elementSize sourceSpan
    let destination := arrayEnd state destinationArray params.dstPtr params.dstPos params.extent
      widthBytes elementSize destinationSpan
    guarded false [destination.base, source.base]
      (.copy (blockOf destination widthBytes params.extent destinationArray)
        (blockOf source widthBytes params.extent sourceArray))

/-- What `cudaMemcpy3D` copies. -/
def copyOf3D (env : Environment) (state : RuntimeState) (params : ArrayMemcpy3DParms) :
    Option Transfer :=
  if params.extent.occupied = false then none
  else if params.srcArray ≠ 0 ∨ params.dstArray ≠ 0 then copyOfArrays env state params
  else copyOfPlanes state params.toMemcpy3DParms

/-- What a call does with memory once it accepted its arguments. -/
def PitchedCall.transfer (env : Environment) (state : RuntimeState) : PitchedCall → Option Transfer
  | .memcpy2D dst dpitch src spitch width height _
  | .memcpy2DAsync dst dpitch src spitch width height =>
    copyOfRows state dst dpitch src spitch width height
  | .memset2D devPtr pitch value width height | .memset2DAsync devPtr pitch value width height =>
    fillOfRows state devPtr pitch value width height
  | .memset3D pitched value extent | .memset3DAsync pitched value extent =>
    fillOfPlanes state pitched value extent
  | .memcpy3D params => copyOf3D env state params
  | .memcpy3DAsync params =>
    if params.srcArray ≠ 0 ∨ params.dstArray ≠ 0 then copyOf3D env state params
    else copyOfPlanes state params.toMemcpy3DParms

/-- A multiple of 512 (`3214-3215`, `3231-3232`). -/
def alignPitch (width : BitVec 64) : BitVec 64 := (width + 511) &&& ~~~511

/-- `cudaMallocPitch` (`3209-3217`) with places for the pointer and the pitch: the pitch and what
`cudaMalloc` leaves. -/
def cudaMallocPitch (initialization status : CudaError) (buffer : Option Buffer)
    (useMetalDeviceAddresses : Bool) (table : AllocationTable Buffer) (width height : BitVec 64) :
    BitVec 64 × Allocated :=
  (alignPitch width,
    cudaMalloc initialization status buffer useMetalDeviceAddresses table
      (alignPitch width * height))

/-- What `cudaMalloc3D` leaves; `pitched` and `xsize` are those of the caller if it fails. -/
structure Allocated3D where
  status : CudaError
  pitched : PitchedPtr
  xsize : BitVec 64
  allocations : AllocationTable Buffer

/-- `cudaMalloc3D` (`3219-3240`) with a place for the pitched pointer. -/
def cudaMalloc3D (initialization status : CudaError) (buffer : Option Buffer)
    (useMetalDeviceAddresses : Bool) (table : AllocationTable Buffer) (given : PitchedPtr)
    (xsize : BitVec 64) (extent : Extent) : Allocated3D :=
  if extent.width = 0 ∨ extent.height = 0 ∨ extent.depth = 0 then
    ⟨.success, ⟨0, 0, extent.height⟩, extent.width, table⟩
  else
    let pitch := alignPitch extent.width
    let allocated := cudaMalloc initialization status buffer useMetalDeviceAddresses table
      (pitch * extent.height * extent.depth)
    if allocated.status ≠ .success then ⟨allocated.status, given, xsize, allocated.allocations⟩
    else
      ⟨.success, ⟨allocated.pointer, pitch, extent.height⟩, extent.width, allocated.allocations⟩

/-! ## The calls do what the transfers say -/

/-- What the host does once nothing but memory is left to look at. -/
def perform (transfer : RuntimeState → Option Transfer) (state : RuntimeState) :
    CudaError × RuntimeState :=
  match transfer state with
  | none => (.invalidValue, state)
  | some transfer => store transfer.run state

/-- What a call leaves on the stream: it stores `contents` where the transfer stores. -/
def enqueueTransfer (device : Device) (transfer : Option Transfer) (completeBeforeReturn : Bool)
    (contents : Nat → Nat → ByteMemory → List UInt8) (session : Session) : CudaError × Session :=
  match transfer with
  | none => (.invalidValue, session)
  | some transfer =>
    enqueueStreamHostOpPageable device completeBeforeReturn
      (.compute fun _ => transfer.destination.store contents) session

theorem write_nil (memory : ByteMemory) (address : BitVec 64) :
    memory.write address [] = memory := by
  funext other
  simp [write]

theorem pos_iff {value : BitVec 64} : 0 < value ↔ value ≠ 0 := BitVec.pos_iff_ne_zero value

variable {width : BitVec 64} {empty : Bool} {bases : List (BitVec 64)} {transfer : Transfer}

theorem nonempty_iff {height : BitVec 64} :
    (decide (width = 0) || decide (height = 0)) = false ↔ 0 < width ∧ 0 < height := by
  rw [pos_iff, pos_iff, Bool.or_eq_false_iff, decide_eq_false_iff_not, decide_eq_false_iff_not]

theorem null_mem_pair {first second : BitVec 64} :
    0 ∈ [first, second] ↔ first = 0 ∨ second = 0 := by
  rw [mem_cons, mem_singleton, eq_comm, @eq_comm _ 0 second]

theorem null_mem_singleton {base : BitVec 64} : 0 ∈ [base] ↔ base = 0 := by
  rw [mem_singleton, eq_comm]

theorem occupied_iff {extent : Extent} :
    extent.occupied = true ↔ 0 < extent.width ∧ 0 < extent.height ∧ 0 < extent.depth := by
  simp only [Extent.occupied, Bool.and_eq_true, decide_eq_true_iff, and_assoc]

theorem write_guarded (memory : ByteMemory) (address : BitVec 64) {bytes : List UInt8}
    (length : bytes.length ≤ width.toNat) :
    (if 0 < width then memory.write address bytes else memory) = memory.write address bytes := by
  split
  · rfl
  next empty =>
    obtain rfl : width = 0 := not_not.mp fun some => empty (pos_iff.mpr some)
    rw [eq_nil_of_length_eq_zero (Nat.le_zero.mp length), write_nil]

theorem length_fillBytes (value : BitVec 32) (width : BitVec 64) :
    (fillBytes value width).length = width.toNat := length_replicate

theorem copyRows_eq (state : RuntimeState) (dst dpitch src spitch width height : BitVec 64)
    (memory : ByteMemory) :
    copyRows (rows state dst dpitch width height).side.base dpitch
        (rows state src spitch width height).side.base spitch width height memory =
      (Transfer.copy (rows state dst dpitch width height)
        (rows state src spitch width height)).run memory := by
  simp only [copyRows, write_guarded _ _ (length_read _ _ _).le]
  simp [Transfer.run, Block.store, rows, row]

theorem fillRows_eq (base pitch : BitVec 64) (value : BitVec 32) (width height : BitVec 64)
    (memory : ByteMemory) :
    fillRows base pitch value width height memory =
      (List.range height.toNat).foldl (fun memory row =>
        memory.write (base + BitVec.ofNat 64 row * pitch) (fillBytes value width)) memory := by
  simp only [fillRows, write_guarded _ _ (length_fillBytes value width).le]

theorem fillRows_run (state : RuntimeState) (devPtr pitch : BitVec 64) (value : BitVec 32)
    (width height : BitVec 64) (memory : ByteMemory) :
    fillRows (rows state devPtr pitch width height).side.base pitch value width height memory =
      (Transfer.fill (rows state devPtr pitch width height) value).run memory := by
  rw [fillRows_eq]
  simp [Transfer.run, Block.store, rows, row]

theorem fillPlanes_run (state : RuntimeState) (pitched : PitchedPtr) (value : BitVec 32)
    (extent : Extent) (memory : ByteMemory) :
    (List.range extent.depth.toNat).foldl (fun memory z =>
        fillRows ((planes state pitched extent).side.base +
            BitVec.ofNat 64 z * (pitched.pitch * pitched.ysize)) pitched.pitch value extent.width
          extent.height memory) memory =
      (Transfer.fill (planes state pitched extent) value).run memory := by
  simp only [fillRows_eq]
  simp [Transfer.run, Block.store, planes, row, BitVec.mul_assoc]

theorem guarded_null (transfer : Transfer) (null : 0 ∈ bases ∧ empty = false) :
    guarded empty bases transfer = none := by
  obtain ⟨base, rfl⟩ := null
  simpa [guarded] using base

theorem guarded_access (transfer : Transfer) (access : ¬ (0 ∈ bases ∧ empty = false)) :
    guarded empty bases transfer = some transfer := by
  simpa [guarded] using access

theorem guarded_iff {found : Transfer} :
    guarded empty bases transfer = some found ↔
      ¬ (0 ∈ bases ∧ empty = false) ∧ transfer = found := by
  by_cases null : 0 ∈ bases ∧ empty = false
  · rw [guarded_null transfer null]
    exact ⟨fun same => (by cases same), fun access => absurd null access.1⟩
  · rw [guarded_access transfer null, Option.some_inj]
    exact ⟨fun same => ⟨null, same⟩, fun access => access.2⟩

/-- A call finishes without a look at memory, or comes to this. -/
def ComesTo (script last : Script) : Prop := (∃ status, script = .finish status) ∨ script = last

/-- A call leaves it to the stream to store such contents where the transfer stores. -/
def Leaves (device : Device) (session : Session) (transfer : Option Transfer)
    (Contents : (Nat → Nat → ByteMemory → List UInt8) → Prop)
    (outcome : CudaError × Session) : Prop :=
  ∃ completeBeforeReturn contents, Contents contents ∧
    outcome = enqueueTransfer device transfer completeBeforeReturn contents session

section Synchronous

variable (env : Environment) (state : RuntimeState)

theorem perform_guarded {empty : RuntimeState → Bool} {bases : RuntimeState → List (BitVec 64)}
    {transfer : RuntimeState → Transfer} {refused : RuntimeState → Prop}
    [∀ state, Decidable (refused state)] {effect : RuntimeState → ByteMemory → ByteMemory}
    (checks : ∀ state, refused state ↔ 0 ∈ bases state ∧ empty state = false)
    (does : ∀ state, effect state = (transfer state).run) :
    (fun state => if refused state then (.invalidValue, state) else store (effect state) state) =
      perform fun state => guarded (empty state) (bases state) (transfer state) := by
  funext state
  rw [perform, does]
  by_cases null : refused state
  · rw [if_pos null, guarded_null _ ((checks state).mp null)]
  · rw [if_neg null, guarded_access _ fun both => null ((checks state).mpr both)]

/-- Once the work before it is done, the call copies the rows that it accepts. -/
theorem cudaMemcpy2D_performs (dst dpitch src spitch width height : BitVec 64) (kind : MemcpyKind) :
    ComesTo (Sync.cudaMemcpy2D dst dpitch src spitch width height kind state)
      (.synchronize (perform fun state => copyOfRows state dst dpitch src spitch width height)) := by
  unfold Sync.cudaMemcpy2D
  split
  · exact .inl ⟨_, rfl⟩
  split
  · exact .inl ⟨_, rfl⟩
  dsimp only
  generalize ite (0 < width ∧ 0 < height) _ CudaError.success = kindStatus
  split
  · exact .inl ⟨_, rfl⟩
  · refine .inr (congrArg Script.synchronize (perform_guarded (fun state => ?_) fun state => ?_))
    · rw [null_mem_pair, nonempty_iff]
      rfl
    · funext memory
      exact copyRows_eq state dst dpitch src spitch width height memory

theorem cudaMemset2D_performs (devPtr pitch : BitVec 64) (value : BitVec 32)
    (width height : BitVec 64) :
    ComesTo (cudaMemset2D devPtr pitch value width height state)
      (.access (perform fun state => fillOfRows state devPtr pitch value width height)) := by
  unfold cudaMemset2D
  split
  · exact .inl ⟨_, rfl⟩
  split
  · exact .inl ⟨_, rfl⟩
  · refine .inr (congrArg Script.access (perform_guarded (fun state => ?_) fun state => ?_))
    · rw [null_mem_singleton, nonempty_iff]
      rfl
    · funext memory
      exact fillRows_run state devPtr pitch value width height memory

theorem cudaMemset3D_performs (pitched : PitchedPtr) (value : BitVec 32) (extent : Extent) :
    ComesTo (cudaMemset3D pitched value extent state)
      (.access (perform fun state => fillOfPlanes state pitched value extent)) := by
  unfold cudaMemset3D
  split
  · exact .inl ⟨_, rfl⟩
  split
  · exact .inl ⟨_, rfl⟩
  · refine .inr (congrArg Script.access (perform_guarded (fun state => ?_) fun state => ?_))
    · rw [null_mem_singleton, Bool.not_eq_false']
      rfl
    · funext memory
      exact fillPlanes_run state pitched value extent memory

theorem copyBlock_run (destination source : BlockEnd) (widthBytes : BitVec 64) (extent : Extent)
    (array other : Option CuMetalArray) :
    copyBlock destination source widthBytes extent =
      (Transfer.copy (blockOf destination widthBytes extent array)
        (blockOf source widthBytes extent other)).run := rfl

/-- The call copies the block that it accepts, between pitched pointers or with arrays. -/
theorem cudaMemcpy3D_performs (params : ArrayMemcpy3DParms) :
    ComesTo (cudaMemcpy3D env params state)
      (.access (perform fun state => copyOf3D env state params)) := by
  unfold cudaMemcpy3D
  dsimp only
  split
  · exact .inl ⟨_, rfl⟩
  split
  · exact .inl ⟨_, rfl⟩
  next occupied =>
    have occupied : params.extent.occupied = true := by
      rw [occupied_iff, pos_iff, pos_iff, pos_iff]
      simpa only [not_or] using occupied
    split
    next arrays =>
      cases valid : validateArrayMemcpy3D env params with
      | error status => exact .inl ⟨_, rfl⟩
      | ok found =>
        simp only [copyOf3D, occupied, Bool.true_eq_false, if_false, if_pos arrays, copyOfArrays,
          valid]
        refine .inr (congrArg Script.access
          (perform_guarded (fun state => ?_) fun state => copyBlock_run ..))
        rw [null_mem_pair, eq_self, and_true]
        exact or_comm
    next pitched =>
      split
      · exact .inl ⟨_, rfl⟩
      · simp only [copyOf3D, occupied, Bool.true_eq_false, if_false, if_neg pitched, copyOfPlanes]
        refine .inr (congrArg Script.access
          (perform_guarded (fun state => ?_) fun state => copyBlock_run ..))
        rw [null_mem_pair]
        simp [or_comm]

end Synchronous

section Asynchronous

variable (device : Device) (session : Session)

theorem enqueueTransfer_guarded {refused : Prop} [Decidable refused] {completeBeforeReturn : Bool}
    {contents : Nat → Nat → ByteMemory → List UInt8}
    {effect : AllocationTable Buffer → ByteMemory → ByteMemory}
    (checks : refused ↔ 0 ∈ bases ∧ empty = false)
    (does : effect = fun _ => transfer.destination.store contents) :
    (if refused then (.invalidValue, session)
      else enqueueStreamHostOpPageable device completeBeforeReturn (.compute effect) session) =
      enqueueTransfer device (guarded empty bases transfer) completeBeforeReturn contents
        session := by
  by_cases null : refused
  · rw [if_pos null, guarded_null _ (checks.mp null)]
    rfl
  · rw [if_neg null, guarded_access _ fun both => null (checks.mpr both), does]
    rfl

theorem cudaMemset2DAsync_performs (devPtr pitch : BitVec 64) (value : BitVec 32)
    (width height : BitVec 64) :
    Leaves device session (fillOfRows session.world.runtime devPtr pitch value width height)
      (· = fun _ _ _ => fillBytes value width)
      (cudaMemset2DAsync device devPtr pitch value width height session) := by
  refine ⟨_, _, rfl, enqueueTransfer_guarded device session ?_ ?_⟩
  · rw [null_mem_singleton, nonempty_iff]
    rfl
  · funext _ memory
    exact fillRows_run session.world.runtime devPtr pitch value width height memory

theorem cudaMemset3DAsync_performs (pitched : PitchedPtr) (value : BitVec 32) (extent : Extent) :
    Leaves device session (fillOfPlanes session.world.runtime pitched value extent)
      (· = fun _ _ _ => fillBytes value extent.width)
      (cudaMemset3DAsync device pitched value extent session) := by
  refine ⟨_, _, rfl, enqueueTransfer_guarded device session ?_ ?_⟩
  · rw [null_mem_singleton, Bool.not_eq_false']
    rfl
  · funext _ memory
    exact fillPlanes_run session.world.runtime pitched value extent memory

/-- What a copy stores: rows of the source, unless these were staged when the call was made. -/
structure Copied (table : AllocationTable Buffer) (pointer : BitVec 64) (source : Block)
    (contents : Nat → Nat → ByteMemory → List UInt8) : Prop where
  fits : ∀ z y memory, (contents z y memory).length ≤ source.width.toNat
  reads : isPageableHostMemory table pointer = false → contents =
    fun z y memory => memory.read (source.side.row z y) source.width.toNat

/-- The stream copies the rows that the call accepts, or their bytes at the time of the call. -/
theorem cudaMemcpy2DAsync_performs (dst dpitch src spitch width height : BitVec 64) :
    Leaves device session (copyOfRows session.world.runtime dst dpitch src spitch width height)
      (Copied session.world.runtime.allocations src
        (rows session.world.runtime src spitch width height))
      (cudaMemcpy2DAsync device dst dpitch src spitch width height session) := by
  let runtime := session.world.runtime
  let source := rows runtime src spitch width height
  let staged := runtime.memory.read source.side.base (rowSpan spitch width height).toNat
  refine ⟨_, fun z y memory =>
    if 0 < rowSpan spitch width height ∧ 0 < width ∧
        isPageableHostMemory runtime.allocations src then
      (staged.drop (y * spitch.toNat)).take width.toNat
    else memory.read (source.side.row z y) width.toNat, ⟨?_, ?_⟩,
    enqueueTransfer_guarded device session ?_ ?_⟩
  · intro z y memory
    split
    · exact length_take_le _ _
    · exact (length_read _ _ _).le
  · intro recorded
    simp only [runtime, recorded, Bool.false_eq_true, and_false, if_false]
    rfl
  · rw [null_mem_pair, nonempty_iff]
    rfl
  · funext _ memory
    by_cases pageable : 0 < rowSpan spitch width height ∧ 0 < width ∧
        isPageableHostMemory runtime.allocations src
    · simp only [if_pos pageable, runtime] at pageable ⊢
      rw [copyStagedRows]
      simp only [write_guarded _ _ (length_take_le _ _)]
      simp [Transfer.destination, Block.store, rows, row, staged, runtime, source]
    · simp only [if_neg pageable, runtime] at pageable ⊢
      exact copyRows_eq runtime dst dpitch src spitch width height memory

theorem row_eq (side : BlockEnd) (z y : Nat) :
    side.row z y = side.base + ((side.z + BitVec.ofNat 64 z) * side.pitch * side.height +
      (side.y + BitVec.ofNat 64 y) * side.pitch + side.x) := by
  rw [row, BitVec.add_assoc, BitVec.add_assoc, BitVec.add_assoc]

theorem row_sub_base (side : BlockEnd) (z y : Nat) :
    side.row z y - side.base = (side.z + BitVec.ofNat 64 z) * side.pitch * side.height +
      (side.y + BitVec.ofNat 64 y) * side.pitch + side.x := by
  rw [row_eq, BitVec.add_comm, BitVec.add_sub_cancel]

/-- The stream copies the block that the call accepts, or its bytes at the time of the call. -/
theorem cudaMemcpy3DAsync_performs (params : Memcpy3DParms) :
    Leaves device session (copyOfPlanes session.world.runtime params)
      (Copied session.world.runtime.allocations params.srcPtr.ptr
        (blockOf (pitchedEnd session.world.runtime params.srcPtr params.srcPos params.extent)
          params.extent.width params.extent none))
      (cudaMemcpy3DAsync device params session) := by
  let runtime := session.world.runtime
  let source := pitchedEnd runtime params.srcPtr params.srcPos params.extent
  let span := blockSpan params.srcPos source.pitch source.height params.extent
  let staged := params.extent.occupied && 0 < span &&
    isPageableHostMemory runtime.allocations params.srcPtr.ptr
  refine ⟨_, fun z y memory =>
    if staged then
      ((runtime.memory.read source.base span.toNat).drop (source.row z y - source.base).toNat).take
        params.extent.width.toNat
    else memory.read (source.row z y) params.extent.width.toNat, ⟨?_, ?_⟩,
    enqueueTransfer_guarded device session ?_ ?_⟩
  · intro z y memory
    split
    · exact length_take_le _ _
    · exact (length_read _ _ _).le
  · intro recorded
    simp only [staged, runtime, recorded, Bool.and_false, Bool.false_eq_true, if_false]
    rfl
  · rw [null_mem_pair, Bool.not_eq_false']
    exact and_congr or_comm Iff.rfl
  · funext _ memory
    simp only [Transfer.destination, Block.store, row_sub_base]
    simp only [blockOf, row_eq]
    rfl

end Asynchronous

/-- What the call does with memory is its transfer: it stores what the transfer does, or leaves to
the stream to store it where the transfer does. A copy with an array stores at once. -/
def PitchedCall.Performs (env : Environment) (session : Session) (call : PitchedCall) : Prop :=
  let state := session.world.runtime
  let stores := perform fun state => call.transfer env state
  let leaves := Leaves env.device session (call.transfer env state)
  match call with
  | .memcpy2D dst dpitch src spitch width height kind =>
    ComesTo (Sync.cudaMemcpy2D dst dpitch src spitch width height kind state) (.synchronize stores)
  | .memcpy2DAsync dst dpitch src spitch width height =>
    leaves (Copied state.allocations src (rows state src spitch width height))
      (cudaMemcpy2DAsync env.device dst dpitch src spitch width height session)
  | .memset2D devPtr pitch value width height =>
    ComesTo (cudaMemset2D devPtr pitch value width height state) (.access stores)
  | .memset2DAsync devPtr pitch value width height =>
    leaves (· = fun _ _ _ => fillBytes value width)
      (cudaMemset2DAsync env.device devPtr pitch value width height session)
  | .memset3D pitched value extent =>
    ComesTo (cudaMemset3D pitched value extent state) (.access stores)
  | .memset3DAsync pitched value extent =>
    leaves (· = fun _ _ _ => fillBytes value extent.width)
      (cudaMemset3DAsync env.device pitched value extent session)
  | .memcpy3D params => ComesTo (cudaMemcpy3D env params state) (.access stores)
  | .memcpy3DAsync params =>
    if params.srcArray ≠ 0 ∨ params.dstArray ≠ 0 then
      ComesTo (cudaMemcpy3D env params state) (.access stores)
    else
      leaves (Copied state.allocations params.srcPtr.ptr
          (blockOf (pitchedEnd state params.srcPtr params.srcPos params.extent)
            params.extent.width params.extent none))
        (cudaMemcpy3DAsync env.device params.toMemcpy3DParms session)

theorem PitchedCall.performs (env : Environment) (session : Session) (call : PitchedCall) :
    call.Performs env session := by
  cases call with
  | memcpy2D => exact cudaMemcpy2D_performs ..
  | memcpy2DAsync => exact cudaMemcpy2DAsync_performs ..
  | memset2D => exact cudaMemset2D_performs ..
  | memset2DAsync => exact cudaMemset2DAsync_performs ..
  | memset3D => exact cudaMemset3D_performs ..
  | memset3DAsync => exact cudaMemset3DAsync_performs ..
  | memcpy3D => exact cudaMemcpy3D_performs ..
  | memcpy3DAsync params =>
    simp only [Performs, transfer]
    split
    · exact cudaMemcpy3D_performs ..
    · exact cudaMemcpy3DAsync_performs ..

end CuMetal.Runtime.Pitched
