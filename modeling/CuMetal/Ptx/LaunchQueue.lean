import CuMetal.Lib.ByteMemory
import CuMetal.Lib.GuardedRun

/-!
# The device launch queue

`cudaGetParameterBuffer`, `cudaLaunchDevice` and the `cudaMemcpyAsync` of the device as `emit_call`
writes them (`compiler/ptx/src/lower_to_llvm.cpp:5264-5519`), for any number of threads on one queue
that the host has set up (`runtime/rt/cuda_runtime.cpp:6431-6460`). The first word of the queue is a
cursor for parameter buffers and the second one counts the records.
-/

namespace CuMetal.Ptx.LaunchQueue

open ByteMemory (place read write)

/-- `kDeviceLaunchQueueBytes`. -/
def queueBytes : Nat := 1024 * 1024

/-- `kDeviceLaunchRecordAreaBytes`. -/
def recordAreaBytes : Nat := 64 * 1024

/-- `kDeviceLaunchMaxRecords`. -/
def maxRecords : Nat := 1023

/-- A word of the queue. -/
def loadWord (memory : ByteMemory) (address : BitVec 64) : BitVec 32 :=
  BitVec.ofNat 32 (littleEndian (read memory address 4))

/-- The store of a word. -/
def storeWord (memory : ByteMemory) (address : BitVec 64) (word : BitVec 32) : ByteMemory :=
  write memory address (WordMap.toLittleEndian 4 word.toNat)

/-- The address of a word of the queue. -/
def wordAddress (queue : BitVec 64) (index : Nat) : BitVec 64 := place queue (4 * index)

/-- The address of a word of a record: four words precede the records. -/
def recordAddress (queue : BitVec 64) (index position : Nat) : BitVec 64 :=
  wordAddress queue (4 + 16 * index + position)

/-- The address of a byte of the queue, by an index of 32 bits that is signed. -/
def byteAddress (queue : BitVec 64) (offset : BitVec 32) : BitVec 64 :=
  queue + offset.signExtend 64

/-- The low word of a 64-bit value. -/
def low (value : BitVec 64) : BitVec 32 := value.setWidth 32

/-- Its high word. -/
def high (value : BitVec 64) : BitVec 32 := (value >>> 32).setWidth 32

/-- The dimensions of a grid or of a block. -/
structure Dim3 where
  x : BitVec 32
  y : BitVec 32
  z : BitVec 32
  deriving DecidableEq

/-- A parameter buffer, by its offset in the queue, and what was asked for. -/
structure Buffer where
  offset : BitVec 32
  alignment : BitVec 64
  size : BitVec 64
  deriving DecidableEq

/-- A call that takes a record. -/
inductive Call
  | cudaMemcpyAsync (destination source count : BitVec 64) (kind : BitVec 32) (stream : BitVec 64)
  | cudaLaunchDevice (token : BitVec 64) (buffer : Buffer) (grid block : Dim3)
      (sharedBytes : BitVec 32) (stream : BitVec 64)

/-- What a call asks of the host. -/
inductive Operation
  | copy (destination source count : BitVec 64) (kind : BitVec 32)
  | launch (token : BitVec 64) (parameters : List UInt8) (grid block : Dim3)
      (sharedBytes : BitVec 32)
  deriving DecidableEq

/-- The operation of a call, with the parameter bytes as they are when the call is made. -/
def operationOf (queue : BitVec 64) (memory : ByteMemory) : Call → Operation
  | .cudaMemcpyAsync destination source count kind _ => .copy destination source count kind
  | .cudaLaunchDevice token buffer grid block sharedBytes _ =>
    .launch token (read memory (byteAddress queue buffer.offset) buffer.size.toNat) grid block
      sharedBytes

/-- The stores of the record of a call (`5312-5323` and `5482-5512`), each with its position in the
record. -/
def recordOf (queue : BitVec 64) (parameterSize : BitVec 32) : Call → List (Nat × BitVec 32)
  | .cudaMemcpyAsync destination source count kind stream =>
    [(0, low destination), (1, high destination), (2, low source), (3, high source),
      (4, low count), (5, high count), (6, kind), (7, low stream), (8, high stream),
      (9, 0), (10, 0), (11, 0), (12, 0), (13, 0), (14, 0), (15, 1)]
  | .cudaLaunchDevice token buffer grid block sharedBytes stream =>
    [(0, low token), (1, high token),
      (2, (byteAddress queue buffer.offset - queue).setWidth 32), (3, parameterSize),
      (4, grid.x), (7, block.x), (5, grid.y), (8, block.y), (6, grid.z), (9, block.z),
      (10, sharedBytes), (11, low stream), (12, high stream), (13, 0), (14, 0), (15, 0)]

/-- `alignment` (`5368-5371`): 0 counts as 1. -/
def alignmentOf (alignment64 : BitVec 64) : BitVec 32 :=
  if alignment64.setWidth 32 ≠ 0 then alignment64.setWidth 32 else 1

/-- `reserve_aligned` (`5372-5375`). -/
def reserveOf (alignment64 size64 : BitVec 64) : BitVec 32 :=
  size64.setWidth 32 + 8 + (alignmentOf alignment64 - 1)

/-- `aligned` (`5379-5385`). -/
def alignedOf (raw : BitVec 32) (alignment64 : BitVec 64) : BitVec 32 :=
  (raw + 8 + (alignmentOf alignment64 - 1)) &&& (0 - alignmentOf alignment64)

/-- Where a thread is in a call: each step but the first is one access of the queue. -/
inductive Pc
  | idle
  | reserving (alignment size : BitVec 64)
  | heading (buffer : Buffer)
  | counting (call : Call) (operation : Operation)
  | loading (index : Nat) (buffer : Buffer) (call : Call) (operation : Operation)
  | storing (index : Nat) (operation : Operation) (pending : List (Nat × BitVec 32))

/-- The memory and the threads, the parameter buffers that were returned and those of them that no
launch has been given, the operations of the calls that each thread made with success, and whether
a call has reported an overflow. -/
structure State (ι : Type) where
  memory : ByteMemory
  pc : ι → Pc
  buffers : List Buffer
  unlaunched : List Buffer
  accepted : ι → List Operation
  overflowed : Bool

/-- A thread makes a call or goes on with it, or it stores some bytes in a parameter buffer that no
launch has been given. -/
inductive Action (ι : Type)
  | cudaGetParameterBuffer (thread : ι) (alignment size : BitVec 64)
  | fill (thread : ι) (buffer : Buffer) (start : Nat) (bytes : List UInt8)
  | call (thread : ι) (call : Call)
  | advance (thread : ι)

variable {ι : Type} [DecidableEq ι]

def State.at (s : State ι) (thread : ι) (pc : Pc) : State ι :=
  { s with pc := Function.update s.pc thread pc }

/-- The next access of a thread. -/
def State.advance (queue : BitVec 64) (s : State ι) (thread : ι) : Option (State ι) :=
  match s.pc thread with
  | .idle => none
  | .reserving alignment size =>
    let raw := loadWord s.memory (wordAddress queue 0)
    let aligned := alignedOf raw alignment
    -- the cursor advances also when the buffer does not fit
    let s' :=
      { s with
        memory := storeWord s.memory (wordAddress queue 0) (raw + reserveOf alignment size) }
    if aligned + size.setWidth 32 ≤ BitVec.ofNat 32 queueBytes then
      some (s'.at thread (.heading ⟨aligned, alignment, size⟩))
    else some { s'.at thread .idle with overflowed := true }
  | .heading buffer =>
    some
      { s.at thread .idle with
        memory :=
          storeWord s.memory (byteAddress queue (buffer.offset - 8)) (buffer.size.setWidth 32)
        buffers := buffer :: s.buffers
        unlaunched := buffer :: s.unlaunched }
  | .counting call operation =>
    let index := loadWord s.memory (wordAddress queue 1)
    let s' := { s with memory := storeWord s.memory (wordAddress queue 1) (index + 1) }
    if index < BitVec.ofNat 32 maxRecords then
      match call with
      | .cudaMemcpyAsync .. =>
        some (s'.at thread (.storing index.toNat operation (recordOf queue 0 call)))
      | .cudaLaunchDevice _ buffer _ _ _ _ =>
        some (s'.at thread (.loading index.toNat buffer call operation))
    else some { s'.at thread .idle with overflowed := true }
  | .loading index buffer call operation =>
    let parameterSize := loadWord s.memory (byteAddress queue buffer.offset - 8)
    some (s.at thread (.storing index operation (recordOf queue parameterSize call)))
  | .storing _ _ [] => none
  | .storing index operation ((position, word) :: pending) =>
    let s' := { s with memory := storeWord s.memory (recordAddress queue index position) word }
    if pending.isEmpty then
      some
        { s'.at thread .idle with
          accepted := Function.update s.accepted thread (s.accepted thread ++ [operation]) }
    else some (s'.at thread (.storing index operation pending))

def PowerOfTwo (alignment : BitVec 64) : Prop := ∃ k < 64, alignment = BitVec.twoPow 64 k

instance (alignment : BitVec 64) : Decidable (PowerOfTwo alignment) :=
  inferInstanceAs (Decidable (∃ k < 64, alignment = BitVec.twoPow 64 k))

/-- The thread makes a call that takes a record. -/
def State.enter (queue : BitVec 64) (s : State ι) (thread : ι) (call : Call) : State ι :=
  s.at thread (.counting call (operationOf queue s.memory call))

/-- The state after a step, if the step can be taken. -/
def step (queue : BitVec 64) (s : State ι) : Action ι → Option (State ι)
  | .cudaGetParameterBuffer thread alignment size =>
    match s.pc thread with
    | .idle =>
      if PowerOfTwo alignment then some (s.at thread (.reserving alignment size)) else none
    | _ => none
  | .fill thread buffer start bytes =>
    match s.pc thread with
    | .idle =>
      if buffer ∈ s.unlaunched ∧ start + bytes.length ≤ buffer.size.toNat then
        some
          { s.at thread .idle with
            memory := write s.memory (place (byteAddress queue buffer.offset) start) bytes }
      else none
    | _ => none
  | .call thread call =>
    match s.pc thread with
    | .idle =>
      match call with
      | .cudaMemcpyAsync .. => some (s.enter queue thread call)
      | .cudaLaunchDevice _ buffer _ _ _ _ =>
        if buffer ∈ s.unlaunched then
          some { s.enter queue thread call with unlaunched := s.unlaunched.erase buffer }
        else none
    | _ => none
  | .advance thread => s.advance queue thread

/-- The queue as the host sets it up in a memory. -/
def initial (ι : Type) (queue : BitVec 64) (memory : ByteMemory) : State ι where
  memory :=
    let zeroed : ByteMemory := fun address =>
      if (address - queue).toNat < queueBytes then 0 else memory address
    storeWord
      (storeWord zeroed (wordAddress queue 0) (BitVec.ofNat 32 recordAreaBytes))
      (wordAddress queue 1) 0
  pc := fun _ => .idle
  buffers := []
  unlaunched := []
  accepted := fun _ => []
  overflowed := false

end CuMetal.Ptx.LaunchQueue
