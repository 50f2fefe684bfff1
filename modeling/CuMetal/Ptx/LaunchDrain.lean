import CuMetal.Ptx.LaunchQueue
import CuMetal.Runtime.Buffers

/-!
# Draining the device launch queue

What `cudaLaunchKernel` does with the queue after the kernel has ended
(`runtime/rt/cuda_runtime.cpp:6740-6902`), and what it is for: the operations of the calls, one
after the other, until one of them fails.
-/

namespace CuMetal.Ptx.LaunchQueue

open ByteMemory (place read)
open CuMetal.Runtime (CudaError)

/-- What the drain calls, on the stream of the kernel. A kernel comes with the sizes of its
arguments. -/
structure Host (World Kernel : Type) where
  cudaMemcpyAsync (destination source count : BitVec 64) (kind : BitVec 32) :
    World → Except CudaError World
  lookupDeviceKernelAlias (token : BitVec 64) : World → Option (Kernel × List (BitVec 32) × World)
  cudaLaunchKernel (kernel : Kernel) (grid block : Dim3) (arguments : List (List UInt8))
    (sharedBytes : BitVec 32) : World → Except CudaError World

variable {World Kernel : Type} (host : Host World Kernel)

/-- Two words as one value, the low one first. -/
def wide (low high : BitVec 32) : BitVec 64 := low.setWidth 64 ||| high.setWidth 64 <<< 32

/-- A dimension is zero. -/
def Dim3.HasZero (dimensions : Dim3) : Prop :=
  dimensions.x = 0 ∨ dimensions.y = 0 ∨ dimensions.z = 0

instance (dimensions : Dim3) : Decidable dimensions.HasZero :=
  inferInstanceAs (Decidable (dimensions.x = 0 ∨ dimensions.y = 0 ∨ dimensions.z = 0))

/-- The copy of a record (`6767-6810`), whose kind is at most `cudaMemcpyDefault`. -/
def copyMemory (destination source count : BitVec 64) (kind : BitVec 32) (world : World) :
    Except CudaError World :=
  if destination = 0 ∨ source = 0 ∨ 4 < kind then .error .invalidValue
  else host.cudaMemcpyAsync destination source count kind world

/-- Where each argument starts in the parameter bytes, with its size (`6841-6854`). -/
def packArguments (parameterSize : Nat) :
    Nat → List (BitVec 32) → Except CudaError (List (Nat × Nat))
  | _, [] => .ok []
  | cursor, size :: rest =>
    let alignment := max 1 (min 8 size.toNat)
    let start :=
      (BitVec.ofNat 64 (cursor + alignment - 1) &&& ~~~(BitVec.ofNat 64 (alignment - 1))).toNat
    if parameterSize < start ∨ parameterSize - start < size.toNat then .error .invalidValue
    else do
      let places ← packArguments parameterSize (start + size.toNat) rest
      return (start, size.toNat) :: places

/-- The launch of a record (`6831-6898`), whose argument bytes are read as given. -/
def launchChild (token : BitVec 64) (grid block : Dim3) (sharedBytes : BitVec 32)
    (parameterSize : Nat) (argument : Nat → Nat → List UInt8) (world : World) :
    Except CudaError World :=
  match host.lookupDeviceKernelAlias token world with
  | none => .error .invalidDeviceFunction
  | some (kernel, sizes, world) => do
    let places ← packArguments parameterSize 0 sizes
    host.cudaLaunchKernel kernel grid block (places.map fun part => argument part.1 part.2)
      sharedBytes world

section Drain

variable (queue : BitVec 64) (memory : ByteMemory)

/-- The host takes up a record. -/
def drainRecord (index : Nat) (world : World) : Except CudaError World :=
  let record position := loadWord memory (recordAddress queue index position)
  if record 15 = 1 then
    copyMemory host (wide (record 0) (record 1)) (wide (record 2) (record 3))
      (wide (record 4) (record 5)) (record 6) world
  else if record 15 ≠ 0 then .error .invalidValue
  else
    let parameterOffset := (record 2).toNat
    let parameterSize := (record 3).toNat
    let grid : Dim3 := ⟨record 4, record 5, record 6⟩
    let block : Dim3 := ⟨record 7, record 8, record 9⟩
    if parameterOffset < recordAreaBytes ∨ queueBytes < parameterOffset ∨
        queueBytes - parameterOffset < parameterSize ∨ grid.HasZero ∨ block.HasZero then
      .error .invalidConfiguration
    else
      launchChild host (wide (record 0) (record 1)) grid block (record 10) parameterSize
        (fun start length => read memory (place queue (parameterOffset + start)) length) world

/-- `drain_device_launch_queue`: the host takes up the records in their order. -/
def drain (world : World) : Except CudaError World :=
  let recorded := (loadWord memory (wordAddress queue 1)).toNat
  if maxRecords < recorded then .error .launchOutOfResources
  else
    (List.range recorded).foldlM
      (fun world index => drainRecord host queue memory index world) world

end Drain

/-- The host performs an operation. -/
def Operation.perform : Operation → World → Except CudaError World
  | .copy destination source count kind, world =>
    copyMemory host destination source count kind world
  | .launch token parameters grid block sharedBytes, world =>
    if grid.HasZero ∨ block.HasZero then .error .invalidConfiguration
    else
      launchChild host token grid block sharedBytes parameters.length
        (fun start length => bytesAt parameters start length) world

/-- The operations of calls, one after another. -/
def replay (operations : List Operation) (world : World) : Except CudaError World :=
  operations.foldlM (fun world operation => operation.perform host world) world

variable {ι : Type} [DecidableEq ι]

/-- Two buffers, each with its header, have no byte in common. -/
def Buffer.Apart (a b : Buffer) : Prop :=
  a.offset.toNat + a.size.toNat + 8 ≤ b.offset.toNat ∨
    b.offset.toNat + b.size.toNat + 8 ≤ a.offset.toNat

/-- A buffer lies where its alignment asks for, inside the queue and, with its header, past the
records. -/
structure Buffer.Placed (buffer : Buffer) : Prop where
  aligned : buffer.alignment.toNat ∣ buffer.offset.toNat
  past : recordAreaBytes + 8 ≤ buffer.offset.toNat
  inside : buffer.offset.toNat + buffer.size.toNat ≤ queueBytes

/-- No thread is in a call. -/
def State.Quiet (s : State ι) : Prop := ∀ thread, s.pc thread = .idle

/-- The buffers are placed and apart; and when no thread is in a call, the drain performs the
operations of the accepted calls, those of each thread in order, or it fails when a call has
reported an overflow. -/
structure Holds (queue : BitVec 64) (s : State ι) : Prop where
  apart : s.buffers.Pairwise Buffer.Apart
  placed : ∀ buffer ∈ s.buffers, buffer.Placed
  replays : s.Quiet → s.overflowed = false →
    ∃ log : List (ι × Operation),
      (∀ thread, (log.filter fun entry => entry.1 = thread).map Prod.snd = s.accepted thread) ∧
      ∀ {World Kernel : Type} (host : Host World Kernel) (world : World),
        drain host queue s.memory world = replay host (log.map Prod.snd) world
  reports : s.Quiet → s.overflowed = true →
    ∀ {World Kernel : Type} (host : Host World Kernel) (world : World),
      ∃ error, drain host queue s.memory world = .error error

/-- The aligned buffer ends in the queue, as the device computes it. -/
def Fits (raw : BitVec 32) (alignment size : BitVec 64) : Prop :=
  alignedOf raw alignment + size.setWidth 32 ≤ BitVec.ofNat 32 queueBytes

/-- A reservation that keeps the promise: its words do not wrap; its header is at a word, or else,
when the buffer does not fit, the records have overflowed already. -/
def SteadyReservation (raw count : BitVec 32) (alignment size : BitVec 64) : Prop :=
  alignment.toNat < 2 ^ 32 ∧ size.toNat < 2 ^ 32 ∧
    raw.toNat + (size.toNat + 8 + (alignment.toNat - 1)) < 2 ^ 32 ∧
    (Fits raw alignment size → 4 ∣ (alignedOf raw alignment).toNat) ∧
    (¬ Fits raw alignment size → maxRecords < count.toNat)

/-- An access that keeps the promise. The count of the records does not wrap either. -/
def Pc.Steady (queue : BitVec 64) (memory : ByteMemory) : Pc → Prop
  | .reserving alignment size =>
    SteadyReservation (loadWord memory (wordAddress queue 0))
      (loadWord memory (wordAddress queue 1)) alignment size
  | .counting .. => (loadWord memory (wordAddress queue 1)).toNat + 1 < 2 ^ 32
  | _ => True

/-- A step that keeps the promise: only the accesses of a thread can break it. -/
def Steady (queue : BitVec 64) (s : State ι) : Action ι → Prop
  | .advance thread => (s.pc thread).Steady queue s.memory
  | _ => True

instance (raw : BitVec 32) (alignment size : BitVec 64) : Decidable (Fits raw alignment size) :=
  inferInstanceAs (Decidable (_ ≤ _))

instance (raw count : BitVec 32) (alignment size : BitVec 64) :
    Decidable (SteadyReservation raw count alignment size) :=
  inferInstanceAs (Decidable (_ ∧ _ ∧ _ ∧ (_ → _) ∧ (_ → _)))

instance (queue : BitVec 64) (memory : ByteMemory) (pc : Pc) :
    Decidable (pc.Steady queue memory) :=
  match pc with
  | .reserving alignment size =>
    inferInstanceAs (Decidable (SteadyReservation (loadWord memory (wordAddress queue 0))
      (loadWord memory (wordAddress queue 1)) alignment size))
  | .counting .. =>
    inferInstanceAs (Decidable ((loadWord memory (wordAddress queue 1)).toNat + 1 < 2 ^ 32))
  | .idle | .heading _ | .loading .. | .storing .. => inferInstanceAs (Decidable True)

instance (queue : BitVec 64) (s : State ι) (a : Action ι) : Decidable (Steady queue s a) :=
  match a with
  | .advance thread => inferInstanceAs (Decidable ((s.pc thread).Steady queue s.memory))
  | .cudaGetParameterBuffer .. | .fill .. | .call .. => inferInstanceAs (Decidable True)

end CuMetal.Ptx.LaunchQueue
