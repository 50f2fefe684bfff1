import CuMetal.Lib.AssocMap

/-!
# The arguments of a launch

What `cudaLaunchKernel` puts into the argument list of a registered kernel
(`runtime/rt/cuda_runtime.cpp`), and where `launch_kernel` binds it
(`runtime/metal_backend/metal_backend.mm`). Inline descriptors, the two runtime helpers that replace
a kernel, residency, and the hidden block offset of the other lowering are left out.
-/

namespace CuMetal.Runtime.Launch

/-- What is bound at a Metal buffer index: buffers of the caller and of the runtime, and bytes. -/
inductive Resource
  | null
  | allocation (identity offset : Nat)
  | globalSymbol (identity : Nat)
  | constantBuffer
  | deviceHeap
  | printfBuffer
  | deviceLaunchQueue
  | atomicLockBank
  | deviceClock
  | gridBarrier
  | bytes (content : List (BitVec 8))
  deriving DecidableEq

/-- `KernelArg` (`metal_backend.h:43-56`); no binding index is `SIZE_MAX`. -/
structure KernelArg where
  resource : Resource
  bindingIndex : Option Nat
  deriving DecidableEq

/-- `cumetalArgKind_t`. -/
inductive ArgKind
  | buffer
  | bytes
  deriving DecidableEq

/-- `cumetalKernelArgInfo_t`. -/
structure ArgInfo where
  kind : ArgKind
  sizeBytes : Nat
  deriving DecidableEq

/-- `RegisteredConstantSymbol` (`registration.h:14-19`); whether its address is known. -/
structure ConstantSymbol where
  name : String
  addressed : Bool
  offset : Nat
  size : Nat
  deriving DecidableEq

/-- `RegisteredGlobalSymbol` (`registration.h:21-25`). -/
structure GlobalSymbol where
  name : String
  buffer : Option Nat
  size : Nat
  deriving DecidableEq

/-- `RegisteredKernel` (`registration.h:27-50`), as far as the argument list depends on it. -/
structure RegisteredKernel where
  argInfo : List ArgInfo
  argInfoResolved : Bool
  printfFormats : List String
  usesDeviceHeap : Bool
  usesDeviceLaunchQueue : Bool
  constantSymbols : List ConstantSymbol
  constantBufferSize : Nat
  globalSymbols : List GlobalSymbol
  deriving DecidableEq

/-- A slot of the caller's `args` array that is not null: the word there, and the bytes from there
on. -/
structure Slot where
  word : BitVec 64
  bytesAt : Nat → List (BitVec 8)

/-- What the launch asks of the rest of the runtime. -/
structure Host where
  /-- `AllocationTable::resolve`: the buffer and the offset in it. -/
  resolve : BitVec 64 → Option (Nat × Nat)
  /-- `relocate_embedded_device_pointers`. -/
  relocate : List (BitVec 8) → List (BitVec 8)
  /-- Whether the buffer of that kind can be had. -/
  provides : Resource → Bool
  /-- The four bytes of `kPrintfCapWords`. -/
  printfCapacity : List (BitVec 8)
  /-- The four bytes of `kDeviceLaunchQueueBytes`. -/
  launchQueueBytes : List (BitVec 8)

def wordBytes (word : BitVec 64) : List (BitVec 8) :=
  (List.range 8).map fun i => word.extractLsb' (8 * i) 8

/-- The slot at an index; past the end of the array there is the sentinel. -/
def slotAt (args : List (Option Slot)) (i : Nat) : Option Slot := (args[i]?).join

/-- How many of the first `limit` slots come before a null one. -/
def leadingSlots (args : List (Option Slot)) (limit : Nat) : Nat :=
  ((List.range limit).takeWhile fun i => (slotAt args i).isSome).length

/-- `arg_count` (`5863-5927`); a null `args` has no slots. -/
def argCount (kernel : RegisteredKernel) (args : Option (List (Option Slot))) : Option Nat :=
  match args with
  | none => if kernel.argInfo.isEmpty then some 0 else none
  | some slots =>
    if !kernel.argInfo.isEmpty then some (leadingSlots slots kernel.argInfo.length)
    else if kernel.argInfoResolved then some 0
    else if leadingSlots slots 31 = 31 then none
    else some (leadingSlots slots 31)

/-- The description of an argument (`6209-6223`). -/
def infoFor (host : Host) (kernel : RegisteredKernel) (i : Nat) (slot : Slot) : ArgInfo :=
  match kernel.argInfo[i]? with
  | some info => info
  | none =>
    if (host.resolve slot.word).isSome then ⟨.buffer, 8⟩
    else ⟨.bytes, if slot.word.toNat ≤ 0xFFFFFFFF then 4 else 8⟩

/-- One argument of the caller (`6204-6301`). -/
def userArgument (host : Host) (kernel : RegisteredKernel) (args : List (Option Slot)) (i : Nat) :
    Option KernelArg :=
  match slotAt args i with
  | none => none
  | some slot =>
    let info := infoFor host kernel i slot
    if info.kind = .buffer then
      if slot.word = 0 then some ⟨.null, none⟩
      else
        match host.resolve slot.word with
        | some (buffer, offset) => some ⟨.allocation buffer offset, none⟩
        | none =>
          -- a small integer that was taken for a pointer
          if slot.word.toNat ≤ 0xFFFFFFFF then some ⟨.bytes (wordBytes slot.word), none⟩
          else none
    else if info.sizeBytes = 0 ∨ 32764 < info.sizeBytes then none
    else some ⟨.bytes (host.relocate (slot.bytesAt info.sizeBytes)), none⟩

/-- A `__device__` variable (`6307-6318`). -/
def globalArgument (symbol : GlobalSymbol) : Option KernelArg :=
  match symbol.buffer with
  | none => none
  | some buffer => if symbol.size = 0 then none else some ⟨.globalSymbol buffer, none⟩

/-- The constant buffer (`6325-6363`). -/
def constantArguments (host : Host) (kernel : RegisteredKernel) : Option (List KernelArg) :=
  if kernel.constantSymbols.isEmpty then some []
  else if kernel.constantBufferSize = 0 ∨ 65536 < kernel.constantBufferSize then none
  else if !host.provides .constantBuffer then none
  else if kernel.constantSymbols.any (fun symbol => !symbol.addressed || symbol.size == 0 ||
      decide (kernel.constantBufferSize < symbol.offset) ||
      decide (kernel.constantBufferSize - symbol.offset < symbol.size)) then none
  else some [⟨.constantBuffer, some 30⟩]

/-- An argument that the runtime may have to allocate. -/
def providedArgument (host : Host) (needed : Bool) (resource : Resource)
    (rest : List KernelArg) : Option (List KernelArg) :=
  if !needed then some []
  else if host.provides resource then some (⟨resource, none⟩ :: rest)
  else none

/-- The argument list of a launch (`6196-6462`). -/
def launchArguments (host : Host) (kernel : RegisteredKernel)
    (args : Option (List (Option Slot))) : Option (List KernelArg) := do
  let count ← argCount kernel args
  let users ← (List.range count).mapM (userArgument host kernel (args.getD []))
  let globals ← kernel.globalSymbols.mapM globalArgument
  let constants ← constantArguments host kernel
  let heap ← providedArgument host kernel.usesDeviceHeap .deviceHeap []
  let printing ← providedArgument host (!kernel.printfFormats.isEmpty) .printfBuffer
    [⟨.bytes host.printfCapacity, none⟩]
  let queue ← providedArgument host kernel.usesDeviceLaunchQueue .deviceLaunchQueue
    [⟨.bytes host.launchQueueBytes, none⟩]
  return users ++ globals ++ constants ++ heap ++ printing ++ queue

/-- What a pipeline takes besides its arguments (`metal_backend.mm:2823-2825`). -/
structure PipelineNeeds where
  lockBank : Bool
  deviceClock : Bool
  gridBarrier : Bool

/-- The buffers that are bound after the arguments (`3044-3079`). -/
def reservedBindings (needs : PipelineNeeds) : List (Nat × Resource) :=
  (if needs.lockBank then [(29, .atomicLockBank)] else []) ++
    (if needs.deviceClock then [(28, .deviceClock)] else []) ++
    (if needs.gridBarrier then [(27, .gridBarrier)] else [])

/-- Whether an argument can be bound (`2888-2898`). -/
def KernelArg.valid : KernelArg → Bool
  | ⟨.bytes content, _⟩ => !content.isEmpty && decide (content.length ≤ 32764)
  | _ => true

/-- Where one argument is bound (`3003-3041`). -/
def bindArgument (indexed : KernelArg × Nat) : Option (Nat × Resource) :=
  if !indexed.1.valid then none
  else if 30 < indexed.1.bindingIndex.getD indexed.2 then none
  else some (indexed.1.bindingIndex.getD indexed.2, indexed.1.resource)

/-- The argument table of the encoder (`2771-2776`, `3003-3079`); what is bound later counts. -/
def bindArguments (needs : PipelineNeeds) (arguments : List KernelArg) :
    Option (AssocMap Nat Resource) :=
  if 31 < arguments.length then none
  else (arguments.zipIdx.mapM bindArgument).map fun bound =>
    AssocMap.assignAll [] (bound ++ reservedBindings needs)

/-- A launch: its argument table, if it gets as far. -/
def launch (host : Host) (kernel : RegisteredKernel) (needs : PipelineNeeds)
    (args : Option (List (Option Slot))) : Option (AssocMap Nat Resource) := do
  let arguments ← launchArguments host kernel args
  bindArguments needs arguments

end CuMetal.Runtime.Launch
