import CuMetal.Lib.GuardedRun
import CuMetal.Lib.Totals
import CuMetal.Runtime.Buffers

/-!
# The memory of graphs

Allocation and free nodes, and the accounts of graph memory (`runtime/rt/cuda_runtime.cpp`). A graph
allocation is an object with shared owners: it is released when the last one lets go of it. The
program makes one call after the other; the callbacks of `cudaFreeAsync` come in between, also
between the nodes of a launch.
-/

namespace CuMetal.Runtime.GraphMemory

/-- `GraphFreePlacement` (`215-219`). -/
inductive GraphFreePlacement
  | none | owningGraph | externalGraph
  deriving DecidableEq

/-- `GraphLifetimeState` (`221-225`). -/
structure GraphLifetimeState where
  containsMemoryNodes : Bool
  executableInstances : Nat

/-- `GraphAllocationState` (`227-235`). -/
structure GraphAllocationState where
  buffer : Buffer
  base : BitVec 64
  alias_ : BitVec 64
  size : BitVec 64
  active : Bool
  reservedAccounted : Bool
  freePlacement : GraphFreePlacement

/-- What an active allocation has in the allocation table: a range at its base, and one at its other
address if it has another one. -/
def GraphAllocationState.ranges (allocation : GraphAllocationState) :
    List (BitVec 64 × Entry Buffer) :=
  (allocation.base, ⟨allocation.size, .device, 0, some allocation.buffer, false⟩) ::
    if allocation.alias_ ≠ 0 ∧ allocation.alias_ ≠ allocation.base then
      [(allocation.alias_, ⟨allocation.size, .device, 0, some allocation.buffer, true⟩)]
    else []

/-- A node of a graph, with the number of its graph allocation. -/
inductive Node
  | memAlloc (allocation : Nat)
  | memFree (allocation : Nat) (pointer : BitVec 64)
  | other
  deriving DecidableEq

def Node.allocation? : Node → Option Nat
  | .memAlloc allocation | .memFree allocation _ => some allocation
  | .other => none

/-- `cudaGraph_st` (`320-333`), with the number of its lifetime. -/
structure Graph where
  nodes : List Node
  lifetime : Nat

/-- `cudaGraphExec_st` (`335-343`): the nodes are in the order of the replay. -/
structure GraphExec where
  nodes : List Node
  lifetime : Nat
  autoFreeOnLaunch : Bool

/-- The callback of a `cudaFreeAsync` (`7565-7574`), with the graph allocation that the call found,
before and after it freed it. -/
inductive Callback
  | free (pointer : BitVec 64) (allocation : Option Nat)
  | release (pointer : BitVec 64) (allocation : Option Nat)

def Callback.allocation? : Callback → Option Nat
  | .free _ allocation | .release _ allocation => allocation

/-- How far the program is in a `cudaGraphLaunch`: it goes through the nodes, and then frees the
allocations that are left (`4854-4873`). -/
inductive Phase
  | idle
  | launching (rest : List Node) (autoFree : List Nat)
  | freeing (autoFree : List Nat)
  | deactivating (allocation : Nat) (autoFree : List Nat)

/-- The allocations of the executable graph that a launch has still to do with. -/
def Phase.allocations : Phase → List Nat
  | .idle => []
  | .launching rest autoFree => rest.filterMap Node.allocation? ++ autoFree
  | .freeing autoFree => autoFree
  | .deactivating allocation autoFree => allocation :: autoFree

/-- What `RuntimeState` has on the memory of graphs (`384-394`), with the objects that exist. -/
structure Memory where
  allocations : AllocationTable Buffer
  graphAllocations : AssocMap (BitVec 64) Nat
  liveGraphAllocations : AssocMap (BitVec 64) Nat
  graphUsedCurrent : BitVec 64
  graphUsedHigh : BitVec 64
  graphReservedCurrent : BitVec 64
  graphReservedHigh : BitVec 64
  objects : AssocMap Nat GraphAllocationState
  nextObject : Nat

/-- A counter less an amount, or 0 (`1423-1426`). -/
def takeOff (current size : BitVec 64) : BitVec 64 :=
  if current < size then 0 else current - size

/-! ## Graph allocations -/

namespace Memory

variable (m : Memory)

/-- `activate_graph_allocation` after the ranges are in the table (`1400-1408`). -/
def activated (number : Nat) (allocation : GraphAllocationState) (table : AllocationTable Buffer) :
    Memory :=
  { m with
    allocations := table
    objects := m.objects.change number fun object => { object with active := true }
    liveGraphAllocations := m.liveGraphAllocations.assign allocation.base number
    graphUsedCurrent := m.graphUsedCurrent + allocation.size
    graphUsedHigh := max m.graphUsedHigh (m.graphUsedCurrent + allocation.size) }

/-- `activate_graph_allocation` (`1377-1410`). -/
def activateGraphAllocation (number : Nat) : CudaError × Memory :=
  match m.objects.find? number with
  | none => (.invalidValue, m)
  | some allocation =>
    if allocation.base = 0 ∨ allocation.size = 0 then (.invalidValue, m)
    else if allocation.active then (.invalidValue, m)
    else
      match m.allocations.insert allocation.base allocation.size .device 0
          (some allocation.buffer) false with
      | .error _ => (.memoryAllocation, m)
      | .ok table =>
        if allocation.alias_ ≠ 0 ∧ allocation.alias_ ≠ allocation.base then
          match table.insert allocation.alias_ allocation.size .device 0
              (some allocation.buffer) true with
          | .error _ =>
            (.memoryAllocation,
              { m with allocations := (table.erase allocation.base).getD table })
          | .ok both => (.success, m.activated number allocation both)
        else (.success, m.activated number allocation table)

/-- `deactivate_graph_allocation` after the ranges are out of the table (`1421-1426`). -/
def deactivated (number : Nat) (allocation : GraphAllocationState)
    (table : AllocationTable Buffer) : Memory :=
  { m with
    allocations := table
    objects := m.objects.change number fun object => { object with active := false }
    liveGraphAllocations := m.liveGraphAllocations.remove allocation.base
    graphUsedCurrent := takeOff m.graphUsedCurrent allocation.size }

/-- `deactivate_graph_allocation` (`1412-1428`). -/
def deactivateGraphAllocation (number : Nat) : CudaError × Memory :=
  match m.objects.find? number with
  | none => (.invalidValue, m)
  | some allocation =>
    if !allocation.active then (.invalidValue, m)
    else
      match m.allocations.erase allocation.base with
      | none => (.invalidDevicePointer, m)
      | some table => (.success, m.deactivated number allocation table)

/-- `release_graph_allocation` (`1430-1449`), and the end of the object. -/
def releaseGraphAllocation (number : Nat) : Memory :=
  match m.objects.find? number with
  | none => m
  | some allocation =>
    { m with
      allocations :=
        if allocation.active then (m.allocations.erase allocation.base).getD m.allocations
        else m.allocations
      graphUsedCurrent :=
        if allocation.active then takeOff m.graphUsedCurrent allocation.size
        else m.graphUsedCurrent
      graphReservedCurrent :=
        if allocation.reservedAccounted then takeOff m.graphReservedCurrent allocation.size
        else m.graphReservedCurrent
      graphAllocations := m.graphAllocations.remove allocation.base
      liveGraphAllocations := m.liveGraphAllocations.remove allocation.base
      objects := m.objects.remove number }

/-- `reset_graph_allocation_state` (`1451-1473`). -/
def resetGraphAllocationState : Memory :=
  { m with
    objects := List.map (fun binding =>
      if binding.1 ∈ m.liveGraphAllocations.map Prod.snd ∨
          binding.1 ∈ m.graphAllocations.map Prod.snd then
        (binding.1, { binding.2 with active := false })
      else binding) m.objects
    liveGraphAllocations := []
    graphUsedCurrent := 0 }

/-- The objects that neither the runtime nor one of these references owns are released. -/
def collect (references : List Nat) : Memory :=
  ((m.objects.map Prod.fst).filter fun number =>
      number ∉ references ∧ number ∉ m.liveGraphAllocations.map Prod.snd).foldl
    releaseGraphAllocation m

/-- The object that the weak pointer at the address leads to (`weak_ptr::lock`). -/
def lock (pointer : BitVec 64) : Option Nat :=
  match m.graphAllocations.find? pointer with
  | none => none
  | some number => if (m.objects.find? number).isSome then some number else none

/-- `AllocationTable::erase`, whether or not the address was found. -/
def erase (pointer : BitVec 64) : Memory :=
  { m with allocations := (m.allocations.erase pointer).getD m.allocations }

/-- `cudaFree` (`3373-3410`) after it has synchronized. -/
def cudaFree (pointer : BitVec 64) : Memory :=
  if pointer = 0 then m
  else
    match m.graphAllocations.find? pointer, m.lock pointer with
    | some _, some number => (m.deactivateGraphAllocation number).2
    | some _, none =>
      { m with graphAllocations := m.graphAllocations.remove pointer }.erase pointer
    | none, _ => m.erase pointer

/-- The object of a new allocation node (`5166-5194`): its base may be taken. -/
def reserve (useMetalDeviceAddresses : Bool) (buffer : Buffer) (size : BitVec 64) : Memory :=
  let base := if useMetalDeviceAddresses then buffer.deviceAddress else buffer.contents
  let alias_ := if base = buffer.contents then buffer.deviceAddress else buffer.contents
  let made (accounted : Bool) : Memory :=
    { m with
      objects := m.objects ++ [(m.nextObject, ⟨buffer, base, alias_, size, false, accounted, .none⟩)]
      nextObject := m.nextObject + 1 }
  if m.graphAllocations.contains base then made false
  else
    { made true with
      graphAllocations := m.graphAllocations.emplace base m.nextObject
      graphReservedCurrent := m.graphReservedCurrent + size
      graphReservedHigh := max m.graphReservedHigh (m.graphReservedCurrent + size) }

end Memory

/-- The memory, and the program with its graphs and callbacks. -/
structure State (σ : Type) where
  memory : Memory
  pendingAsyncFrees : List (BitVec 64)
  graphs : AssocMap Nat Graph
  execs : AssocMap Nat GraphExec
  nextHandle : Nat
  lifetimes : Nat → GraphLifetimeState
  callbacks : List (σ × Callback)
  phase : Phase

namespace State

variable {σ : Type} (s : State σ)

/-- The graph allocations that a node of a graph or of an executable graph or a callback owns. A
launch keeps its executable graph. -/
def references : List Nat :=
  s.graphs.flatMap (fun binding => binding.2.nodes.filterMap Node.allocation?) ++
    s.execs.flatMap (fun binding => binding.2.nodes.filterMap Node.allocation?) ++
    s.callbacks.filterMap (fun callback => callback.2.allocation?) ++ s.phase.allocations

/-- The objects that have lost their last owner are released. -/
def collect : State σ := { s with memory := s.memory.collect s.references }

def addNode (graph : Nat) (node : Node) : State σ :=
  { s with
    graphs := s.graphs.change graph fun object => { object with nodes := object.nodes ++ [node] } }

/-- `contains_memory_nodes = true` (`5200-5203`). -/
def markMemoryNodes (lifetime : Nat) : State σ :=
  { s with
    lifetimes := Function.update s.lifetimes lifetime
      { s.lifetimes lifetime with containsMemoryNodes := true } }

/-- `cudaGraphAddMemAllocNode` (`5106-5208`) with the buffer that the backend gives it. When the
base is taken, no node is made and the object is left without an owner. -/
def cudaGraphAddMemAllocNode (useMetalDeviceAddresses : Bool) (graph : Nat) (buffer : Buffer)
    (size : BitVec 64) : State σ :=
  match s.graphs.find? graph with
  | none => s
  | some object =>
    if size = 0 ∨ buffer.contents = 0 ∨ (useMetalDeviceAddresses ∧ buffer.deviceAddress = 0) then s
    else
      let base := if useMetalDeviceAddresses then buffer.deviceAddress else buffer.contents
      let made := { s with memory := s.memory.reserve useMetalDeviceAddresses buffer size }
      if s.memory.graphAllocations.contains base then made
      else
        (made.markMemoryNodes object.lifetime).addNode graph (.memAlloc s.memory.nextObject)

/-- The allocation at the address that a node of the graph makes: the last one (`5220-5227`). -/
def madeIn (nodes : List Node) (pointer : BitVec 64) : Option Nat :=
  (nodes.filterMap fun
    | .memAlloc number =>
      match s.memory.objects.find? number with
      | some allocation => if allocation.base = pointer then some number else none
      | none => none
    | _ => none).getLast?

/-- `cudaGraphAddMemFreeNode` (`5210-5290`). Whether the dependencies are nodes of the graph, and
come after the allocation node, is given. -/
def cudaGraphAddMemFreeNode (graph : Nat) (pointer : BitVec 64) (dependenciesHold : Bool) :
    State σ :=
  match s.graphs.find? graph with
  | none => s
  | some object =>
    if pointer = 0 ∨
        object.nodes.any (fun | .memFree _ freed => freed = pointer | _ => false) then s
    else
      match (s.madeIn object.nodes pointer).or (s.memory.lock pointer) with
      | none => s
      | some number =>
        match s.memory.objects.find? number with
        | none => s
        | some allocation =>
          if !dependenciesHold ∨ allocation.freePlacement ≠ .none then s
          else
            let placement := if (s.madeIn object.nodes pointer).isSome then
              GraphFreePlacement.owningGraph else .externalGraph
            let placed := { s.memory with
              objects := s.memory.objects.change number
                fun object => { object with freePlacement := placement } }
            ({ s with memory := placed }.markMemoryNodes object.lifetime).addNode graph
              (.memFree number pointer)

/-- `cudaGraphInstantiate` and `cudaGraphInstantiateWithFlags` (`4701-4771`), with the nodes in a
topological order. -/
def cudaGraphInstantiate (graph : Nat) (ordered : List Node) (autoFreeOnLaunch : Bool) : State σ :=
  match s.graphs.find? graph with
  | none => s
  | some object =>
    let lifetime := s.lifetimes object.lifetime
    if lifetime.containsMemoryNodes ∧ lifetime.executableInstances ≠ 0 then s
    else
      { s with
        execs := s.execs ++ [(s.nextHandle, ⟨ordered, object.lifetime, autoFreeOnLaunch⟩)]
        nextHandle := s.nextHandle + 1
        lifetimes :=
          if lifetime.containsMemoryNodes then
            Function.update s.lifetimes object.lifetime
              { lifetime with executableInstances := lifetime.executableInstances + 1 }
          else s.lifetimes }

/-- `cudaGraphExecDestroy` (`4946-4959`). -/
def cudaGraphExecDestroy (exec : Nat) : State σ :=
  match s.execs.find? exec with
  | none => s
  | some object =>
    let lifetime := s.lifetimes object.lifetime
    { s with
      execs := s.execs.remove exec
      lifetimes :=
        if lifetime.containsMemoryNodes ∧ lifetime.executableInstances ≠ 0 then
          Function.update s.lifetimes object.lifetime
            { lifetime with executableInstances := lifetime.executableInstances - 1 }
        else s.lifetimes }

/-- The allocations of the allocation nodes, each once. -/
def autoFrees (nodes : List Node) : List Nat :=
  (nodes.filterMap fun | .memAlloc number => some number | _ => none).eraseDups

/-- What a launch goes on with after a call for one of its nodes: an error ends it. -/
def goOn (result : CudaError × Memory) (next : Phase) : State σ :=
  { s with
    memory := result.2
    phase := if result.1 = .success then next else .idle }

/-- The next step of a `cudaGraphLaunch` (`4773-4876`): a node, which may fail if it is of another
kind, or the freeing of an allocation that is still active. -/
def advance (nodeSucceeds : Bool) : Option (State σ) :=
  match s.phase with
  | .idle => none
  | .launching [] autoFree => some { s with phase := .freeing autoFree }
  | .launching (.other :: rest) autoFree =>
    some { s with phase := if nodeSucceeds then .launching rest autoFree else .idle }
  | .launching (.memAlloc number :: rest) autoFree =>
    some (s.goOn (s.memory.activateGraphAllocation number) (.launching rest autoFree))
  | .launching (.memFree number _ :: rest) autoFree =>
    some (s.goOn (s.memory.deactivateGraphAllocation number) (.launching rest autoFree))
  | .freeing [] => some { s with phase := .idle }
  | .freeing (number :: autoFree) =>
    let active := match s.memory.objects.find? number with
      | some allocation => allocation.active
      | none => false
    some { s with
      phase := if active then .deactivating number autoFree else .freeing autoFree }
  | .deactivating number autoFree =>
    some (s.goOn (s.memory.deactivateGraphAllocation number) (.freeing autoFree))

/-- `cudaFreeAsync` (`7537-7581`) on a stream that does not capture, and whether the stream takes
the callback. -/
def cudaFreeAsync (pointer : BitVec 64) (stream : σ) (accepted : Bool) : State σ :=
  if pointer = 0 then s
  else
    match s.memory.allocations.resolve pointer with
    | none => s
    | some resolved =>
      if resolved.offset ≠ 0 ∨ s.pendingAsyncFrees.contains pointer then s
      else if accepted then
        { s with
          pendingAsyncFrees := pointer :: s.pendingAsyncFrees
          callbacks := s.callbacks ++ [(stream, .free pointer (s.memory.lock pointer))] }
      else s

/-- What a callback frees (`7568-7573`). -/
def freed (pointer : BitVec 64) : Option Nat → Memory
  | some number => (s.memory.deactivateGraphAllocation number).2
  | none => s.memory.erase pointer

/-- The next step of the first callback of the stream. -/
def finish [DecidableEq σ] (stream : σ) : Option (State σ) :=
  match s.callbacks.find? (fun callback => callback.1 = stream) with
  | none => none
  | some (_, .free pointer allocation) =>
    some { s with
      memory := s.freed pointer allocation
      callbacks := (stream, .release pointer allocation) ::
        s.callbacks.eraseP (fun callback => callback.1 = stream) }
  | some (_, .release pointer _) =>
    some { s with
      pendingAsyncFrees := s.pendingAsyncFrees.filter (· ≠ pointer)
      callbacks := s.callbacks.eraseP (fun callback => callback.1 = stream) }

/-- `cudaDeviceReset` (`4150-4206`) after it has synchronized. -/
def cudaDeviceReset : State σ :=
  { s with
    memory := { s.memory.resetGraphAllocationState.collect s.references with
      allocations := .initial } }

end State

/-- What the backend promises of a buffer that it hands out: it is a new object, and its bytes lie
within the address space, apart from those of the buffers in use, on the host and, if it has one,
at its device address. -/
structure Allocates (m : Memory) (buffer : Buffer) (size : BitVec 64) : Prop where
  fresh : ∀ object ∈ m.objects, object.2.buffer ≠ buffer
  contents : buffer.contents.toNat + size.toNat < 2 ^ 64
  deviceAddress : buffer.deviceAddress.toNat + size.toNat < 2 ^ 64
  hostApart : ∀ object ∈ m.objects, Intervals.Apart
    (object.2.buffer.contents.toNat, object.2.size.toNat) (buffer.contents.toNat, size.toNat)
  deviceApart : buffer.deviceAddress ≠ 0 → ∀ object ∈ m.objects, Intervals.Apart
    (object.2.buffer.deviceAddress.toNat, object.2.size.toNat)
    (buffer.deviceAddress.toNat, size.toNat)

/-- What comes next: a call of the program, a step of its launch, or a callback. -/
inductive Action (σ : Type)
  | createGraph
  | addMemAllocNode (graph : Nat) (buffer : Buffer) (size : BitVec 64)
  | addMemFreeNode (graph : Nat) (pointer : BitVec 64) (dependenciesHold : Bool)
  | addOtherNode (graph : Nat)
  | destroyGraph (graph : Nat)
  | instantiate (graph : Nat) (ordered : List Node) (autoFreeOnLaunch : Bool)
  | destroyExec (exec : Nat)
  | launch (exec : Nat)
  | advance (nodeSucceeds : Bool)
  | free (pointer : BitVec 64)
  | freeAsync (pointer : BitVec 64) (stream : σ) (accepted : Bool)
  | finish (stream : σ)
  | deviceReset
  | resetUsedHigh
  | resetReservedHigh

/-- What a call of the program does. `cudaFree` and `cudaDeviceReset` wait until the streams are
empty. -/
inductive Calls {σ : Type} (useMetalDeviceAddresses : Bool) (s : State σ) :
    Action σ → State σ → Prop
  | createGraph : Calls useMetalDeviceAddresses s .createGraph
      { s with
        graphs := s.graphs ++ [(s.nextHandle, ⟨[], s.nextHandle⟩)]
        nextHandle := s.nextHandle + 1
        lifetimes := Function.update s.lifetimes s.nextHandle ⟨false, 0⟩ }
  | addMemAllocNode (graph : Nat) (buffer : Buffer) (size : BitVec 64) :
      Allocates s.memory buffer size →
      Calls useMetalDeviceAddresses s (.addMemAllocNode graph buffer size)
        (s.cudaGraphAddMemAllocNode useMetalDeviceAddresses graph buffer size)
  | addMemFreeNode (graph : Nat) (pointer : BitVec 64) (dependenciesHold : Bool) :
      Calls useMetalDeviceAddresses s (.addMemFreeNode graph pointer dependenciesHold)
        (s.cudaGraphAddMemFreeNode graph pointer dependenciesHold)
  | addOtherNode (graph : Nat) :
      Calls useMetalDeviceAddresses s (.addOtherNode graph) (s.addNode graph .other)
  | destroyGraph (graph : Nat) :
      Calls useMetalDeviceAddresses s (.destroyGraph graph)
        { s with graphs := s.graphs.remove graph }
  | instantiate (graph : Nat) (object : Graph) (ordered : List Node) (autoFreeOnLaunch : Bool) :
      s.graphs.find? graph = some object → ordered.Perm object.nodes →
      Calls useMetalDeviceAddresses s (.instantiate graph ordered autoFreeOnLaunch)
        (s.cudaGraphInstantiate graph ordered autoFreeOnLaunch)
  | destroyExec (exec : Nat) :
      Calls useMetalDeviceAddresses s (.destroyExec exec) (s.cudaGraphExecDestroy exec)
  | launch (exec : Nat) (object : GraphExec) :
      s.execs.find? exec = some object →
      Calls useMetalDeviceAddresses s (.launch exec)
        { s with
          phase := .launching object.nodes
            (if object.autoFreeOnLaunch then State.autoFrees object.nodes else []) }
  | free (pointer : BitVec 64) :
      s.callbacks = [] →
      Calls useMetalDeviceAddresses s (.free pointer) { s with memory := s.memory.cudaFree pointer }
  | freeAsync (pointer : BitVec 64) (stream : σ) (accepted : Bool) :
      Calls useMetalDeviceAddresses s (.freeAsync pointer stream accepted)
        (s.cudaFreeAsync pointer stream accepted)
  | deviceReset :
      s.callbacks = [] → Calls useMetalDeviceAddresses s .deviceReset s.cudaDeviceReset
  | resetUsedHigh : Calls useMetalDeviceAddresses s .resetUsedHigh
      { s with memory := { s.memory with graphUsedHigh := s.memory.graphUsedCurrent } }
  | resetReservedHigh : Calls useMetalDeviceAddresses s .resetReservedHigh
      { s with memory := { s.memory with graphReservedHigh := s.memory.graphReservedCurrent } }

/-- One step: a call when the program is in no launch, a step of its launch, or a callback; then the
objects without an owner go. -/
inductive Step {σ : Type} [DecidableEq σ] (useMetalDeviceAddresses : Bool) :
    State σ → Action σ → State σ → Prop
  | call {s next : State σ} {a : Action σ} :
      s.phase = .idle → Calls useMetalDeviceAddresses s a next →
      Step useMetalDeviceAddresses s a next.collect
  | advance {s next : State σ} (nodeSucceeds : Bool) :
      s.advance nodeSucceeds = some next →
      Step useMetalDeviceAddresses s (.advance nodeSucceeds) next.collect
  | finish {s next : State σ} {stream : σ} :
      s.finish stream = some next →
      Step useMetalDeviceAddresses s (.finish stream) next.collect

/-- No graphs and no allocations. -/
def initial {σ : Type} : State σ where
  memory :=
    { allocations := .initial
      graphAllocations := []
      liveGraphAllocations := []
      graphUsedCurrent := 0
      graphUsedHigh := 0
      graphReservedCurrent := 0
      graphReservedHigh := 0
      objects := []
      nextObject := 0 }
  pendingAsyncFrees := []
  graphs := []
  execs := []
  nextHandle := 0
  lifetimes := fun _ => ⟨false, 0⟩
  callbacks := []
  phase := .idle

end CuMetal.Runtime.GraphMemory
