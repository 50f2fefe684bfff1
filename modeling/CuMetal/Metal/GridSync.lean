import CuMetal.Lib.CountingBarrier
import CuMetal.Metal.MslSemantics

/-!
# Grid synchronisation

`make_grid_sync_helper` (`lower_to_msl.cpp:159-273`): the helper in which the leaders of all
threadgroups wait for each other, with a count of arrivals and a generation in device memory.
-/

namespace CuMetal.Metal

namespace GridSync

/-- `atomic_uint`. -/
def atomicUint : MslType := .struct "atomic_uint"
/-- The type of `barrier`. -/
def atomicPointer : MslType := .pointer atomicUint .device
/-- `memory_order`. -/
def memoryOrder : MslType := .struct "memory_order"
/-- `thread_scope`. -/
def threadScope : MslType := .struct "thread_scope"
/-- The parameter `barrier`. -/
def barrier : MslExpression := .identifier "barrier" atomicPointer
/-- The parameter `thread_position`. -/
def threadPosition : MslExpression := .identifier "thread_position" uint3
/-- The parameter `threadgroups`. -/
def threadgroups : MslExpression := .identifier "threadgroups" uint3
/-- `0u`. -/
def zero : MslExpression := .literal "0u" (.uint 32)
/-- `1u`. -/
def one : MslExpression := .literal "1u" (.uint 32)
/-- `memory_order_relaxed`. -/
def relaxed : MslExpression := .identifier "memory_order_relaxed" memoryOrder

/-- A component of a vector. -/
def component (value : MslExpression) (name : String) : MslExpression :=
  .member value name (.uint 32)

/-- `threadgroup_barrier`. -/
def barrierCall : MslStatement :=
  .expression (.call "threadgroup_barrier" [.literal "mem_flags::mem_device" (.uint 32)] .void)

/-- `atomic_thread_fence`. -/
def deviceFence : MslStatement :=
  .expression (.call "atomic_thread_fence"
    [.literal "mem_flags::mem_device" (.uint 32),
      .identifier "memory_order_seq_cst" memoryOrder,
      .identifier "thread_scope_device" threadScope] .void)

/-- The count of arrivals. -/
def countValue : MslExpression := .subscript barrier zero atomicUint
/-- The generation. -/
def generationValue : MslExpression := .subscript barrier one atomicUint
/-- The address of the count. -/
def count : MslExpression := .unary "&" countValue atomicPointer
/-- The address of the generation. -/
def generation : MslExpression := .unary "&" generationValue atomicPointer

/-- The bits of the thread's position. -/
def threadOr : MslExpression :=
  .binary "|"
    (.binary "|" (component threadPosition "x") (component threadPosition "y") (.uint 32))
    (component threadPosition "z") (.uint 32)

/-- The thread is at the origin. -/
def isLeader : MslExpression := .binary "==" threadOr zero .boolean
/-- The generation that a leader saw. -/
def observed : MslExpression := .identifier "observed_generation" (.uint 32)
/-- The arrivals with its own. -/
def arrived : MslExpression := .identifier "arrived" (.uint 32)

/-- The number of threadgroups, a product of 32 bits. -/
def groupCount : MslExpression :=
  .binary "*" (.binary "*" (component threadgroups "x") (component threadgroups "y") (.uint 32))
    (component threadgroups "z") (.uint 32)

/-- A load of the generation. -/
def loadGeneration : MslExpression :=
  .call "atomic_load_explicit" [generation, relaxed] (.uint 32)

/-- `last_group` (`lower_to_msl.cpp:213-222`). -/
def lastGroup : List MslStatement :=
  [deviceFence,
    .expression (.call "atomic_store_explicit" [count, zero, relaxed] .void),
    .expression (.call "atomic_fetch_add_explicit" [generation, one, relaxed] (.uint 32))]

/-- The generation is the one seen. -/
def waitCondition : MslExpression := .binary "==" loadGeneration observed .boolean

/-- The other groups (`lower_to_msl.cpp:255`). -/
def otherGroup : List MslStatement := [.whileStatement waitCondition [], deviceFence]

/-- `leader` (`lower_to_msl.cpp:230-255`). -/
def leader : List MslStatement :=
  [deviceFence,
    .variable (.uint 32) "observed_generation" (some loadGeneration) true,
    .variable (.uint 32) "arrived"
      (some (.binary "+"
        (.call "atomic_fetch_add_explicit" [count, one, relaxed] (.uint 32)) one (.uint 32)))
      true,
    .ifStatement (.binary "==" arrived groupCount .boolean) lastGroup otherGroup]

end GridSync

open GridSync in
/-- `make_grid_sync_helper` (`lower_to_msl.cpp:159-273`). -/
def makeGridSyncHelper : MslFunction where
  name := "cm_grid_sync"
  parameters :=
    [⟨atomicPointer, "barrier"⟩, ⟨uint3, "thread_position"⟩, ⟨uint3, "threadgroups"⟩]
  statements := [barrierCall, .ifStatement isLeader leader [], barrierCall]

/-- A grid: the place of the barrier's two counters, and the number of threadgroups along each
axis. -/
structure Grid where
  barrier : Location
  x : BitVec 32
  y : BitVec 32
  z : BitVec 32

namespace Grid

variable (grid : Grid)

/-- The number of threadgroups, one leader for each. -/
def leaders : Nat := grid.x.toNat * grid.y.toNat * grid.z.toNat

/-- The generation lies behind the count. -/
def generationLocation : Location := { grid.barrier with address := grid.barrier.address + 4 }

/-- A leader, the thread at the origin of its threadgroup, that calls the helper. -/
def start : Thread :=
  makeGridSyncHelper.start
    [.pointer grid.barrier, .vector [.uint 0, .uint 0, .uint 0],
      .vector [.uint grid.x, .uint grid.y, .uint grid.z]]

end Grid

/-- Shared memory and the leaders, with the number of calls that each has entered and returned from
and of the increments of the count that it has made. -/
structure GridState (ι : Type) where
  memory : Memory
  thread : ι → Thread
  entered : ι → Nat
  arrivals : ι → Nat
  returned : ι → Nat

/-- An increment of the count. -/
def Grid.isArrival (grid : Grid) : Access → Bool
  | .atomicFetchAdd location _ _ => location = grid.barrier
  | _ => false

/-- Whether a step that leads to this thread returned from the call. -/
def Thread.returns : Thread → Nat
  | .finished _ => 1
  | .running .. => 0

variable {ι : Type} [DecidableEq ι]

/-- A step of one leader: it calls the helper, or takes the next step of its call. -/
inductive GridStep (grid : Grid) (i : ι) : GridState ι → GridState ι → Prop
  | enter {s : GridState ι} {result : Option Value} : s.thread i = .finished result →
      GridStep grid i s
        { s with
          thread := Function.update s.thread i grid.start
          entered := Function.update s.entered i (s.entered i + 1) }
  | run {s : GridState ι} {locals : Locals} {code : List MslStatement} {thread : Thread}
      {machine : Machine} : s.thread i = .running locals code →
      (stepThread locals code).run ⟨s.memory, []⟩ = some (thread, machine) →
      GridStep grid i s
        { s with
          memory := machine.memory
          thread := Function.update s.thread i thread
          arrivals := Function.update s.arrivals i
            (s.arrivals i + machine.accesses.countP grid.isArrival)
          returned := Function.update s.returned i (s.returned i + thread.returns) }

/-- Before any call: the count is zero, and the generation may be any. -/
structure GridState.Initial (grid : Grid) (s : GridState ι) : Prop where
  count : s.memory.atomics grid.barrier = 0
  thread : ∀ i, s.thread i = .finished none
  entered : ∀ i, s.entered i = 0
  arrivals : ∀ i, s.arrivals i = 0
  returned : ∀ i, s.returned i = 0

/-- Steps of any leaders, in any order. -/
def Grid.Reaches (grid : Grid) : GridState ι → GridState ι → Prop :=
  Relation.ReflTransGen fun s s' => ∃ i, GridStep grid i s s'

/-- The leader is at the test of the waiting loop, with the generation that it saw. -/
def GridState.Waits (s : GridState ι) (i : ι) (seen : BitVec 32) : Prop :=
  ∃ locals code, s.thread i =
      .running locals (.whileStatement GridSync.waitCondition [] :: code) ∧
    locals "observed_generation" = some (.uint seen)

end CuMetal.Metal
