import CuMetal.Lib.GuardedRun
import CuMetal.Lib.LinkedStack
import Mathlib.Algebra.GroupWithZero.Nat

/-!
# The heap of the device

`malloc` and `free` as `emit_device_malloc` and `emit_device_free` write them
(`compiler/ptx/src/lower_to_llvm.cpp`), for any number of threads on one heap that the host has set
up (`runtime/rt/cuda_runtime.cpp:6360-6400`). Words are natural numbers below `2 ^ 32`. A block is
named by its offset, a multiple of 16, so that the two words of a header are no words of another.
-/

namespace CuMetal.Ptx.DeviceHeap

/-- The words of the heap: the cursor, the head of the free list and the capacity, and of each block
its size and its link. -/
structure Heap where
  cursor : Nat
  freeHead : Nat
  capacity : Nat
  size : Nat → Nat
  next : Nat → Nat

/-- A request: the bytes asked for, rounded up with a header, and the capacity that was read. -/
structure Request where
  requested : Nat
  total : Nat
  capacity : Nat

/-- `heap_total` (`4878-4883`): the words wrap. -/
def totalOf (requested : Nat) : Nat := (requested % 2 ^ 32 + 31) % 2 ^ 32 / 16 * 16

/-- Where a thread is in `malloc` or `free`: each step but the first is one access of the heap. -/
inductive Pc
  | idle
  | checking (requested : Nat)
  | popping (request : Request)
  | sizing (request : Request) (head : Nat)
  | linking (request : Request) (head : Nat)
  | claiming (request : Request) (head link : Nat)
  | bumping (request : Request)
  | storing (request : Request) (chosen : Nat)
  | freeing (block : Nat)
  | chaining (block oldHead : Nat)
  | pushing (block oldHead : Nat)

/-- An allocation that `malloc` has returned and that no `free` has been given. -/
structure Allocation where
  block : Nat
  requested : Nat

/-- The heap, the threads, and the live allocations. -/
structure State (ι : Type) where
  heap : Heap
  pc : ι → Pc
  live : List Allocation

/-- A thread calls `malloc`, or `free` with a live allocation; or it goes on. -/
inductive Action (ι : Type)
  | malloc (thread : ι) (requested : Nat)
  | free (thread : ι) (block : Nat)
  | advance (thread : ι)

variable {ι : Type} [DecidableEq ι]

def State.at (s : State ι) (thread : ι) (pc : Pc) : State ι :=
  { s with pc := Function.update s.pc thread pc }

/-- The next access of a thread. -/
def State.advance (s : State ι) (thread : ι) : Option (State ι) :=
  let heap := s.heap
  match s.pc thread with
  | .idle => none
  | .checking requested =>
    if requested ≤ heap.capacity then
      some (s.at thread (.popping ⟨requested, totalOf requested, heap.capacity⟩))
    else some (s.at thread .idle)
  | .popping request =>
    if heap.freeHead = 0 then some (s.at thread (.bumping request))
    else some (s.at thread (.sizing request heap.freeHead))
  | .sizing request head =>
    if request.total ≤ heap.size head then some (s.at thread (.linking request head))
    else some (s.at thread (.bumping request))
  | .linking request head => some (s.at thread (.claiming request head (heap.next head)))
  | .claiming request head link =>
    if heap.freeHead = head then
      some { s.at thread (.storing request head) with heap := { heap with freeHead := link } }
    else some (s.at thread (.popping request))
  | .bumping request =>
    -- the cursor advances also when the request does not fit
    let heap' := { heap with cursor := (heap.cursor + request.total) % 2 ^ 32 }
    if (heap.cursor + request.total) % 2 ^ 32 ≤ request.capacity then
      some { s.at thread (.storing request heap.cursor) with heap := heap' }
    else some { s.at thread .idle with heap := heap' }
  | .storing request chosen =>
    some
      { s.at thread .idle with
        heap := { heap with size := Function.update heap.size chosen request.total }
        live := ⟨chosen, request.requested⟩ :: s.live }
  | .freeing block => some (s.at thread (.chaining block heap.freeHead))
  | .chaining block oldHead =>
    some
      { s.at thread (.pushing block oldHead) with
        heap := { heap with next := Function.update heap.next block oldHead } }
  | .pushing block oldHead =>
    if heap.freeHead = oldHead then
      some { s.at thread .idle with heap := { heap with freeHead := block } }
    else some (s.at thread (.freeing block))

/-- The state after a step, if the step can be taken. -/
def step (s : State ι) : Action ι → Option (State ι)
  | .malloc thread requested =>
    match s.pc thread with
    | .idle => if requested < 2 ^ 64 then some (s.at thread (.checking requested)) else none
    | _ => none
  | .free thread block =>
    match s.pc thread with
    | .idle =>
      if s.live.any fun allocation => allocation.block = block then
        some
          { s.at thread (.freeing block) with
            live := s.live.eraseP fun allocation => allocation.block = block }
      else none
    | _ => none
  | .advance thread => s.advance thread

def initial (ι : Type) (capacity : Nat) : State ι where
  heap := ⟨16, 0, capacity, fun _ => 0, fun _ => 0⟩
  pc := fun _ => .idle
  live := []

def Accepted (capacity : Nat) : Prop := 32 ≤ capacity ∧ capacity < 2 ^ 32

/-- Live allocations are apart, inside the heap and large enough, and the free list holds each block
once and no live one. -/
structure Safe (s : State ι) : Prop where
  apart : s.live.Pairwise fun a b =>
    a.block + 16 + a.requested ≤ b.block ∨ b.block + 16 + b.requested ≤ a.block
  inside : ∀ a ∈ s.live, 16 ≤ a.block ∧ a.block + 16 + a.requested ≤ s.heap.capacity
  sized : ∀ a ∈ s.live, a.requested + 16 ≤ s.heap.size a.block
  freeList : ∃ blocks, Linked s.heap.next s.heap.freeHead blocks ∧ blocks.Nodup ∧
    ∀ a ∈ s.live, a.block ∉ blocks

/-- An access that keeps the heap safe: the cursor does not pass the last word, and a pop that finds
the head that it read finds the link that it read as well. -/
def Pc.Steady (heap : Heap) : Pc → Prop
  | .claiming _ head link => heap.freeHead = head → heap.next head = link
  | .bumping request => heap.cursor + request.total < 2 ^ 32
  | _ => True

/-- A step that keeps the heap safe; a request that the capacity allows must not be rounded past the
last word. -/
def Steady (s : State ι) : Action ι → Prop
  | .malloc _ requested => requested ≤ s.heap.capacity → requested + 31 < 2 ^ 32
  | .free _ _ => True
  | .advance thread => (s.pc thread).Steady s.heap

instance (heap : Heap) (pc : Pc) : Decidable (pc.Steady heap) :=
  match pc with
  | .claiming _ head link => inferInstanceAs (Decidable (heap.freeHead = head → heap.next head = link))
  | .bumping request => inferInstanceAs (Decidable (heap.cursor + request.total < 2 ^ 32))
  | .idle | .checking _ | .popping _ | .sizing _ _ | .linking _ _ | .storing _ _ | .freeing _
  | .chaining _ _ | .pushing _ _ => inferInstanceAs (Decidable True)

instance (s : State ι) (a : Action ι) : Decidable (Steady s a) :=
  match a with
  | .malloc _ requested =>
    inferInstanceAs (Decidable (requested ≤ s.heap.capacity → requested + 31 < 2 ^ 32))
  | .free _ _ => inferInstanceAs (Decidable True)
  | .advance thread => inferInstanceAs (Decidable ((s.pc thread).Steady s.heap))

end CuMetal.Ptx.DeviceHeap
