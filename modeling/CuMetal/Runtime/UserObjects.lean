import CuMetal.Lib.GuardedRun
import CuMetal.Lib.Totals
import CuMetal.Runtime.Buffers

/-!
# User objects of graphs

The calls of `runtime/rt/cuda_runtime.cpp` that count the references to a user object (`287-337`,
`4614-4691`), with the creation, the clone and the destruction of the graphs that hold some of them.
-/

open CuMetal.Runtime (CudaError)

namespace CuMetal.UserObjects

/-- The bits of `cudaUserObjectNoDestructorSync`. -/
def cudaUserObjectNoDestructorSync : BitVec 32 := 1

/-- The bits of `cudaGraphUserObjectMove`. -/
def cudaGraphUserObjectMove : BitVec 32 := 1

/-- A `cudaHostFn_t` that is not null. -/
structure HostFn where
  address : Nat
  deriving DecidableEq

/-- `cudaUserObject_st` (`291-296`). Its `destroy` is never null. -/
structure UserObject where
  ptr : BitVec 64
  destroy : HostFn
  refcount : BitVec 32
  deriving DecidableEq

/-- A call of a destructor, made for an object. -/
structure DestructorCall where
  object : Nat
  destroy : HostFn
  payload : BitVec 64
  deriving DecidableEq

/-- The user objects in memory, the next handle, and the destructor calls so far. -/
structure Objects where
  live : AssocMap Nat UserObject
  next : Nat
  calls : List DestructorCall

/-- What a graph has in `user_objects`. -/
abbrev UserReferences := AssocMap Nat (BitVec 32)

/-- The entry of the object counts more, or there is a new one. -/
def UserReferences.retain (userObjects : UserReferences) (object : Nat) (count : BitVec 32) :
    UserReferences :=
  match userObjects.find? object with
  | some held => userObjects.assign object (held + count)
  | none => userObjects ++ [(object, count)]

/-- The entry of the object counts what is left, and goes when that is nothing. -/
def UserReferences.release (userObjects : UserReferences) (object : Nat) (left : BitVec 32) :
    UserReferences :=
  if left = 0 then userObjects.eraseP fun entry => entry.1 = object
  else userObjects.assign object left

/-- The user objects, and the graphs in memory with their `user_objects`. -/
structure State where
  objects : Objects
  graphs : AssocMap Nat UserReferences
  nextGraph : Nat

/-- `release_user_object` (`303-321`). There is no answer for an object that is not in memory. -/
def releaseUserObject (objects : Objects) (object : Option Nat) (count : BitVec 32) :
    Option (Bool × Objects) :=
  match object with
  | none => some (false, objects)
  | some handle =>
    if count = 0 then some (false, objects)
    else
      match objects.live.find? handle with
      | none => none
      | some held =>
        if held.refcount < count then some (false, objects)
        else
          let left := held.refcount - count
          if left ≠ 0 then
            let live := objects.live.change handle fun o => { o with refcount := left }
            some (true, { objects with live })
          else
            let calls := objects.calls ++ [⟨handle, held.destroy, held.ptr⟩]
            some (true, { objects with live := objects.live.remove handle, calls })

/-- What `~cudaGraph_st` (`331-336`) does with `user_objects`. -/
def releaseAll : Objects → UserReferences → Option Objects
  | objects, [] => some objects
  | objects, (object, count) :: rest =>
    (releaseUserObject objects (some object) count).bind fun (_, objects) =>
      releaseAll objects rest

namespace State

variable (s : State)

/-- `cudaUserObjectCreate` (`4614-4629`), with a place for the handle or without one. -/
def cudaUserObjectCreate (objectOut : Bool) (ptr : BitVec 64) (destroy : Option HostFn)
    (initialRefcount flags : BitVec 32) : CudaError × State :=
  match destroy with
  | none => (.invalidValue, s)
  | some destroy =>
    if !objectOut || initialRefcount = 0 then (.invalidValue, s)
    else if flags ≠ 0 && flags ≠ cudaUserObjectNoDestructorSync then (.invalidValue, s)
    else
      let object : UserObject := ⟨ptr, destroy, initialRefcount⟩
      let objects := { s.objects with
        live := s.objects.live ++ [(s.objects.next, object)], next := s.objects.next + 1 }
      (.success, { s with objects })

/-- `object->refcount += count`. -/
def addReferences (handle : Nat) (count : BitVec 32) : Option State :=
  (s.objects.live.find? handle).map fun _ =>
    let live := s.objects.live.change handle fun o => { o with refcount := o.refcount + count }
    { s with objects := { s.objects with live } }

/-- `cudaUserObjectRetain` (`4631-4638`). -/
def cudaUserObjectRetain (object : Option Nat) (count : BitVec 32) : Option (CudaError × State) :=
  match object with
  | none => some (.invalidValue, s)
  | some handle =>
    if count = 0 then some (.invalidValue, s)
    else (s.addReferences handle count).map fun s => (.success, s)

/-- `cudaUserObjectRelease` (`4640-4645`). -/
def cudaUserObjectRelease (object : Option Nat) (count : BitVec 32) : Option (CudaError × State) :=
  (releaseUserObject s.objects object count).map fun (released, objects) =>
    (if released then .success else .invalidValue, { s with objects })

/-- `cudaGraphRetainUserObject` (`4647-4669`). -/
def cudaGraphRetainUserObject (graph object : Option Nat) (count flags : BitVec 32) :
    Option (CudaError × State) :=
  match graph, object with
  | some graph, some handle =>
    if count = 0 then some (.invalidValue, s)
    else if flags ≠ 0 && flags ≠ cudaGraphUserObjectMove then some (.invalidValue, s)
    else
      let retained := if flags ≠ cudaGraphUserObjectMove then s.addReferences handle count
        else some s
      retained.bind fun s =>
        (s.graphs.find? graph).map fun userObjects =>
          let userObjects := userObjects.retain handle count
          (.success, { s with graphs := s.graphs.change graph fun _ => userObjects })
  | _, _ => some (.invalidValue, s)

/-- `cudaGraphReleaseUserObject` (`4671-4691`). The graph's count changes before the object's. -/
def cudaGraphReleaseUserObject (graph object : Option Nat) (count : BitVec 32) :
    Option (CudaError × State) :=
  match graph, object with
  | some graph, some handle =>
    if count = 0 then some (.invalidValue, s)
    else
      (s.graphs.find? graph).bind fun userObjects =>
        match userObjects.find? handle with
        | none => some (.invalidValue, s)
        | some held =>
          if held < count then some (.invalidValue, s)
          else
            let userObjects := userObjects.release handle (held - count)
            let s := { s with graphs := s.graphs.change graph fun _ => userObjects }
            (releaseUserObject s.objects (some handle) count).map fun (released, objects) =>
              (if released then .success else .invalidValue, { s with objects })
  | _, _ => some (.invalidValue, s)

/-- A new `cudaGraph_st`. -/
def newGraph : State :=
  { s with graphs := s.graphs ++ [(s.nextGraph, [])], nextGraph := s.nextGraph + 1 }

/-- `cudaGraphCreate` (`4494-4501`). -/
def cudaGraphCreate (pGraph : Bool) (flags : BitVec 32) : CudaError × State :=
  if !pGraph || flags ≠ 0 then (.invalidValue, s) else (.success, s.newGraph)

/-- `cudaGraphClone` (`4503-4544`). The clone takes none of the `user_objects`; `copied` is what the
graph's lifetime and the copy of its nodes give. -/
def cudaGraphClone (pGraphClone : Bool) (originalGraph : Option Nat) (copied : CudaError) :
    Option (CudaError × State) :=
  match originalGraph with
  | none => some (.invalidValue, s)
  | some original =>
    if !pGraphClone then some (.invalidValue, s)
    else
      (s.graphs.find? original).map fun _ =>
        if copied ≠ .success then (copied, s) else (.success, s.newGraph)

/-- `cudaGraphDestroy` (`4693-4699`). -/
def cudaGraphDestroy (graph : Option Nat) : Option (CudaError × State) :=
  match graph with
  | none => some (.invalidValue, s)
  | some graph =>
    (s.graphs.find? graph).bind fun userObjects =>
      (releaseAll s.objects userObjects).map fun objects =>
        (.success, { s with objects, graphs := s.graphs.remove graph })

end State

inductive Action
  | userObjectCreate (objectOut : Bool) (ptr : BitVec 64) (destroy : Option HostFn)
      (initialRefcount flags : BitVec 32)
  | userObjectRetain (object : Option Nat) (count : BitVec 32)
  | userObjectRelease (object : Option Nat) (count : BitVec 32)
  | graphRetainUserObject (graph object : Option Nat) (count flags : BitVec 32)
  | graphReleaseUserObject (graph object : Option Nat) (count : BitVec 32)
  | graphCreate (pGraph : Bool) (flags : BitVec 32)
  | graphClone (pGraphClone : Bool) (originalGraph : Option Nat) (copied : CudaError)
  | graphDestroy (graph : Option Nat)

/-- The status of a call and what it leaves. A call that follows a handle to a deleted object or
graph has no answer. -/
def State.call (s : State) : Action → Option (CudaError × State)
  | .userObjectCreate objectOut ptr destroy initialRefcount flags =>
    some (s.cudaUserObjectCreate objectOut ptr destroy initialRefcount flags)
  | .userObjectRetain object count => s.cudaUserObjectRetain object count
  | .userObjectRelease object count => s.cudaUserObjectRelease object count
  | .graphRetainUserObject graph object count flags =>
    s.cudaGraphRetainUserObject graph object count flags
  | .graphReleaseUserObject graph object count => s.cudaGraphReleaseUserObject graph object count
  | .graphCreate pGraph flags => some (s.cudaGraphCreate pGraph flags)
  | .graphClone pGraphClone originalGraph copied =>
    s.cudaGraphClone pGraphClone originalGraph copied
  | .graphDestroy graph => s.cudaGraphDestroy graph

/-- The references to the object that the graph holds. -/
def UserReferences.heldOf (userObjects : UserReferences) (object : Nat) : Nat :=
  match userObjects.find? object with
  | some held => held.toNat
  | none => 0

/-- The references to the object that graphs hold. -/
def State.held (s : State) (object : Nat) : Nat := s.graphs.total fun graph => graph.heldOf object

/-- What an object was created with, and how many references to it the caller owns: those it has
created or retained, less those it has released or moved to a graph. -/
structure Account where
  ptr : BitVec 64
  destroy : HostFn
  owned : Int
  deriving DecidableEq

/-- The state, with an account for every object that was created. -/
structure Ledger where
  state : State
  accounts : AssocMap Nat Account

/-- The caller's references to an object grow by as many. -/
def credit (accounts : AssocMap Nat Account) (object : Option Nat) (count : Int) :
    AssocMap Nat Account :=
  match object with
  | none => accounts
  | some handle => accounts.change handle fun account =>
    { account with owned := account.owned + count }

/-- What a call that succeeds does to the accounts. -/
def Ledger.settle (l : Ledger) : Action → AssocMap Nat Account
  | .userObjectCreate _ ptr (some destroy) initialRefcount _ =>
    l.accounts ++ [(l.state.objects.next, ⟨ptr, destroy, initialRefcount.toNat⟩)]
  | .userObjectRetain object count => credit l.accounts object count.toNat
  | .userObjectRelease object count => credit l.accounts object (-count.toNat)
  | .graphRetainUserObject _ object count flags =>
    if flags = cudaGraphUserObjectMove then credit l.accounts object (-count.toNat)
    else l.accounts
  | _ => l.accounts

def step (l : Ledger) (action : Action) : Option Ledger :=
  (l.state.call action).map fun (status, state) =>
    ⟨state, if status = .success then l.settle action else l.accounts⟩

def initial : Ledger := ⟨⟨⟨[], 0, []⟩, [], 0⟩, []⟩

end CuMetal.UserObjects
