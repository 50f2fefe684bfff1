import CuMetal.Runtime.StreamCalls

/-!
# Recorded calls

What a stream that captures records for the calls whose entries look for a capture, what the same
calls do to a stream that does not capture, and the order in which a captured graph is launched.
-/

namespace CuMetal.Runtime.Stream

open List Session

variable {device : Device}

namespace Session

variable {session : Session}

@[simp] theorem advance_capture (count : Nat) :
    (session.advance count).capture = session.capture := rfl

theorem advance_advance (first second : Nat) :
    (session.advance first).advance second = session.advance (first + second) := by
  unfold advance
  rw [take_add, foldl_append, drop_drop]

theorem advance_zero : session.advance 0 = session := rfl

theorem advance_of_idle (idle : session.pending = []) (count : Nat) :
    session.advance count = session := by
  cases session
  cases idle
  rw [advance, take_nil, drop_nil]
  rfl

theorem drained_eq_advance : session.drained = session.advance session.pending.length := by
  unfold drained advance
  rw [take_length, drop_length]

end Session

theorem run_initStatus (world : World) (task : StreamTask) :
    (task.run world).runtime.initStatus = world.runtime.initStatus := by
  cases task with
  | compute effect => rfl
  | release pointer isGraphAllocation =>
    cases isGraphAllocation with
    | false => rfl
    | true =>
      simp only [StreamTask.run, deactivateGraphAllocation, if_true]
      split
      · rfl
      · split <;> rfl

theorem foldl_run_initStatus (tasks : List StreamTask) :
    ∀ world : World, (tasks.foldl StreamTask.run world).runtime.initStatus =
      world.runtime.initStatus := by
  induction tasks with
  | nil => exact fun _ => rfl
  | cons task tasks ih => exact fun world => (ih _).trans (run_initStatus world task)

/-- The stream's own work deactivates graph allocations and activates none. -/
theorem mem_active_of_run {world : World} {task : StreamTask} {base : BitVec 64}
    (member : base ∈ (task.run world).active) : base ∈ world.active := by
  cases task with
  | compute effect => exact member
  | release pointer isGraphAllocation =>
    cases isGraphAllocation with
    | false => exact member
    | true =>
      simp only [StreamTask.run, deactivateGraphAllocation, if_true] at member
      split at member
      · exact member
      · split at member
        · exact member
        · exact (mem_filter.mp member).1

/-- The graph that captured nodes form: each depends on the one before. -/
def chain (nodes : List GraphNode) : List CapturedNode :=
  nodes.zipIdx.map fun indexed => ⟨indexed.1, if indexed.2 = 0 then [] else [indexed.2 - 1]⟩

theorem length_chain (nodes : List GraphNode) : (chain nodes).length = nodes.length := by
  simp [chain]

theorem getElem?_chain (nodes : List GraphNode) (i : Nat) :
    (chain nodes)[i]? = nodes[i]?.map fun node => ⟨node, if i = 0 then [] else [i - 1]⟩ := by
  rw [chain, getElem?_map, getElem?_zipIdx, Option.map_map]
  simp [Function.comp_def]

variable {session : Session} {nodes : List GraphNode}

theorem record_chain (capturing : session.capture = some (chain nodes)) (node : GraphNode) :
    (session.record node).capture = some (chain (nodes ++ [node])) := by
  unfold record
  rw [capturing, Option.map_some]
  have same : (if (chain nodes).isEmpty then [] else [(chain nodes).length - 1]) =
      if nodes.length = 0 then [] else [nodes.length - 1] := by
    rw [length_chain]
    cases nodes <;> rfl
  rw [same]
  simp [chain, zipIdx_append]

theorem nextReady_chain {done : Nat} (more : done < nodes.length) :
    nextReady (chain nodes) (List.range done) = some done := by
  unfold nextReady
  rw [find?_range_eq_some]
  refine ⟨?_, by rw [mem_range, length_chain]; exact more, ?_⟩
  · rw [getElem?_chain, getElem?_eq_getElem more]
    by_cases first : done = 0
    · simp [first]
    · simp [first]
      omega
  · intro j earlier
    simp [earlier]

section

variable (nodes : List GraphNode)

theorem topologicallyOrderGraph_chain :
    ∀ count done : Nat, done + count = nodes.length →
      topologicallyOrderGraph (chain nodes) count (List.range done) =
        some (List.range nodes.length) := by
  intro count
  induction count with
  | zero => intro done total; rw [topologicallyOrderGraph, ← total, add_zero]
  | succ count ih =>
    intro done total
    rw [topologicallyOrderGraph, nextReady_chain (by omega)]
    have grown := ih (done + 1) (by omega)
    rwa [range_succ] at grown

theorem filterMap_getElem?_range :
    (List.range nodes.length).filterMap (fun i => nodes[i]?) = nodes := by
  induction nodes with
  | nil => rfl
  | cons head rest ih =>
    rw [length_cons, range_succ_eq_map, filterMap_cons, filterMap_map]
    simpa [Function.comp_def] using ih

theorem cudaGraphInstantiate_chain : cudaGraphInstantiate (chain nodes) = some nodes := by
  unfold cudaGraphInstantiate
  rw [show ([] : List Nat) = range 0 from rfl, length_chain,
    topologicallyOrderGraph_chain nodes nodes.length 0 (by omega), Option.map_some]
  simp only [getElem?_chain, Option.map_map, Function.comp_def, Option.map_id']
  rw [filterMap_getElem?_range]

theorem map_node_chain : (chain nodes).map CapturedNode.node = nodes := by
  rw [chain, map_map, show (CapturedNode.node ∘ fun indexed : GraphNode × Nat =>
    (⟨indexed.1, if indexed.2 = 0 then [] else [indexed.2 - 1]⟩ : CapturedNode)) = Prod.fst from rfl,
    zipIdx_map_fst]

end

variable {pointer : BitVec 64}

theorem freesPointer_chain :
    freesPointer (chain nodes) pointer = true ↔
      ∃ allocation, .memFree allocation ∈ nodes ∧ allocation.base = pointer := by
  unfold freesPointer
  rw [any_eq_true]
  constructor
  · rintro ⟨captured, member, frees⟩
    split at frees
    · next allocation freeing =>
        refine ⟨allocation, ?_, of_decide_eq_true frees⟩
        rw [← map_node_chain nodes, ← freeing]
        exact mem_map_of_mem member
    · cases frees
  · rintro ⟨allocation, member, rfl⟩
    rw [← map_node_chain nodes] at member
    obtain ⟨captured, inside, same⟩ := mem_map.mp member
    exact ⟨captured, inside, by rw [same]; exact decide_eq_true rfl⟩

theorem capturedAllocation_chain
    (allocated : ∃ allocation, .memAlloc allocation ∈ nodes ∧ allocation.base = pointer) :
    ∃ allocation, capturedAllocation (chain nodes) pointer = some allocation ∧
      allocation.base = pointer := by
  unfold capturedAllocation
  cases last : (filterMap _ (chain nodes)).getLast? with
  | none =>
    rw [getLast?_eq_none_iff, filterMap_eq_nil_iff] at last
    obtain ⟨allocation, member, same⟩ := allocated
    rw [← map_node_chain nodes] at member
    obtain ⟨captured, inside, here⟩ := mem_map.mp member
    have absent := last captured inside
    simp [here, same] at absent
  | some allocation =>
    obtain ⟨captured, _, found⟩ := mem_filterMap.mp (mem_of_getLast? last)
    refine ⟨allocation, rfl, ?_⟩
    split at found
    · split at found
      · next same => cases found; exact same
      · cases found
    · cases found

/-- The node that going through a node of another graph records. -/
def recordedNode (device : Device) : GraphNode → List GraphNode
  | .empty => []
  | .kernel launch =>
    match snapshotGraphKernelArguments device launch with
    | some arguments => [.kernel { launch with arguments }]
    | none => []
  | node => [node]

/-- Going through the node comes to a call that looks for a capture, and a kernel's arguments can be
kept. -/
def GraphNode.Recorded (device : Device) : GraphNode → Prop
  | .empty | .memcpy .. | .memset .. => True
  | .kernel launch => (snapshotGraphKernelArguments device launch).isSome = true
  | _ => False

/-- The call looks for a capture: a launch of a kernel whose arguments can be kept, a copy or fill
of consecutive bytes, a host function, an allocation, a free, or a launch of a graph of kernels and
such copies and fills. -/
def StreamCall.Recorded (device : Device) : StreamCall → Prop
  | .launchKernel launch => (snapshotGraphKernelArguments device launch).isSome = true
  | .memcpyAsync .. | .memsetAsync .. | .launchHostFunc _ | .mallocAsync .. | .freeAsync _ => True
  | .graphLaunch nodes => ∀ node ∈ nodes, node.Recorded device
  | _ => False

/-- The graph allocation that a captured `cudaMallocAsync` makes. -/
def mallocAllocation (device : Device) (buffer : Option Buffer) (size : BitVec 64) :
    Option GraphAllocation :=
  buffer.bind fun buffer => graphAllocation device.useMetalDeviceAddresses buffer size

/-- The nodes that a call records after `nodes`. -/
def recordedNodes (device : Device) (nodes : List GraphNode) : StreamCall → List GraphNode
  | .launchKernel launch => recordedNode device (.kernel launch)
  | .memcpyAsync dst src count kind => [.memcpy dst src count kind]
  | .memsetAsync devPtr value count => [.memset devPtr value count]
  | .launchHostFunc fn => [.host fn]
  | .mallocAsync _ buffer size => ((mallocAllocation device buffer size).map .memAlloc).toList
  | .freeAsync pointer =>
    if pointer = 0 then []
    else ((capturedAllocation (chain nodes) pointer).map .memFree).toList
  | .graphLaunch launched => launched.flatMap (recordedNode device)
  | _ => []

/-- The nodes that calls record after `nodes`. -/
def recordedFrom (device : Device) : List GraphNode → List StreamCall → List GraphNode
  | _, [] => []
  | nodes, call :: calls =>
    recordedNodes device nodes call ++
      recordedFrom device (nodes ++ recordedNodes device nodes call) calls

theorem record_eq (capturing : session.capture = some (chain nodes)) (node : GraphNode) :
    session.record node = { session with capture := some (chain (nodes ++ [node])) } := by
  rw [← record_chain capturing node]
  rfl

/-- What a node is recorded as by a stream that captures, if a stream that does not goes through it
with success. -/
theorem performNode_records {node : GraphNode} (recorded : node.Recorded device) {idle : Session}
    (capturing : session.capture = some (chain nodes)) (notCapturing : idle.capture = none)
    (sameInit : idle.world.runtime.initStatus = session.world.runtime.initStatus)
    (succeeds : (performNode device node idle).1 = .success) :
    performNode device node session =
      (.success, { session with capture := some (chain (nodes ++ recordedNode device node)) }) := by
  have here : session.capture.isSome = true := by rw [capturing]; rfl
  cases node with
  | empty =>
    rw [performNode, recordedNode, append_nil, ← capturing]
  | kernel launch =>
    obtain ⟨arguments, kept⟩ := Option.isSome_iff_exists.mp recorded
    simp only [performNode, cudaLaunchKernel, notCapturing, sameInit] at succeeds ⊢
    split at succeeds
    · cases succeeds
    · next shape =>
        split at succeeds
        · next bad => exact absurd succeeds bad
        · next good =>
            rw [if_neg shape, if_neg good, if_pos here]
            simp only [kept, recordedNode, record_eq capturing]
  | memcpy dst src count kind =>
    simp only [performNode, cudaMemcpyAsync, notCapturing, sameInit] at succeeds ⊢
    split at succeeds
    · cases succeeds
    · next shape =>
        split at succeeds
        · next bad => exact absurd succeeds bad
        · next good =>
            rw [if_neg shape, if_neg good, if_pos here, record_eq capturing]
            rfl
  | memset dst value count =>
    simp only [performNode, cudaMemsetAsync, notCapturing, sameInit] at succeeds ⊢
    split at succeeds
    · cases succeeds
    · next shape =>
        split at succeeds
        · next bad => exact absurd succeeds bad
        · next good =>
            rw [if_neg shape, if_neg good, if_pos here, record_eq capturing]
            rfl
  | _ => cases recorded

/-! ## What a call does to a stream that does not capture -/

/-- What the bodies behind the captures do with a session: they leave it with a status, put work on
the stream, or put it there and wait for it. -/
inductive StreamOutcome
  | left (status : CudaError)
  | pushed (effect : AllocationTable Buffer → ByteMemory → ByteMemory)
  | completed (status : CudaError) (effect : AllocationTable Buffer → ByteMemory → ByteMemory)

def StreamOutcome.apply (session : Session) : StreamOutcome → CudaError × Session
  | .left status => (status, session)
  | .pushed effect => (.success, session.push (.compute effect))
  | .completed status effect => (status, (session.push (.compute effect)).drained)

/-- A body that looks at nothing of the session. -/
def Uniform (body : Session → CudaError × Session) : Prop :=
  ∃ outcome : StreamOutcome, ∀ session, body session = outcome.apply session

theorem uniform_left (status : CudaError) : Uniform fun session => (status, session) :=
  ⟨.left status, fun _ => rfl⟩

/-- Whether the backend takes a piece of work does not depend on the session. -/
theorem enqueueStreamHostOp_cases (device : Device) (task : StreamTask) :
    (∃ status, status ≠ .success ∧
      ∀ session, enqueueStreamHostOp device task session = (status, session)) ∨
    ∀ session, enqueueStreamHostOp device task session = (.success, session.push task) := by
  unfold enqueueStreamHostOp
  by_cases resolved : device.backend.resolveStream ≠ .success
  · exact .inl ⟨_, resolved, fun _ => if_pos resolved⟩
  · by_cases enqueued : device.backend.enqueue ≠ .success
    · exact .inl ⟨_, enqueued, fun _ => by rw [if_neg resolved, if_pos enqueued]⟩
    · exact .inr fun _ => by rw [if_neg resolved, if_neg enqueued]

theorem uniform_enqueueStreamHostOpPageable (completeBeforeReturn : Bool)
    (effect : AllocationTable Buffer → ByteMemory → ByteMemory) :
    Uniform (enqueueStreamHostOpPageable device completeBeforeReturn (.compute effect)) := by
  unfold enqueueStreamHostOpPageable
  rcases enqueueStreamHostOp_cases device (.compute effect) with
    ⟨status, failed, refused⟩ | taken
  · exact ⟨.left status, fun session => by simp [refused, failed, StreamOutcome.apply]⟩
  · cases completeBeforeReturn with
    | false => exact ⟨.pushed effect, fun session => by simp [taken, StreamOutcome.apply]⟩
    | true =>
      exact ⟨.completed device.backend.synchronize effect, fun session => by
        simp [taken, StreamOutcome.apply]⟩

theorem uniform_memcpyUncaptured (dst src count : BitVec 64) (kind : MemcpyKind)
    (runtime : RuntimeState) : Uniform (memcpyUncaptured device dst src count kind runtime) := by
  unfold memcpyUncaptured
  cases resolveMemcpyKind runtime.allocations dst src kind with
  | error status => exact uniform_left status
  | ok resolvedKind =>
    have hostPath : Uniform fun session =>
        let hostDst := hostAccessiblePointer runtime.allocations dst count
        let hostSrc := hostAccessiblePointer runtime.allocations src count
        if (hostDst = 0 ∨ hostSrc = 0) ∧ 0 < count then (.invalidValue, session)
        else
          enqueueStreamHostOpPageable device
            (0 < count && isPageableHostMemory runtime.allocations dst)
            (copyTask (hostFunctionOf runtime.allocations runtime.memory resolvedKind
              hostDst hostSrc count))
            session := by
      dsimp only
      split
      · exact uniform_left .invalidValue
      · exact uniform_enqueueStreamHostOpPageable _ _
    dsimp only
    split
    · next blit _ _ => exact ⟨.pushed _, fun _ => rfl⟩
    · exact hostPath

theorem uniform_memsetUncaptured (devPtr : BitVec 64) (value : BitVec 32) (count : BitVec 64)
    (runtime : RuntimeState) : Uniform (memsetUncaptured device devPtr value count runtime) := by
  unfold memsetUncaptured
  dsimp only
  split
  · exact uniform_left .invalidValue
  · exact uniform_enqueueStreamHostOpPageable _ _

theorem uniform_launchUncaptured (launch : KernelLaunch) (runtime : RuntimeState) :
    Uniform (launchUncaptured device launch runtime) := by
  unfold launchUncaptured
  dsimp only
  split
  · next status _ => exact uniform_left status
  · next effect _ => exact ⟨.pushed fun _ => effect, fun _ => rfl⟩
  · next effect _ => exact ⟨.completed .success fun _ => effect, fun _ => rfl⟩

/-- An entry that refuses bad arguments, then a runtime that is not initialized, and then looks for
a capture. -/
theorem entry_uniform {shape : Prop} [Decidable shape] {entry captured : Session →
    CudaError × Session} {body : RuntimeState → Session → CudaError × Session}
    (unfolds : ∀ session : Session, entry session =
      if shape then (.invalidValue, session)
      else if session.world.runtime.initStatus ≠ .success then
        (session.world.runtime.initStatus, session)
      else if session.capture.isSome then captured session
      else body session.world.runtime session)
    (uniform : ∀ runtime, Uniform (body runtime)) (runtime : RuntimeState) :
    ∃ outcome : StreamOutcome, ∀ session, session.capture = none →
      session.world.runtime = runtime → entry session = outcome.apply session := by
  obtain ⟨outcome, same⟩ := uniform runtime
  by_cases bad : shape
  · exact ⟨.left .invalidValue, fun session _ _ => by rw [unfolds, if_pos bad]; rfl⟩
  · by_cases failed : runtime.initStatus ≠ .success
    · refine ⟨.left runtime.initStatus, fun session _ here => ?_⟩
      rw [unfolds, if_neg bad, here, if_pos failed]
      rfl
    · refine ⟨outcome, fun session idle here => ?_⟩
      rw [unfolds, if_neg bad, here, if_neg failed, idle, ← same]
      rfl

/-- A recorded node on a stream that does not capture: what it does is fixed by the runtime. -/
theorem performNode_uniform {node : GraphNode} (recorded : node.Recorded device)
    (runtime : RuntimeState) :
    ∃ outcome : StreamOutcome, ∀ session, session.capture = none →
      session.world.runtime = runtime → performNode device node session = outcome.apply session := by
  cases node with
  | empty => exact ⟨.left .success, fun session _ _ => rfl⟩
  | kernel launch =>
    exact entry_uniform (fun _ => rfl) (uniform_launchUncaptured launch) runtime
  | memcpy dst src count kind =>
    exact entry_uniform (fun _ => rfl) (uniform_memcpyUncaptured dst src count kind) runtime
  | memset dst value count =>
    exact entry_uniform (fun _ => rfl) (uniform_memsetUncaptured dst value count) runtime
  | _ => cases recorded

namespace StreamOutcome

variable {outcome : StreamOutcome} {session : Session}

@[simp] theorem apply_capture : (outcome.apply session).2.capture = session.capture := by
  cases outcome <;> rfl

@[simp] theorem apply_initStatus :
    (outcome.apply session).2.world.runtime.initStatus = session.world.runtime.initStatus := by
  cases outcome with
  | left status => rfl
  | pushed effect => rfl
  | completed status effect => exact foldl_run_initStatus _ session.world

end StreamOutcome

variable {session last : Session} {permits : GraphNode → Session → Prop}

/-! ## Launches and runs -/

variable {status : CudaError} {statuses : List CudaError}

theorem launches_nil (launch : Launches device permits [] session status last) :
    status = .success ∧ ∃ count, last = session.advance count := by
  generalize empty : ([] : List GraphNode) = nodes at launch
  induction launch with
  | done => exact ⟨rfl, 0, rfl⟩
  | work first _ ih =>
    obtain ⟨succeeded, second, same⟩ := ih empty
    exact ⟨succeeded, first + second, by rw [same, advance_advance]⟩
  | node _ _ _ _ => cases empty
  | failed _ _ _ => cases empty

/-- A launch goes through its first node at some point of the stream's work. -/
theorem launches_cons {node : GraphNode} {nodes : List GraphNode}
    (launch : Launches device permits (node :: nodes) session status last) :
    ∃ count, permits node (session.advance count) ∧
      ((performNode device node (session.advance count) = (status, last) ∧ status ≠ .success) ∨
        ∃ next, performNode device node (session.advance count) = (.success, next) ∧
          Launches device permits nodes next status last) := by
  generalize full : node :: nodes = launched at launch
  induction launch with
  | done => cases full
  | work first _ ih =>
    obtain ⟨second, permitted, rest⟩ := ih full
    rw [advance_advance] at permitted rest
    exact ⟨first + second, permitted, rest⟩
  | node permitted performed rest _ =>
    cases full
    exact ⟨0, permitted, .inr ⟨_, performed, rest⟩⟩
  | failed permitted performed refused =>
    cases full
    exact ⟨0, permitted, .inl ⟨performed, refused⟩⟩

/-- A stream that may go through every node when it has no work left launches every graph. -/
theorem exists_launches (idle : ∀ node session, session.pending = [] → permits node session)
    (nodes : List GraphNode) :
    ∀ session, ∃ status last, Launches device permits nodes session status last := by
  induction nodes with
  | nil => exact fun session => ⟨.success, session, .done⟩
  | cons node nodes ih =>
    intro session
    have permitted : permits node (session.advance session.pending.length) :=
      idle _ _ drop_length
    by_cases succeeds :
        (performNode device node (session.advance session.pending.length)).1 = .success
    · obtain ⟨status, last, rest⟩ :=
        ih (performNode device node (session.advance session.pending.length)).2
      exact ⟨status, last, .work _ (.node permitted (by rw [← succeeds]) rest)⟩
    · exact ⟨_, _, .work _ (.failed permitted rfl succeeds)⟩

theorem exists_issues (calls : List StreamCall) :
    ∀ session, ∃ statuses last, Issues device calls session statuses last := by
  induction calls with
  | nil => exact fun session => ⟨[], session, .done⟩
  | cons call calls ih =>
    intro session
    by_cases launches : ∃ nodes, call = .graphLaunch nodes
    · obtain ⟨nodes, rfl⟩ := launches
      obtain ⟨status, next, launch⟩ :=
        @exists_launches device _ (fun _ _ _ => trivial) nodes session
      obtain ⟨statuses, last, rest⟩ := ih next
      exact ⟨status :: statuses, last, .launch launch rest⟩
    · obtain ⟨statuses, last, rest⟩ := ih (performCall device session call).2
      exact ⟨_ :: statuses, last, .call (fun nodes same => launches ⟨nodes, same⟩) rest⟩

theorem issues_nil (issued : Issues device [] session statuses last) : statuses = [] := by
  generalize empty : ([] : List StreamCall) = calls at issued
  induction issued with
  | done => rfl
  | work _ _ ih => exact ih empty
  | call _ _ _ => cases empty
  | launch _ _ _ => cases empty

theorem issues_cons {call : StreamCall} (single : ∀ nodes, call ≠ .graphLaunch nodes)
    {calls : List StreamCall} (issued : Issues device (call :: calls) session statuses last) :
    ∃ count rest, statuses = (performCall device (session.advance count) call).1 :: rest ∧
      Issues device calls (performCall device (session.advance count) call).2 rest last := by
  generalize full : call :: calls = issuedCalls at issued
  induction issued with
  | done => cases full
  | work first _ ih =>
    obtain ⟨second, rest, same, later⟩ := ih full
    rw [advance_advance] at same later
    exact ⟨first + second, rest, same, later⟩
  | call _ later _ =>
    cases full
    exact ⟨0, _, rfl, later⟩
  | launch _ _ _ =>
    cases full
    exact absurd rfl (single _)

/-- Every call succeeds, however the stream gets on with its work. -/
def AllSucceed (device : Device) (calls : List StreamCall) (session : Session) : Prop :=
  ∀ statuses last, Issues device calls session statuses last → ∀ status ∈ statuses,
    status = .success

namespace AllSucceed

variable {calls : List StreamCall} {session : Session}

theorem advance (succeed : AllSucceed device calls session) (count : Nat) :
    AllSucceed device calls (session.advance count) :=
  fun statuses last run => succeed statuses last (.work count run)

theorem call {call : StreamCall} (succeed : AllSucceed device (call :: calls) session)
    (single : ∀ nodes, call ≠ .graphLaunch nodes) :
    (performCall device session call).1 = .success ∧
      AllSucceed device calls (performCall device session call).2 := by
  constructor
  · obtain ⟨statuses, last, run⟩ := exists_issues calls (performCall device session call).2
    exact succeed _ last (.call single run) _ mem_cons_self
  · intro statuses last run status member
    exact succeed _ last (.call single run) status (mem_cons_of_mem _ member)

theorem launch {nodes : List GraphNode}
    (succeed : AllSucceed device (.graphLaunch nodes :: calls) session) {next : Session}
    (launched : Launches device (fun _ _ => True) nodes session status next) :
    status = .success ∧ AllSucceed device calls next := by
  constructor
  · obtain ⟨statuses, last, run⟩ := exists_issues calls next
    exact succeed _ last (.launch launched run) _ mem_cons_self
  · intro statuses last run status member
    exact succeed _ last (.launch launched run) status (mem_cons_of_mem _ member)

theorem nil : AllSucceed device [] session := by
  intro statuses last issued status member
  rw [issues_nil issued] at member
  cases member

theorem cons {call : StreamCall} (single : ∀ nodes, call ≠ .graphLaunch nodes)
    (step : ∀ count, (performCall device (session.advance count) call).1 = .success ∧
      AllSucceed device calls (performCall device (session.advance count) call).2) :
    AllSucceed device (call :: calls) session := by
  intro statuses last issued status member
  obtain ⟨count, rest, rfl, later⟩ := issues_cons single issued
  rcases mem_cons.mp member with rfl | earlier
  · exact (step count).1
  · exact (step count).2 rest last later status earlier

end AllSucceed

def LaunchSucceeds (device : Device) (nodes : List GraphNode) (session : Session) : Prop :=
  ∀ status last, Launches device (fun _ _ => True) nodes session status last → status = .success

namespace LaunchSucceeds

variable {node : GraphNode} {nodes : List GraphNode} {session : Session}

theorem advance (succeed : LaunchSucceeds device nodes session) (count : Nat) :
    LaunchSucceeds device nodes (session.advance count) :=
  fun status last run => succeed status last (.work count run)

theorem cons (succeed : LaunchSucceeds device (node :: nodes) session) :
    performNode device node session = (.success, (performNode device node session).2) ∧
      LaunchSucceeds device nodes (performNode device node session).2 := by
  have performed : (performNode device node session).1 = .success := by
    by_contra failed
    exact failed (succeed _ _ (.failed trivial rfl failed))
  have split : performNode device node session =
      (.success, (performNode device node session).2) := by rw [← performed]
  exact ⟨split, fun status last run => succeed status last (.node trivial split run)⟩

end LaunchSucceeds

/-- What a `cudaMallocAsync` that succeeds on a stream that does not capture found and left. -/
structure MallocDone (device : Device) (status : CudaError) (buffer : Option Buffer)
    (size : BitVec 64) (session : Session) (allocation : GraphAllocation)
    (allocations : AllocationTable Buffer) : Prop where
  sized : size ≠ 0
  initialized : session.world.runtime.initStatus = .success
  answered : status = .success
  answeredBuffer : buffer = some allocation.buffer
  made : graphAllocation device.useMetalDeviceAddresses allocation.buffer size = some allocation
  inactive : allocation.active = false
  activates : activateGraphAllocation allocation session.world.runtime.allocations =
    (.success, allocations)
  left : (cudaMallocAsync device status buffer size session).2 =
    { session with
      world := { session.world with
        runtime := { session.world.runtime with allocations } } }

variable {size : BitVec 64} {table : AllocationTable Buffer} {buffer : Option Buffer}

/-- `cudaMalloc` records what the activation of a graph allocation of the same buffer does. -/
theorem cudaMalloc_eq {mode : Bool} {buffer : Buffer} (sized : size ≠ 0)
    (ok : (cudaMalloc .success .success (some buffer) mode table size).status = .success) :
    ∃ allocation, graphAllocation mode buffer size = some allocation ∧
      allocation.buffer = buffer ∧ allocation.active = false ∧
      activateGraphAllocation allocation table =
        (.success, (cudaMalloc .success .success (some buffer) mode table size).allocations) := by
  simp only [cudaMalloc, if_neg sized, ne_eq, not_true, if_false] at ok ⊢
  by_cases bad : buffer.contents = 0 ∨ (mode ∧ buffer.deviceAddress = 0)
  · rw [if_pos bad] at ok
    cases ok
  · rw [if_neg bad] at ok ⊢
    obtain ⟨contents, address⟩ := not_or.mp bad
    have based : (if mode then buffer.deviceAddress else buffer.contents) ≠ 0 := by
      cases mode with
      | false => exact contents
      | true => exact fun zero => address ⟨rfl, zero⟩
    refine ⟨_, if_neg bad, rfl, rfl, ?_⟩
    have usable : ¬ ((if mode then buffer.deviceAddress else buffer.contents) = 0 ∨ size = 0 ∨
        false = true) := by
      rintro (zero | zero | active)
      · exact based zero
      · exact sized zero
      · cases active
    rw [activateGraphAllocation, if_neg usable]
    exact Prod.ext ok rfl

theorem cudaMalloc_answers {initialization : CudaError} {mode : Bool}
    (ok : (cudaMalloc initialization status buffer mode table size).status = .success) :
    size ≠ 0 ∧ initialization = .success ∧ status = .success ∧ ∃ answered, buffer = some answered := by
  unfold cudaMalloc at ok
  split at ok
  · cases ok
  · next sized =>
      split at ok
      · next bad => exact absurd ok bad
      · next initialized =>
          split at ok
          · exact ⟨sized, not_not.mp initialized, rfl, _, rfl⟩
          · cases ok
          · next withBuffer withoutBuffer =>
              cases buffer with
              | none => exact absurd rfl (withoutBuffer ok)
              | some buffer => exact absurd rfl (withBuffer buffer ok)

theorem cudaMallocAsync_done {session : Session} (idle : session.capture = none)
    (succeeds : (cudaMallocAsync device status buffer size session).1 = .success) :
    ∃ allocation allocations,
      MallocDone device status buffer size session allocation allocations := by
  have unfolded : cudaMallocAsync device status buffer size session =
      let allocated := cudaMalloc session.world.runtime.initStatus status buffer
        device.useMetalDeviceAddresses session.world.runtime.allocations size
      (allocated.status,
        { session with
          world := { session.world with
            runtime := { session.world.runtime with allocations := allocated.allocations } } }) := by
    unfold cudaMallocAsync at succeeds ⊢
    rw [idle] at succeeds ⊢
    split at succeeds
    · cases succeeds
    · next sized =>
        split at succeeds
        · next capturing => cases capturing
        · split at succeeds
          · next bad => exact absurd succeeds bad
          · next resolved =>
              split at succeeds
              · next bad => exact absurd succeeds bad
              · next taken => simp only [if_neg sized, if_neg resolved, if_neg taken]; rfl
  rw [unfolded] at succeeds
  obtain ⟨sized, initialized, rfl, buffer, rfl⟩ := cudaMalloc_answers succeeds
  rw [initialized] at succeeds
  obtain ⟨allocation, made, rfl, inactive, activates⟩ := cudaMalloc_eq sized succeeds
  refine ⟨allocation, _, sized, initialized, rfl, rfl, made, inactive, activates, ?_⟩
  rw [unfolded, initialized]

end CuMetal.Runtime.Stream
