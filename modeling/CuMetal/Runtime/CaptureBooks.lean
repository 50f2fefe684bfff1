import CuMetal.Runtime.RecordedCalls

/-!
# Captures

Calls whose entries look for a capture only lengthen the graph while the stream captures.
-/

namespace CuMetal.Runtime.Stream

open List

variable {device : Device}

/-! ## What a capture records -/

/-- The bases that allocations may get: no earlier graph allocation, active or still to be
released, has it. -/
structure Fresh (start : Session) (base : BitVec 64) : Prop where
  unknown : start.graphAllocations.contains base = false
  inactive : base ∉ start.world.active
  unreleased : .release base true ∉ start.pending

/-- Allocations that the calls ask for have fresh bases, all different, and a free names an
allocation of an earlier call that no call has freed. -/
def Placed (device : Device) (start : Session) :
    List (BitVec 64) → List (BitVec 64) → List StreamCall → Prop
  | _, _, [] => True
  | allocated, live, .mallocAsync _ buffer size :: calls =>
    ∀ allocation, mallocAllocation device buffer size = some allocation →
      (Fresh start allocation.base ∧ allocation.base ∉ allocated) ∧
        Placed device start (allocation.base :: allocated) (allocation.base :: live) calls
  | allocated, live, .freeAsync pointer :: calls =>
    if pointer = 0 then Placed device start allocated live calls
    else pointer ∈ live ∧ Placed device start allocated (live.filter (· ≠ pointer)) calls
  | allocated, live, _ :: calls => Placed device start allocated live calls

/-- What the bookkeeping of a capture says, after nodes have been recorded for allocations of which
some are not freed. -/
structure Books (start session : Session) (nodes : List GraphNode)
    (allocated live : List (BitVec 64)) : Prop where
  capturing : session.capture = some (chain nodes)
  untouched : ∃ count, session.world = (start.advance count).world ∧
    session.pending = (start.advance count).pending
  allocates : ∀ base ∈ live, ∃ allocation, .memAlloc allocation ∈ nodes ∧ allocation.base = base
  freed : ∀ allocation, .memFree allocation ∈ nodes →
    allocation.base ∈ allocated ∧ allocation.base ∉ live
  known : ∀ base, session.graphAllocations.contains base = true →
    base ∈ allocated ∨ start.graphAllocations.contains base = true
  unplaced : ∀ base ∈ live, base ∉ session.freePlaced
  subset : live ⊆ allocated

variable {status : CudaError} {idle : Session}

namespace Books

variable {start session : Session} {nodes : List GraphNode} {allocated live : List (BitVec 64)}

theorem begin (start : Session) : Books start start.beginCapture [] [] [] where
  capturing := rfl
  untouched := ⟨0, rfl, rfl⟩
  allocates := fun _ member => by cases member
  freed := fun _ member => by cases member
  known := fun _ known => .inr known
  unplaced := fun _ member => by cases member
  subset := fun _ member => member

section

variable (books : Books start session nodes allocated live)

include books

theorem advance (count : Nat) :
    Books start (session.advance count) nodes allocated live :=
  { books with
    untouched := by
      obtain ⟨first, sameWorld, samePending⟩ := books.untouched
      refine ⟨first + count, ?_, ?_⟩ <;>
        rw [← Session.advance_advance] <;> simp only [Session.advance, sameWorld, samePending] }

theorem initStatus :
    session.world.runtime.initStatus = start.world.runtime.initStatus := by
  obtain ⟨count, sameWorld, _⟩ := books.untouched
  rw [sameWorld]
  exact foldl_run_initStatus _ start.world

theorem record {recorded : List GraphNode}
    (plain : ∀ node ∈ recorded, ∀ allocation, node ≠ .memFree allocation) :
    Books start { session with capture := some (chain (nodes ++ recorded)) } (nodes ++ recorded)
      allocated live :=
  { books with
    capturing := rfl
    allocates := fun base member =>
      have ⟨allocation, allocates, same⟩ := books.allocates base member
      ⟨allocation, mem_append_left _ allocates, same⟩
    freed := fun allocation member =>
      match mem_append.mp member with
      | .inl earlier => books.freed allocation earlier
      | .inr new => absurd rfl (plain _ new allocation) }

/-- An allocation that a stream which does not capture makes is recorded. -/
theorem malloc {buffer : Option Buffer} {size : BitVec 64} {allocation : GraphAllocation}
    {allocations : AllocationTable Buffer}
    (sameInit : idle.world.runtime.initStatus = session.world.runtime.initStatus)
    (done : MallocDone device status buffer size idle allocation allocations)
    (fresh : Fresh start allocation.base) (new : allocation.base ∉ allocated) :
    (cudaMallocAsync device status buffer size session).1 = .success ∧
      Books start (cudaMallocAsync device status buffer size session).2
        (nodes ++ [.memAlloc allocation]) (allocation.base :: allocated)
        (allocation.base :: live) := by
  have unknown : session.graphAllocations.contains allocation.base = false := by
    cases known : session.graphAllocations.contains allocation.base with
    | false => rfl
    | true =>
      rcases books.known _ known with earlier | before
      · exact absurd earlier new
      · rw [fresh.unknown] at before
        cases before
  have recorded : cudaMallocAsync device status buffer size session =
      (.success,
        { session.record (.memAlloc allocation) with
          graphAllocations := session.graphAllocations.emplace allocation.base allocation
          freePlaced := session.freePlaced.filter (· ≠ allocation.base) }) := by
    have capturing : session.capture.isSome = true := by rw [books.capturing]; rfl
    have initialized : ¬ session.world.runtime.initStatus ≠ .success :=
      not_not.mpr (sameInit ▸ done.initialized)
    obtain rfl := done.answered
    obtain rfl := done.answeredBuffer
    rw [cudaMallocAsync, if_neg done.sized, if_pos capturing, addMemAllocNode, if_neg initialized]
    simp only [done.made, unknown]
    rfl
  rw [recorded, record_eq books.capturing]
  refine ⟨rfl, ?_⟩
  exact {
    capturing := rfl
    untouched := books.untouched
    allocates := by
      intro base member
      rcases mem_cons.mp member with rfl | earlier
      · exact ⟨allocation, by simp, rfl⟩
      · obtain ⟨other, inside, same⟩ := books.allocates base earlier
        exact ⟨other, mem_append_left _ inside, same⟩
    freed := by
      intro other member
      have earlier : .memFree other ∈ nodes := by simpa using member
      obtain ⟨wasAllocated, notLive⟩ := books.freed other earlier
      refine ⟨mem_cons_of_mem _ wasAllocated, ?_⟩
      rw [mem_cons, not_or]
      exact ⟨fun same => new (same ▸ wasAllocated), notLive⟩
    known := by
      intro base known
      by_cases same : base = allocation.base
      · exact .inl (same ▸ mem_cons_self)
      · refine (books.known base ?_).imp_left (mem_cons_of_mem _)
        rwa [AssocMap.contains, AssocMap.emplace_of_fresh unknown, AssocMap.find?_append,
          AssocMap.find?, if_neg (Ne.symm same), AssocMap.find?_nil, Option.or_none] at known
    unplaced := by
      intro base member
      rcases mem_cons.mp member with rfl | earlier
      · simp
      · exact fun placed => books.unplaced base earlier (mem_filter.mp placed).1
    subset := cons_subset_cons _ books.subset }

/-- A free of an allocation that the capture has recorded and not freed. -/
theorem free {pointer : BitVec 64}
    (nonzero : pointer ≠ 0) (member : pointer ∈ live) :
    (cudaFreeAsync device pointer session).1 = .success ∧
      Books start (cudaFreeAsync device pointer session).2
        (nodes ++ recordedNodes device nodes (.freeAsync pointer)) allocated
        (live.filter (· ≠ pointer)) := by
  obtain ⟨allocation, found, same⟩ := capturedAllocation_chain (books.allocates pointer member)
  have unfreed : freesPointer (chain nodes) pointer = false := by
    rw [Bool.eq_false_iff, ne_eq, freesPointer_chain]
    rintro ⟨other, frees, rfl⟩
    exact (books.freed other frees).2 member
  have unplaced : session.freePlaced.contains pointer = false := by
    rw [Bool.eq_false_iff, ne_eq, contains_iff_mem]
    exact books.unplaced pointer member
  have recorded : cudaFreeAsync device pointer session =
      (.success,
        { session.record (.memFree allocation) with
          freePlaced := pointer :: session.freePlaced }) := by
    rw [cudaFreeAsync, if_neg nonzero, books.capturing]
    simp only [addMemFreeNode, unfreed, found, unplaced, Option.some_or]
    rfl
  have nodesSame : recordedNodes device nodes (.freeAsync pointer) = [.memFree allocation] := by
    rw [recordedNodes, if_neg nonzero, found]
    rfl
  rw [recorded, nodesSame, record_eq books.capturing]
  refine ⟨rfl, ?_⟩
  exact {
    capturing := rfl
    untouched := books.untouched
    allocates := by
      intro base kept
      obtain ⟨other, inside, named⟩ := books.allocates base (mem_filter.mp kept).1
      exact ⟨other, mem_append_left _ inside, named⟩
    freed := by
      intro other inside
      rcases mem_append.mp inside with earlier | now
      · obtain ⟨wasAllocated, notLive⟩ := books.freed other earlier
        exact ⟨wasAllocated, fun kept => notLive (mem_filter.mp kept).1⟩
      · obtain rfl : other = allocation := by simpa using now
        exact ⟨same ▸ books.subset member, by simp [same]⟩
    known := books.known
    unplaced := by
      intro base kept placed
      obtain ⟨wasLive, different⟩ := mem_filter.mp kept
      rcases mem_cons.mp placed with rfl | earlier
      · simp at different
      · exact books.unplaced base wasLive earlier
    subset := fun base kept => books.subset (mem_filter.mp kept).1 }

end

end Books

/-! ## Recorded calls leave the stream that captures alone -/

/-- The node that stands for a launch of a kernel, a copy or a fill. -/
def StreamCall.node? : StreamCall → Option GraphNode
  | .launchKernel launch => some (.kernel launch)
  | .memcpyAsync dst src count kind => some (.memcpy dst src count kind)
  | .memsetAsync devPtr value count => some (.memset devPtr value count)
  | _ => none

theorem StreamCall.of_node? {call : StreamCall} {node : GraphNode} (stands : call.node? = some node) :
    (∀ session, performCall device session call = performNode device node session) ∧
      (∀ nodes, recordedNodes device nodes call = recordedNode device node) ∧
      (call.Recorded device → node.Recorded device) ∧ ∀ nodes, call ≠ .graphLaunch nodes := by
  cases call <;> cases stands <;>
    exact ⟨fun _ => rfl, fun _ => rfl, id, fun _ same => by cases same⟩

theorem plain_of_recorded {node : GraphNode} (recorded : node.Recorded device) :
    ∀ other ∈ recordedNode device node, ∀ allocation, other ≠ .memFree allocation := by
  rintro other member allocation rfl
  cases node with
  | empty => cases member
  | kernel launch =>
    simp only [recordedNode] at member
    split at member
    · cases mem_singleton.mp member
    · cases member
  | memcpy dst src count kind => cases mem_singleton.mp member
  | memset dst value count => cases mem_singleton.mp member
  | _ => cases recorded

/-- A session of a stream that does not capture, with a runtime that was initialized as at the
start. -/
structure Idle (start session : Session) : Prop where
  capture : session.capture = none
  initStatus : session.world.runtime.initStatus = start.world.runtime.initStatus

namespace Idle

variable {start session : Session}

theorem apply (idle : Idle start session) (outcome : StreamOutcome) :
    Idle start (outcome.apply session).2 :=
  ⟨StreamOutcome.apply_capture.trans idle.capture,
    StreamOutcome.apply_initStatus.trans idle.initStatus⟩

theorem performNode (idle : Idle start session) {node : GraphNode}
    (recorded : node.Recorded device) : Idle start (performNode device node session).2 := by
  obtain ⟨outcome, same⟩ := performNode_uniform recorded session.world.runtime
  rw [same session idle.capture rfl]
  exact idle.apply outcome

theorem enqueue (idle : Idle start session) (task : StreamTask) :
    Idle start (enqueueStreamHostOp device task session).2 := by
  rcases enqueueStreamHostOp_cases device task with ⟨status, _, refused⟩ | taken
  · rw [refused]; exact idle
  · rw [taken]; exact ⟨idle.capture, idle.initStatus⟩

theorem advance (idle : Idle start session) (count : Nat) : Idle start (session.advance count) :=
  ⟨idle.capture, (foldl_run_initStatus _ session.world).trans idle.initStatus⟩

theorem launch {permits : GraphNode → Session → Prop} {nodes : List GraphNode} {next : Session}
    (launched : Launches device permits nodes session status next) :
    (∀ node ∈ nodes, node.Recorded device) → Idle start session → Idle start next := by
  induction launched with
  | done => exact fun _ idle => idle
  | work count _ ih => exact fun recorded idle => ih recorded (idle.advance count)
  | node _ performed _ ih =>
    intro recorded idle
    have stepped := idle.performNode (recorded _ mem_cons_self)
    rw [performed] at stepped
    exact ih (fun node member => recorded node (mem_cons_of_mem _ member)) stepped
  | failed _ performed _ =>
    intro recorded idle
    have stepped := idle.performNode (recorded _ mem_cons_self)
    rwa [performed] at stepped

theorem hostFunc (idle : Idle start session) (fn : HostFunction) :
    Idle start (cudaLaunchHostFunc device fn session).2 := by
  have notCapturing : ¬ session.capture.isSome = true := by rw [idle.capture]; exact Bool.false_ne_true
  rw [cudaLaunchHostFunc, if_neg notCapturing]
  split
  · exact idle
  · exact idle.enqueue _

theorem free (idle : Idle start session) (pointer : BitVec 64) :
    Idle start (cudaFreeAsync device pointer session).2 := by
  unfold cudaFreeAsync
  rw [idle.capture]
  split
  · exact idle
  · dsimp only
    split
    · exact idle
    · split
      · exact idle
      · split
        · exact idle
        · split
          · refine enqueue ?_ _
            exact ⟨rfl, idle.initStatus⟩
          · exact idle

end Idle

namespace Books

variable {start session next : Session} {nodes : List GraphNode}
  {allocated live : List (BitVec 64)}

theorem node (books : Books start session nodes allocated live) {node : GraphNode}
    (recorded : node.Recorded device) (companion : Idle start idle)
    (succeeds : (performNode device node idle).1 = .success) :
    (performNode device node session).1 = .success ∧
      Books start (performNode device node session).2 (nodes ++ recordedNode device node)
        allocated live := by
  rw [performNode_records recorded books.capturing companion.capture
    (companion.initStatus.trans books.initStatus.symm) succeeds]
  exact ⟨rfl, books.record (plain_of_recorded recorded)⟩

theorem launch {launched : List GraphNode}
    (run : Launches device (fun _ _ => True) launched session status next) :
    ∀ {nodes : List GraphNode} {idle : Session},
      Books start session nodes allocated live → (∀ node ∈ launched, node.Recorded device) →
      Idle start idle → LaunchSucceeds device launched idle →
      status = .success ∧
        Books start next (nodes ++ launched.flatMap (recordedNode device)) allocated live := by
  induction run with
  | done =>
    intro nodes idle books _ _ _
    exact ⟨rfl, by simpa using books⟩
  | work count _ ih =>
    intro nodes idle books recorded companion succeed
    exact ih (books.advance count) recorded companion succeed
  | node _ performed _ ih =>
    intro nodes idle books recorded companion succeed
    obtain ⟨succeeds, rest⟩ := succeed.cons
    obtain ⟨_, grown⟩ := books.node (recorded _ mem_cons_self) companion
      (congrArg Prod.fst succeeds)
    rw [performed] at grown
    rw [flatMap_cons, ← append_assoc]
    exact ih grown (fun node member => recorded node (mem_cons_of_mem _ member))
      (companion.performNode (recorded _ mem_cons_self)) rest
  | failed _ performed refused =>
    intro nodes idle books recorded companion succeed
    obtain ⟨succeeded, _⟩ := books.node (recorded _ mem_cons_self) companion
      (congrArg Prod.fst succeed.cons.1)
    rw [performed] at succeeded
    exact absurd succeeded refused

theorem hostFunc (books : Books start session nodes allocated live) {fn : HostFunction}  :
    (cudaLaunchHostFunc device fn session).1 = .success ∧
      Books start (cudaLaunchHostFunc device fn session).2 (nodes ++ [.host fn]) allocated live := by
  have capturing : session.capture.isSome = true := by rw [books.capturing]; rfl
  rw [cudaLaunchHostFunc, if_pos capturing, record_eq books.capturing]
  refine ⟨rfl, books.record ?_⟩
  intro node member allocation frees
  rw [frees] at member
  cases mem_singleton.mp member

theorem run {calls : List StreamCall} {statuses : List CudaError}
    (issued : Issues device calls session statuses next) :
    ∀ {nodes : List GraphNode} {allocated live : List (BitVec 64)} {idle : Session},
      Books start session nodes allocated live → (∀ call ∈ calls, call.Recorded device) →
      Placed device start allocated live calls → Idle start idle →
      AllSucceed device calls idle →
      ∃ allocated live,
        Books start next (nodes ++ recordedFrom device nodes calls) allocated live := by
  induction issued with
  | done =>
    intro nodes allocated live idle books _ _ _ _
    exact ⟨allocated, live, by simpa [recordedFrom] using books⟩
  | work count _ ih =>
    intro nodes allocated live idle books recorded placed companion succeed
    exact ih (books.advance count) recorded placed companion succeed
  | launch launched _ ih =>
    intro nodes allocated live idle books recorded placed companion succeed
    have nodesRecorded := recorded _ mem_cons_self
    have launchSucceeds : LaunchSucceeds device _ idle :=
      fun status last run => (succeed.launch run).1
    obtain ⟨_, grown⟩ := books.launch launched nodesRecorded companion launchSucceeds
    obtain ⟨status, after, companionRun⟩ :=
      @exists_launches device _ (fun _ _ _ => trivial) _ idle
    rw [recordedFrom, ← append_assoc]
    exact ih grown (fun call member => recorded call (mem_cons_of_mem _ member)) placed
      (Idle.launch companionRun nodesRecorded companion) (succeed.launch companionRun).2
  | @call call calls session last statuses single _ ih =>
    intro nodes allocated live idle books recorded placed companion succeed
    have callRecorded := recorded _ mem_cons_self
    have laterRecorded := fun call member => recorded call (mem_cons_of_mem _ member)
    obtain ⟨succeeds, rest⟩ := succeed.call single
    rw [recordedFrom, ← append_assoc]
    cases stands : call.node? with
    | some node =>
      obtain ⟨performs, records, nodeRecorded, _⟩ :=
        @StreamCall.of_node? device call node stands
      rw [performs] at succeeds rest
      rw [records]
      have grown := (books.node (nodeRecorded callRecorded) companion succeeds).2
      rw [← performs] at grown
      refine ih grown laterRecorded ?_ (companion.performNode (nodeRecorded callRecorded)) rest
      cases call <;> first | exact placed | cases stands
    | none =>
      cases call with
      | launchHostFunc fn =>
        exact ih books.hostFunc.2 laterRecorded placed (companion.hostFunc fn) rest
      | mallocAsync status buffer size =>
        obtain ⟨allocation, allocations, done⟩ :=
          cudaMallocAsync_done companion.capture succeeds
        have made : mallocAllocation device buffer size = some allocation := by
          rw [mallocAllocation, done.answeredBuffer, Option.bind_some, done.made]
        obtain ⟨⟨fresh, new⟩, later⟩ := placed allocation made
        have grown := (books.malloc (companion.initStatus.trans books.initStatus.symm) done
          fresh new).2
        have records : recordedNodes device nodes (.mallocAsync status buffer size) =
            [.memAlloc allocation] := by
          rw [recordedNodes, made]
          rfl
        rw [records]
        refine ih grown laterRecorded later ?_ rest
        rw [performCall, done.left]
        exact ⟨companion.capture, companion.initStatus⟩
      | freeAsync pointer =>
        have after := @Idle.free device start idle companion pointer
        by_cases null : pointer = 0
        · rw [Placed, if_pos null] at placed
          have nothing : performCall device session (.freeAsync pointer) =
              (.success, session) := by rw [performCall, cudaFreeAsync, if_pos null]
          rw [nothing] at ih
          have none_ : recordedNodes device nodes (.freeAsync pointer) = [] := by
            rw [recordedNodes, if_pos null]
          rw [none_, append_nil]
          exact ih books laterRecorded placed after rest
        · rw [Placed, if_neg null] at placed
          exact ih (books.free null placed.1).2 laterRecorded placed.2 after rest
      | launchKernel launch => cases stands
      | memcpyAsync dst src count kind => cases stands
      | memsetAsync devPtr value count => cases stands
      | graphLaunch launched => exact absurd rfl (single launched)
      | _ => cases callRecorded

end Books

end CuMetal.Runtime.Stream
