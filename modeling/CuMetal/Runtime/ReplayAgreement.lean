import CuMetal.Runtime.CaptureBooks

/-!
# A captured graph replays the calls

A launch of the graph that a capture recorded goes with a run of the same calls on a stream that
does not capture.
-/

namespace CuMetal.Runtime.Stream

open List Option Session

variable {device : Device}

/-- The worlds of a replay and of a direct run: the replay has some graph allocations active
besides. -/
structure WorldsAgree (live : List (BitVec 64)) (replay direct : World) : Prop where
  runtime : replay.runtime = direct.runtime
  pendingFrees : replay.pendingFrees = direct.pendingFrees
  active : replay.active = live ++ direct.active

variable {base : BitVec 64}

namespace WorldsAgree

variable {live : List (BitVec 64)} {replay direct : World}

theorem deactivate (agree : WorldsAgree live replay direct) (foreign : base ∉ live) :
    WorldsAgree live (deactivateGraphAllocation base replay).2
      (deactivateGraphAllocation base direct).2 := by
  have sameMember : base ∈ replay.active ↔ base ∈ direct.active := by
    rw [agree.active, mem_append, or_iff_right foreign]
  have kept : live.filter (· ≠ base) = live :=
    filter_eq_self.mpr fun other member =>
      decide_eq_true fun same => foreign (same ▸ member)
  unfold deactivateGraphAllocation
  by_cases inactive : base ∉ direct.active
  · rw [if_pos inactive, if_pos (mt sameMember.mp inactive)]
    exact agree
  · rw [if_neg inactive, if_neg (mt (mt sameMember.mpr) inactive), agree.runtime]
    cases direct.runtime.allocations.erase base with
    | none => exact agree
    | some allocations =>
      exact ⟨rfl, agree.pendingFrees, by
        dsimp only; rw [agree.active, filter_append, kept]⟩

theorem run (agree : WorldsAgree live replay direct) {task : StreamTask}
    (foreign : ∀ base, task = .release base true → base ∉ live) :
    WorldsAgree live (task.run replay) (task.run direct) := by
  cases task with
  | compute effect =>
    exact ⟨by simp only [StreamTask.run, agree.runtime], agree.pendingFrees, agree.active⟩
  | release pointer isGraphAllocation =>
    cases isGraphAllocation with
    | false =>
      exact ⟨by simp [StreamTask.run, agree.runtime],
        by simp [StreamTask.run, agree.pendingFrees], agree.active⟩
    | true =>
      have deactivated := agree.deactivate (foreign pointer rfl)
      exact ⟨deactivated.runtime,
        by simp [StreamTask.run, deactivated.pendingFrees], deactivated.active⟩

theorem runAll {tasks : List StreamTask} :
    ∀ {replay direct : World}, WorldsAgree live replay direct →
      (∀ base, .release base true ∈ tasks → base ∉ live) →
      WorldsAgree live (tasks.foldl StreamTask.run replay) (tasks.foldl StreamTask.run direct) := by
  induction tasks with
  | nil => exact fun agree _ => agree
  | cons task tasks ih =>
    intro replay direct agree foreign
    exact ih (agree.run fun base same => foreign base (same ▸ mem_cons_self))
      fun base member => foreign base (mem_cons_of_mem _ member)

end WorldsAgree

theorem zipWith_take_take (sizes : List Nat) :
    ∀ values : List (List UInt8),
      List.zipWith (fun size value => value.take size) sizes
        (List.zipWith (fun size value => value.take size) sizes values) =
      List.zipWith (fun size value => value.take size) sizes values := by
  induction sizes with
  | nil => intro values; rfl
  | cons size sizes ih =>
    intro values
    cases values with
    | nil => rfl
    | cons value values => simp [ih values, take_take]

/-- The arguments that a node keeps are cut to what the kernel reads of those of the launch. -/
theorem boundArguments_snapshot {launch : KernelLaunch} {arguments : Option (List (List UInt8))}
    (kept : snapshotGraphKernelArguments device launch = some arguments) :
    boundArguments (device.argumentSizes launch.func) arguments =
      boundArguments (device.argumentSizes launch.func) launch.arguments := by
  unfold snapshotGraphKernelArguments at kept
  dsimp only at kept
  split at kept
  · split at kept
    · next absent =>
        cases kept
        rw [isNone_iff_eq_none.mp absent]
    · cases kept
  · next sized =>
      split at kept
      · cases kept
      · next values given =>
          split at kept
          · cases kept
          · cases kept
            simp [boundArguments, sized, given, zipWith_take_take]

variable {session : Session} {pointer : BitVec 64}

/-- A recorded node does on a stream that does not capture what the call it stands for does. -/
theorem performNode_recordedNode {node other : GraphNode} (idle : session.capture = none)
    (recorded : recordedNode device node = [other]) :
    performNode device other session = performNode device node session := by
  cases node with
  | kernel launch =>
    simp only [recordedNode] at recorded
    split at recorded
    · next arguments kept =>
        cases recorded
        have notCapturing : ¬ session.capture.isSome = true := by rw [idle]; exact Bool.false_ne_true
        simp only [performNode, cudaLaunchKernel, if_neg notCapturing, KernelLaunch.wellFormed,
          launchUncaptured, boundArguments_snapshot kept]
    · cases recorded
  | empty => cases recorded
  | _ => cases recorded; rfl

/-- A pointer to the first byte of an allocation is one that can be erased. -/
theorem erase_of_resolve {table : AllocationTable Buffer} {resolved : ResolvedAllocation Buffer}
    (found : table.resolve pointer = some resolved) (atBase : resolved.offset = 0) :
    ∃ allocations, table.erase pointer = some allocations := by
  unfold AllocationTable.resolve at found
  split at found
  · cases found
  · next nonzero =>
      split at found
      · cases found
      · next base entry bound =>
          split at found
          · cases found
          · cases found
            obtain rfl : pointer = base := by
              have zero : pointer - base = 0 := atBase
              bv_omega
            have here : table.find pointer = some (pointer, entry) :=
              table.find_eq_some_iff.mpr ⟨(table.beforeUpperBound_spec bound).1.1, rfl⟩
            exact ⟨_, by rw [AllocationTable.erase, if_neg nonzero, here]⟩

/-- What a `cudaFreeAsync` that succeeds on a stream that does not capture found and left. -/
theorem cudaFreeAsync_done (nonzero : pointer ≠ 0) (idle : session.capture = none)
    (succeeds : (cudaFreeAsync device pointer session).1 = .success) :
    (∃ allocations, session.world.runtime.allocations.erase pointer = some allocations) ∧
      (cudaFreeAsync device pointer session).2 =
        { session with
          world := { session.world with pendingFrees := pointer :: session.world.pendingFrees }
          pending := session.pending ++
            [.release pointer (session.graphAllocations.contains pointer)] } := by
  unfold cudaFreeAsync at succeeds ⊢
  rw [if_neg nonzero, idle] at succeeds ⊢
  dsimp only at succeeds ⊢
  split at succeeds
  · cases succeeds
  · next resolved found =>
      split at succeeds
      · cases succeeds
      · next atBase =>
          split at succeeds
          · cases succeeds
          · next unfreed =>
              refine ⟨erase_of_resolve found (not_not.mp atBase), ?_⟩
              rw [if_neg atBase, if_neg unfreed]
              rcases enqueueStreamHostOp_cases device
                  (.release pointer (session.graphAllocations.contains pointer)) with
                ⟨status, failed, refused⟩ | taken
              · simp only [refused, if_neg failed] at succeeds
                exact absurd succeeds failed
              · simp only [taken, if_true]
                rfl

/-! ## Sessions that go together -/

/-- A session of the replay and one of the direct run, where the graph allocations in `live` are
active in the replay and plain allocations in the direct run. -/
structure Related (start : Session) (live : List (BitVec 64)) (replay direct : Session) : Prop where
  worlds : WorldsAgree live replay.world direct.world
  pending : replay.pending = direct.pending
  replayIdle : replay.capture = none
  directIdle : direct.capture = none
  graphAllocations : direct.graphAllocations = start.graphAllocations
  stillActive : direct.world.active ⊆ start.world.active
  releases : ∀ base, .release base true ∈ direct.pending → .release base true ∈ start.pending
  fresh : ∀ base ∈ live, Fresh start base

variable {launched : List GraphNode} {fn : HostFunction} {buffer : Option Buffer} {size : BitVec 64}

namespace Related

variable {start replay direct : Session} {live : List (BitVec 64)}

theorem mem_active_of_runAll (tasks : List StreamTask) :
    ∀ {world : World}, base ∈ (tasks.foldl StreamTask.run world).active → base ∈ world.active := by
  induction tasks with
  | nil => exact fun member => member
  | cons task tasks ih => exact fun member => mem_active_of_run (ih member)

section

variable (related : Related start live replay direct)
include related

theorem advance (count : Nat) : Related start live (replay.advance count) (direct.advance count) :=
  { related with
    worlds := by
      unfold Session.advance
      rw [related.pending]
      exact related.worlds.runAll fun base member inLive =>
        (related.fresh base inLive).unreleased (related.releases base (mem_of_mem_take member))
    pending := by simp only [Session.advance, related.pending]
    stillActive := fun base member => related.stillActive (mem_active_of_runAll _ member)
    releases := fun base member => related.releases base (mem_of_mem_drop member) }

theorem push (effect : AllocationTable Buffer → ByteMemory → ByteMemory) :
    Related start live (replay.push (.compute effect)) (direct.push (.compute effect)) :=
  { related with
    pending := by simp only [Session.push, related.pending]
    releases := by
      intro base member
      rcases mem_append.mp member with before | now
      · exact related.releases base before
      · cases mem_singleton.mp now }

theorem drained : Related start live replay.drained direct.drained := by
  rw [drained_eq_advance, drained_eq_advance, related.pending]
  exact related.advance _

theorem apply (outcome : StreamOutcome) :
    (outcome.apply replay).1 = (outcome.apply direct).1 ∧
      Related start live (outcome.apply replay).2 (outcome.apply direct).2 := by
  cases outcome with
  | left status => exact ⟨rfl, related⟩
  | pushed effect => exact ⟨rfl, related.push effect⟩
  | completed status effect => exact ⟨rfl, (related.push effect).drained⟩

theorem performNode {node : GraphNode} (recorded : node.Recorded device) :
    (performNode device node replay).1 = (performNode device node direct).1 ∧
      Related start live (performNode device node replay).2
        (performNode device node direct).2 := by
  obtain ⟨outcome, same⟩ := performNode_uniform recorded direct.world.runtime
  rw [same replay related.replayIdle related.worlds.runtime, same direct related.directIdle rfl]
  exact related.apply outcome

end

variable {permits : GraphNode → Session → Prop} {rest : List GraphNode} {last : Session}
  {status : CudaError}

/-- The replay of a recorded node goes with the node itself at some point of the stream's work. -/
theorem recordedNode (related : Related start live replay direct) {node : GraphNode}
    (recorded : node.Recorded device)
    (succeeds : ∀ count, (Stream.performNode device node (direct.advance count)).1 = .success)
    (launch : Launches device permits (Stream.recordedNode device node ++ rest) replay status
      last) :
    ∃ count next,
      Related start live next (Stream.performNode device node (direct.advance count)).2 ∧
        Launches device permits rest next status last := by
  have single : node = .empty ∨ ∃ other, Stream.recordedNode device node = [other] := by
    cases node with
    | empty => exact .inl rfl
    | kernel kernel =>
      obtain ⟨arguments, kept⟩ := isSome_iff_exists.mp recorded
      exact .inr ⟨.kernel { kernel with arguments }, by simp only [Stream.recordedNode, kept]⟩
    | memcpy dst src count kind => exact .inr ⟨_, rfl⟩
    | memset dst value count => exact .inr ⟨_, rfl⟩
    | _ => cases recorded
  rcases single with rfl | ⟨other, alone⟩
  · exact ⟨0, replay, related, launch⟩
  · rw [alone] at launch
    obtain ⟨count, _, outcome⟩ := launches_cons launch
    have moved := related.advance count
    obtain ⟨sameStatus, after⟩ := moved.performNode recorded
    rw [succeeds count] at sameStatus
    rw [performNode_recordedNode moved.replayIdle alone] at outcome
    rcases outcome with ⟨performed, failed⟩ | ⟨next, performed, later⟩
    · rw [performed] at sameStatus
      exact absurd sameStatus failed
    · rw [performed] at after
      exact ⟨count, next, after, later⟩

/-- The replay of the nodes that a launch of a graph recorded goes with a launch of the graph. -/
theorem graph :
    ∀ {replay direct : Session}, Related start live replay direct →
      (∀ node ∈ launched, node.Recorded device) → LaunchSucceeds device launched direct →
      Launches device permits (launched.flatMap (Stream.recordedNode device) ++ rest) replay status
        last →
      ∃ next after, Related start live next after ∧
        Launches device (fun _ _ => True) launched direct .success after ∧
        Launches device permits rest next status last := by
  induction launched with
  | nil =>
    intro replay direct related _ _ launch
    exact ⟨replay, direct, related, .done, launch⟩
  | cons node launched ih =>
    intro replay direct related recorded succeed launch
    rw [flatMap_cons, append_assoc] at launch
    obtain ⟨count, next, after, later⟩ :=
      related.recordedNode (recorded _ mem_cons_self)
        (fun count => congrArg Prod.fst (succeed.advance count).cons.1) launch
    obtain ⟨performed, restSucceeds⟩ := (succeed.advance count).cons
    obtain ⟨finalNext, finalAfter, agree, run, remaining⟩ :=
      ih after (fun node member => recorded node (mem_cons_of_mem _ member)) restSucceeds
        later
    exact ⟨finalNext, finalAfter, agree, .work count (.node trivial performed run), remaining⟩

theorem hostFunc (related : Related start live replay direct)
    (synchronizes : device.backend.synchronize = .success)
    (succeeds : (cudaLaunchHostFunc device fn direct).1 = .success) :
    ∃ count, (Stream.performNode device (.host fn) replay).1 = .success ∧
      Related start live (Stream.performNode device (.host fn) replay).2
        ((cudaLaunchHostFunc device fn direct).2.advance count) := by
  have notCapturing : ¬ direct.capture.isSome = true := by
    rw [related.directIdle]; exact Bool.false_ne_true
  rw [cudaLaunchHostFunc, if_neg notCapturing] at succeeds ⊢
  split at succeeds
  · next bad => exact absurd succeeds bad
  · next initialized =>
      unfold enqueueStreamHostOp at succeeds ⊢
      split at succeeds
      · next bad => exact absurd succeeds bad
      · next resolved =>
          split at succeeds
          · next bad => exact absurd succeeds bad
          · next taken =>
              have performed : Stream.performNode device (.host fn) replay =
                  (.success, (replay.push (.compute fun _ => fn)).drained) := by
                simp only [Stream.performNode, related.worlds.runtime, if_neg initialized,
                  if_neg resolved, synchronizes, ne_eq, not_true, if_false]
              rw [performed, if_neg initialized, if_neg resolved, if_neg taken]
              exact ⟨_, rfl, by
                rw [← drained_eq_advance]; exact (related.push _).drained⟩

variable {allocation : GraphAllocation}

/-- The activation of a graph allocation goes with the allocation of its buffer. -/
theorem malloc (related : Related start live replay direct) {allocated : CudaError}
    {allocations : AllocationTable Buffer}
    (done : MallocDone device allocated buffer size direct allocation allocations)
    (fresh : Fresh start allocation.base) (new : allocation.base ∉ live) :
    (Stream.performNode device (.memAlloc allocation) replay).1 = .success ∧
      Related start (allocation.base :: live)
        (Stream.performNode device (.memAlloc allocation) replay).2
        (cudaMallocAsync device allocated buffer size direct).2 := by
  have absent : replay.world.active.contains allocation.base = false := by
    rw [Bool.eq_false_iff, ne_eq, contains_iff_mem, related.worlds.active, mem_append]
    rintro (inLive | inDirect)
    · exact new inLive
    · exact fresh.inactive (related.stillActive inDirect)
  have activates : activateGraphAllocation { allocation with active := false }
      replay.world.runtime.allocations = (.success, allocations) := by
    rw [related.worlds.runtime, ← done.activates, ← done.inactive]
  rw [done.left]
  simp only [Stream.performNode, absent, activates, if_true]
  refine ⟨trivial, ?_⟩
  exact {
    worlds := ⟨by rw [related.worlds.runtime], related.worlds.pendingFrees, by
      rw [related.worlds.active]; rfl⟩
    pending := related.pending
    replayIdle := related.replayIdle
    directIdle := related.directIdle
    graphAllocations := related.graphAllocations
    stillActive := related.stillActive
    releases := related.releases
    fresh := by
      intro base member
      rcases mem_cons.mp member with rfl | earlier
      · exact fresh
      · exact related.fresh base earlier }

/-- A free node on a stream without work goes with the free and the stream's end of it. -/
theorem free (related : Related start live replay direct) (idle : replay.pending = [])
    (nonzero : pointer ≠ 0) (member : pointer ∈ live) (named : allocation.base = pointer)
    (succeeds : (cudaFreeAsync device pointer direct).1 = .success) :
    (Stream.performNode device (.memFree allocation) replay).1 = .success ∧
      Related start (live.filter (· ≠ pointer))
        (Stream.performNode device (.memFree allocation) replay).2
        ((cudaFreeAsync device pointer direct).2.advance 1) := by
  obtain ⟨⟨allocations, erased⟩, left⟩ := cudaFreeAsync_done nonzero related.directIdle succeeds
  have fresh := related.fresh pointer member
  have plain : direct.graphAllocations.contains pointer = false := by
    rw [related.graphAllocations]; exact fresh.unknown
  have active : ¬ pointer ∉ replay.world.active := by
    rw [related.worlds.active, not_not]
    exact mem_append_left _ member
  have foreign : direct.world.active.filter (· ≠ pointer) = direct.world.active :=
    filter_eq_self.mpr fun base inside =>
      decide_eq_true fun same => fresh.inactive (related.stillActive (same ▸ inside))
  have performed : deactivateGraphAllocation pointer replay.world =
      (.success,
        { replay.world with
          runtime := { replay.world.runtime with allocations }
          active := replay.world.active.filter (· ≠ pointer) }) := by
    rw [deactivateGraphAllocation, if_neg active, related.worlds.runtime, erased]
  have directIdle : direct.pending = [] := related.pending.symm.trans idle
  rw [left, plain, directIdle]
  simp only [Stream.performNode, named, performed]
  refine ⟨trivial, ?_⟩
  exact {
    worlds := ⟨by
        simp [Session.advance, StreamTask.run, erased, related.worlds.runtime],
      by simp [Session.advance, StreamTask.run, related.worlds.pendingFrees],
      by
        simp only [Session.advance, related.worlds.active, filter_append, foreign]
        rfl⟩
    pending := by rw [idle]; rfl
    replayIdle := related.replayIdle
    directIdle := related.directIdle
    graphAllocations := related.graphAllocations
    stillActive := related.stillActive
    releases := fun base inside => by cases inside
    fresh := fun base kept => related.fresh base (mem_filter.mp kept).1 }

end Related

/-! ## Replays -/

/-- A node may be gone through at any time, but one that frees only when the stream has no work
left. -/
def FreesWhenIdle : GraphNode → Session → Prop
  | .memFree _, session => session.pending = []
  | _, _ => True

theorem launches_cons_of_success {permits : GraphNode → Session → Prop} {node : GraphNode}
    {nodes : List GraphNode} {last : Session} {status : CudaError}
    (launch : Launches device permits (node :: nodes) session status last)
    (succeeds : ∀ count, permits node (session.advance count) → (performNode device node
      (session.advance count)).1 = .success) :
    ∃ count, permits node (session.advance count) ∧
      Launches device permits nodes (performNode device node (session.advance count)).2 status
        last := by
  obtain ⟨count, permitted, ⟨same, failed⟩ | ⟨next, same, later⟩⟩ := launches_cons launch
  · have succeeded := succeeds count permitted
    rw [same] at succeeded
    exact absurd succeeded failed
  · exact ⟨count, permitted, by rw [same]; exact later⟩

def Completes (device : Device) (call : StreamCall) (direct after : Session) : Prop :=
  ∃ status, ∀ calls statuses final, Issues device calls after statuses final →
    Issues device (call :: calls) direct (status :: statuses) final

namespace Completes

variable {call : StreamCall} {direct after : Session}

theorem allSucceed {calls : List StreamCall} (completes : Completes device call direct after)
    (succeed : AllSucceed device (call :: calls) direct) : AllSucceed device calls after := by
  obtain ⟨status, extends_⟩ := completes
  intro statuses last run status member
  exact succeed _ last (extends_ _ _ _ run) status (mem_cons_of_mem _ member)

theorem of_call (single : ∀ nodes, call ≠ .graphLaunch nodes) (before count : Nat) :
    Completes device call direct
      ((performCall device (direct.advance before) call).2.advance count) :=
  ⟨_, fun _ _ _ run => .work before (.call single (.work count run))⟩

end Completes

/-- The sessions of a replay and a direct run, after nodes for allocations of which some are not
freed. -/
structure Along (start : Session) (nodes : List GraphNode) (allocated live : List (BitVec 64))
    (replay direct : Session) : Prop where
  related : Related start live replay direct
  subset : live ⊆ allocated
  allocates : ∀ base ∈ live, ∃ allocation, .memAlloc allocation ∈ nodes ∧ allocation.base = base

namespace Along

variable {start replay direct last : Session} {nodes rest : List GraphNode}
  {allocated live : List (BitVec 64)} {calls : List StreamCall} {status : CudaError}

/-- The replay and the direct run are past a call. -/
def Past (device : Device) (start : Session) (nodes : List GraphNode) (call : StreamCall)
    (calls : List StreamCall) (rest : List GraphNode) (direct : Session) (status : CudaError)
    (last : Session) : Prop :=
  ∃ allocated live next after,
    Along start (nodes ++ recordedNodes device nodes call) allocated live next after ∧
      Placed device start allocated live calls ∧ Completes device call direct after ∧
      Launches device FreesWhenIdle rest next status last

section

variable (along : Along start nodes allocated live replay direct)

include along

theorem append {remaining : List (BitVec 64)} {next after : Session} (kept : remaining ⊆ live)
    (related : Related start remaining next after) (more : List GraphNode) :
    Along start (nodes ++ more) allocated remaining next after where
  related := related
  subset := fun _ member => along.subset (kept member)
  allocates := fun base member =>
    have ⟨allocation, inside, same⟩ := along.allocates base (kept member)
    ⟨allocation, mem_append_left _ inside, same⟩

theorem node {call : StreamCall}
    {node : GraphNode} (stands : call.node? = some node) (recorded : call.Recorded device)
    (placed : Placed device start allocated live (call :: calls))
    (succeed : AllSucceed device (call :: calls) direct)
    (launch : Launches device FreesWhenIdle (recordedNodes device nodes call ++ rest) replay status
      last) : Past device start nodes call calls rest direct status last := by
  obtain ⟨performs, records, nodeRecorded, single⟩ := @StreamCall.of_node? device call node stands
  have succeeds : ∀ count, (performNode device node (direct.advance count)).1 = .success :=
    fun count => performs (direct.advance count) ▸ ((succeed.advance count).call single).1
  have laterPlaced : Placed device start allocated live calls := by
    cases call <;> first | exact placed | cases stands
  rw [records] at launch
  obtain ⟨count, next, after, later⟩ :=
    along.related.recordedNode (nodeRecorded recorded) succeeds launch
  rw [← performs] at after
  exact ⟨allocated, live, next, _, along.append (Subset.refl _) after _, laterPlaced,
    Completes.of_call single count 0, later⟩

theorem hostFunc (synchronizes : device.backend.synchronize = .success)
    (placed : Placed device start allocated live calls)
    (succeed : AllSucceed device (.launchHostFunc fn :: calls) direct)
    (launch : Launches device FreesWhenIdle (.host fn :: rest) replay status last) :
    Past device start nodes (.launchHostFunc fn) calls rest direct status last := by
  have single : ∀ nodes, StreamCall.launchHostFunc fn ≠ .graphLaunch nodes :=
    fun _ same => by cases same
  have step := fun count => (along.related.advance count).hostFunc synchronizes
    ((succeed.advance count).call single).1
  obtain ⟨count, _, later⟩ :=
    launches_cons_of_success launch fun count _ => (step count).choose_spec.1
  obtain ⟨drain, _, after⟩ := step count
  exact ⟨allocated, live, _, _, along.append (Subset.refl _) after _, placed,
    Completes.of_call single count drain, later⟩

theorem malloc {answer : CudaError}
    (placed : Placed device start allocated live (.mallocAsync answer buffer size :: calls))
    (succeed : AllSucceed device (.mallocAsync answer buffer size :: calls) direct)
    (launch : Launches device FreesWhenIdle (recordedNodes device nodes (.mallocAsync answer
      buffer size) ++ rest) replay status last) :
    Past device start nodes (.mallocAsync answer buffer size) calls rest direct status last := by
  have single : ∀ nodes, StreamCall.mallocAsync answer buffer size ≠ .graphLaunch nodes :=
    fun _ same => by cases same
  have made : ∀ count, ∃ allocation allocations,
      mallocAllocation device buffer size = some allocation ∧
        MallocDone device answer buffer size (direct.advance count) allocation allocations := by
    intro count
    obtain ⟨allocation, allocations, done⟩ :=
      cudaMallocAsync_done (along.related.advance count).directIdle
        ((succeed.advance count).call single).1
    refine ⟨allocation, allocations, ?_, done⟩
    rw [mallocAllocation, done.answeredBuffer, bind_some, done.made]
  obtain ⟨allocation, _, found, _⟩ := made 0
  have records : recordedNodes device nodes (.mallocAsync answer buffer size) =
      [.memAlloc allocation] := by
    rw [recordedNodes, found]
    rfl
  obtain ⟨⟨fresh, new⟩, laterPlaced⟩ := placed allocation found
  have step : ∀ count,
      (performNode device (.memAlloc allocation) (replay.advance count)).1 = .success ∧
        Related start (allocation.base :: live)
          (performNode device (.memAlloc allocation) (replay.advance count)).2
          (cudaMallocAsync device answer buffer size (direct.advance count)).2 := by
    intro count
    obtain ⟨same, allocations, again, done⟩ := made count
    obtain rfl : same = allocation := some_injective _ (again.symm.trans found)
    exact (along.related.advance count).malloc done fresh fun inside => new (along.subset inside)
  rw [records] at launch
  obtain ⟨count, _, later⟩ := launches_cons_of_success launch fun count _ => (step count).1
  refine ⟨_, _, _, _, ?_, laterPlaced, Completes.of_call single count 0, later⟩
  exact {
    related := (step count).2
    subset := cons_subset_cons _ along.subset
    allocates := by
      intro base member
      rcases mem_cons.mp member with rfl | earlier
      · exact ⟨allocation, by rw [records]; simp, rfl⟩
      · obtain ⟨other, inside, same⟩ := along.allocates base earlier
        exact ⟨other, mem_append_left _ inside, same⟩ }

theorem free (placed : Placed device start allocated live (.freeAsync pointer :: calls))
    (succeed : AllSucceed device (.freeAsync pointer :: calls) direct)
    (launch : Launches device FreesWhenIdle (recordedNodes device nodes (.freeAsync pointer) ++
      rest) replay status last) :
    Past device start nodes (.freeAsync pointer) calls rest direct status last := by
  have single : ∀ nodes, StreamCall.freeAsync pointer ≠ .graphLaunch nodes :=
    fun _ same => by cases same
  by_cases null : pointer = 0
  · rw [Placed, if_pos null] at placed
    rw [recordedNodes, if_pos null, nil_append] at launch
    refine ⟨allocated, live, replay, direct, along.append (Subset.refl _) along.related _,
      placed, ?_, launch⟩
    have nothing : performCall device direct (.freeAsync pointer) = (.success, direct) := by
      rw [performCall, cudaFreeAsync, if_pos null]
    have completes := @Completes.of_call device _ direct single 0 0
    rwa [advance_zero, advance_zero, nothing] at completes
  · rw [Placed, if_neg null] at placed
    obtain ⟨member, laterPlaced⟩ := placed
    obtain ⟨allocation, found, named⟩ := capturedAllocation_chain (along.allocates pointer member)
    rw [recordedNodes, if_neg null, found] at launch
    have step := fun count idle => (along.related.advance count).free idle null member named
      ((succeed.advance count).call single).1
    obtain ⟨count, idle, later⟩ :=
      launches_cons_of_success launch fun count idle => (step count idle).1
    have kept : live.filter (· ≠ pointer) ⊆ live :=
      fun base inside => (mem_filter.mp inside).1
    exact ⟨allocated, _, _, _, along.append kept (step count idle).2 _, laterPlaced,
      Completes.of_call single count 1, later⟩

theorem graph (recorded : ∀ node ∈ launched, node.Recorded device)
    (placed : Placed device start allocated live calls)
    (succeed : AllSucceed device (.graphLaunch launched :: calls) direct)
    (launch : Launches device FreesWhenIdle (launched.flatMap (recordedNode device) ++ rest)
      replay status last) :
    Past device start nodes (.graphLaunch launched) calls rest direct status last := by
  obtain ⟨next, after, agree, run, later⟩ :=
    along.related.graph recorded (fun status last run => (succeed.launch run).1) launch
  exact ⟨allocated, live, next, after, along.append (Subset.refl _) agree _, placed,
    ⟨.success, fun _ _ _ => .launch run⟩, later⟩

theorem call (synchronizes : device.backend.synchronize = .success) {call : StreamCall}
    (recorded : call.Recorded device) (placed : Placed device start allocated live (call :: calls))
    (succeed : AllSucceed device (call :: calls) direct)
    (launch : Launches device FreesWhenIdle (recordedNodes device nodes call ++ rest) replay status
      last) : Past device start nodes call calls rest direct status last := by
  cases call with
  | launchKernel kernel => exact along.node rfl recorded placed succeed launch
  | memcpyAsync dst src count kind => exact along.node rfl recorded placed succeed launch
  | memsetAsync devPtr value count => exact along.node rfl recorded placed succeed launch
  | launchHostFunc fn => exact along.hostFunc synchronizes placed succeed launch
  | mallocAsync answer buffer size => exact along.malloc placed succeed launch
  | freeAsync pointer => exact along.free placed succeed launch
  | graphLaunch launched => exact along.graph recorded placed succeed launch
  | _ => cases recorded

end

/-- A launch of the nodes that calls recorded goes with a run of the calls. -/
theorem run (synchronizes : device.backend.synchronize = .success) (calls : List StreamCall) :
    ∀ {nodes : List GraphNode} {allocated live : List (BitVec 64)} {replay direct : Session},
      Along start nodes allocated live replay direct → (∀ call ∈ calls, call.Recorded device) →
      Placed device start allocated live calls → AllSucceed device calls direct →
      Launches device FreesWhenIdle (recordedFrom device nodes calls) replay status last →
      status = .success ∧ ∃ statuses final live,
        Issues device calls direct statuses final ∧ Related start live last final := by
  induction calls with
  | nil =>
    intro nodes allocated live replay direct along _ _ _ launch
    obtain ⟨succeeded, count, rfl⟩ := launches_nil launch
    exact ⟨succeeded, [], _, live, .work count .done, along.related.advance count⟩
  | cons call calls ih =>
    intro nodes allocated live replay direct along recorded placed succeed launch
    obtain ⟨laterAllocated, laterLive, next, after, grown, laterPlaced, completes, later⟩ :=
      along.call synchronizes (recorded call mem_cons_self) placed succeed launch
    obtain ⟨succeeded, statuses, final, finalLive, issued, agree⟩ :=
      ih grown (fun call member => recorded call (mem_cons_of_mem _ member)) laterPlaced
        (completes.allSucceed succeed) later
    obtain ⟨status, extends_⟩ := completes
    exact ⟨succeeded, _, final, finalLive, extends_ _ _ _ issued, agree⟩

end Along

/-- The calls only lengthen the graph while the stream captures, however it gets on with its work,
and every launch of the graph that they leave succeeds and ends where a run of the calls on a stream
that does not capture can end. -/
structure Faithful (device : Device) (permits : GraphNode → Session → Prop)
    (calls : List StreamCall) (start : Session) : Prop where
  noEffect : ∀ statuses last, Issues device calls start.beginCapture statuses last →
    ∃ count, last.world = (start.advance count).world ∧
      last.pending = (start.advance count).pending
  replays : ∀ statuses last, Issues device calls start.beginCapture statuses last →
    ∃ graph nodes, last.capture = some graph ∧ cudaGraphInstantiate graph = some nodes ∧
      (∃ status final, Launches device permits nodes last.endCapture status final) ∧
      ∀ status final, Launches device permits nodes last.endCapture status final →
        status = .success ∧ ∃ statuses direct, Issues device calls start statuses direct ∧
          final.world.runtime = direct.world.runtime ∧ final.pending = direct.pending

theorem Related.begin {start : Session} {count : Nat} (idle : start.capture = none)
    (sameWorld : session.world = (start.advance count).world)
    (samePending : session.pending = (start.advance count).pending) :
    Related start [] session.endCapture (start.advance count) where
  worlds := ⟨congrArg World.runtime sameWorld, congrArg World.pendingFrees sameWorld,
    congrArg World.active sameWorld⟩
  pending := samePending
  replayIdle := rfl
  directIdle := idle
  graphAllocations := rfl
  stillActive := fun _ member => Related.mem_active_of_runAll _ member
  releases := fun _ member => mem_of_mem_drop member
  fresh := fun _ member => by cases member

/-- Capture is faithful for calls that look for a capture and succeed on the stream, with
allocations that get buffers of their own and frees of these, where frees wait for the stream. -/
theorem capture_faithful {calls : List StreamCall} {start : Session}
    (notCapturing : start.capture = none) (synchronizes : device.backend.synchronize = .success)
    (recorded : ∀ call ∈ calls, call.Recorded device) (succeed : AllSucceed device calls start)
    (placed : Placed device start [] [] calls) :
    Faithful device FreesWhenIdle calls start := by
  have captured : ∀ statuses last, Issues device calls start.beginCapture statuses last →
      ∃ allocated live, Books start last (recordedFrom device [] calls) allocated live :=
    fun statuses last issued =>
      Books.run issued (Books.begin start) recorded placed ⟨notCapturing, rfl⟩ succeed
  constructor
  · intro statuses last issued
    obtain ⟨_, _, books⟩ := captured statuses last issued
    exact books.untouched
  · intro statuses last issued
    obtain ⟨_, _, books⟩ := captured statuses last issued
    obtain ⟨count, sameWorld, samePending⟩ := books.untouched
    refine ⟨_, _, books.capturing, cudaGraphInstantiate_chain _, ?_, ?_⟩
    · refine exists_launches ?_ _ _
      intro node session idle
      cases node <;> first | exact idle | exact trivial
    · intro status final launch
      have along : Along start [] [] [] last.endCapture (start.advance count) :=
        ⟨Related.begin notCapturing sameWorld samePending, fun _ member => member,
          fun _ member => by cases member⟩
      obtain ⟨succeeded, directStatuses, direct, _, run, related⟩ :=
        along.run synchronizes calls recorded placed (succeed.advance count) launch
      exact ⟨succeeded, directStatuses, direct, .work count run, related.worlds.runtime,
        related.pending⟩

def storeDevice : Device where
  backend := ⟨.success, .success, .success, .success⟩
  useMetalDeviceAddresses := false
  argumentSizes _ := [4]
  submitKernel _ _ := .enqueued fun memory => memory.write 0x100 [1]
  lookupSymbol _ := none

/-- A stream without work in a runtime without allocations. -/
def emptySession : Session where
  world := ⟨⟨.success, .empty, fun _ => 0⟩, [], []⟩
  pending := []
  graphAllocations := []
  freePlaced := []
  capture := none

/-- A fill of pageable memory, an allocation and its free, and a host function. -/
def fillAndFree : List StreamCall :=
  [.memsetAsync 16 7 8, .mallocAsync .success (some ⟨1, 0x1000, 0x2000⟩) 64, .freeAsync 0x1000,
    .launchHostFunc fun memory => memory.write 24 [1]]

theorem fillAndFree_succeed : AllSucceed storeDevice fillAndFree emptySession := by
  refine .cons nofun fun count => ?_
  rw [advance_of_idle rfl]
  refine ⟨by decide, .cons nofun fun count => ?_⟩
  rw [advance_of_idle rfl]
  refine ⟨by decide, .cons nofun fun count => ?_⟩
  rw [advance_of_idle rfl]
  refine ⟨by decide, .cons nofun fun count => ⟨?_, .nil⟩⟩
  generalize freed : (performCall storeDevice _ (.freeAsync 0x1000)).2 = session
  have notCapturing : ¬ (session.advance count).capture.isSome = true := by
    rw [advance_capture, ← freed]
    decide
  have initialized : ¬ (session.advance count).world.runtime.initStatus ≠ .success := by
    refine not_not.mpr ((foldl_run_initStatus _ _).trans ?_)
    rw [← freed]
    decide
  rw [performCall, cudaLaunchHostFunc, if_neg notCapturing, if_neg initialized]
  rfl

theorem capture_faithful_fillAndFree :
    Faithful storeDevice FreesWhenIdle fillAndFree emptySession := by
  refine capture_faithful rfl rfl ?_ fillAndFree_succeed ?_
  · intro call member
    simp only [fillAndFree, mem_cons, not_mem_nil, or_false] at member
    rcases member with rfl | rfl | rfl | rfl <;> exact trivial
  · intro allocation made
    obtain rfl : (⟨⟨1, 0x1000, 0x2000⟩, 0x1000, 0x2000, 64, false⟩ : GraphAllocation) =
        allocation := some_injective _ made
    exact ⟨⟨⟨rfl, not_mem_nil, not_mem_nil⟩, not_mem_nil⟩, mem_cons_self,
      trivial⟩

/-- A fill of rows does not look for a capture. -/
theorem capture_faithful_fails : ¬ ∀ (device : Device) (calls : List StreamCall) (start : Session),
    start.capture = none → device.backend.synchronize = .success →
    AllSucceed device calls start → Faithful device (fun _ _ => True) calls start := by
  intro faithful
  have succeed : AllSucceed storeDevice [.memset2DAsync 16 1 7 1 1] emptySession := by
    refine .cons nofun fun count => ?_
    rw [advance_of_idle rfl]
    exact ⟨by decide, .nil⟩
  obtain ⟨count, sameWorld, _⟩ := (faithful storeDevice _ emptySession rfl rfl succeed).noEffect _ _
    (.call nofun .done)
  rw [advance_of_idle rfl] at sameWorld
  have sameByte := congrArg (fun world => world.runtime.memory 16) sameWorld
  revert sameByte
  decide

end CuMetal.Runtime.Stream
