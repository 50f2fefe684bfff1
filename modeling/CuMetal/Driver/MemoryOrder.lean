import CuMetal.Driver.MemoryCalls
import CuMetal.Runtime.SynchronousFacts

/-!
# Order of the driver's memory calls

A program that puts work on streams, captures, and makes memory calls of the driver in between. The
streams carry out their work meanwhile.
-/

namespace CuMetal.Driver

open CuMetal.Guarded Function List Option
open CuMetal.Runtime (CudaError RuntimeState)
open CuMetal.Runtime.Sync (Streams WorkKind replay replay_append replay_comm replay_eraseIdx)

/-! ## The session -/

/-- A piece of work on a stream: a kernel or an asynchronous copy; the host function of a memory
call; or the host function of `cuLaunchHostFunc` (`cuda_driver.cpp:1334-1360`), which is the callback
of `cudaStreamAddCallback` (`cuda_runtime.cpp:5544-5583`). -/
structure Work (σ : Type) where
  stream : σ
  kind : WorkKind
  effect : RuntimeState → RuntimeState

/-- What a host function of a memory call does. -/
def onMemory (effect : ByteMemory → ByteMemory) (runtime : RuntimeState) : RuntimeState :=
  { runtime with memory := effect runtime.memory }

/-- A read and write of memory: its stream, if it is asynchronous, the earlier work that had not
completed, and whether its stream was capturing. -/
structure Access (σ : Type) where
  stream : Option σ
  earlier : List (Work σ)
  capturing : Bool

/-- The runtime, the work that has not completed in the order of its submission, the graphs of the
streams that capture, and the stream that the program waits for. `asked` is what the program has
asked a capturing stream for, `submitted` everything else that it has asked for, in program order,
`issued` the asynchronous part of that, and `accesses` who has read and written memory so far. -/
structure Session (σ : Type) where
  runtime : RuntimeState
  outstanding : List (Work σ)
  captures : σ → Option (List (RuntimeState → RuntimeState))
  waiting : Option σ
  asked : σ → List (RuntimeState → RuntimeState)
  submitted : List (RuntimeState → RuntimeState)
  issued : List (Work σ)
  accesses : List (Access σ)

/-- The program submits work, captures or calls; a piece of work completes; the program goes on after
a wait, because the stream has no work left or because the backend reports an error. -/
inductive Action (σ : Type)
  | submit (work : Work σ)
  | beginCapture (stream : σ)
  | endCapture (stream : σ)
  | call (call : MemoryCall σ) (answers : Answers)
  | complete (index : Nat)
  | goOn
  | backendError

variable {σ : Type} [DecidableEq σ]

namespace Session

/-- The work becomes a node of the graph that its stream captures. -/
def record (s : Session σ) (stream : σ) (graph : List (RuntimeState → RuntimeState))
    (effect : RuntimeState → RuntimeState) : Session σ :=
  { s with
    captures := Function.update s.captures stream (some (graph ++ [effect]))
    asked := Function.update s.asked stream (s.asked stream ++ [effect]) }

omit [DecidableEq σ] in
/-- The work is left to its stream. -/
def push (s : Session σ) (work : Work σ) : Session σ :=
  { s with
    outstanding := s.outstanding ++ [work]
    submitted := s.submitted ++ [work.effect]
    issued := s.issued ++ [work] }

/-- What `cudaLaunchHostFunc` (`cuda_runtime.cpp:7831-7857`) leaves, if it succeeds. -/
def launchHostFunc (s : Session σ) (answers : Answers) (work : Work σ) : Option (Session σ) :=
  match s.captures work.stream with
  | some graph => if answers.node then some (s.record work.stream graph work.effect) else none
  | none => if answers.launched = .success then some (s.push work) else none

/-- What `cudaStreamAddCallback` leaves: a stream that captures does not record it. -/
def addCallback (s : Session σ) (work : Work σ) : Session σ :=
  match s.captures work.stream with
  | some _ =>
    { s with
      outstanding := s.outstanding ++ [work]
      asked := Function.update s.asked work.stream (s.asked work.stream ++ [work.effect]) }
  | none => s.push work

/-- A call that reads and writes memory itself. On a stream that captures it is none of the
program's calls that are to be performed. -/
def access (s : Session σ) (stream? : Option σ) (effect : RuntimeState → RuntimeState) : Session σ :=
  match stream? with
  | none =>
    { s with
      runtime := effect s.runtime
      submitted := s.submitted ++ [effect]
      accesses := s.accesses ++ [⟨none, s.outstanding, false⟩] }
  | some stream =>
    match s.captures stream with
    | some _ =>
      { s with
        runtime := effect s.runtime
        asked := Function.update s.asked stream (s.asked stream ++ [effect])
        accesses := s.accesses ++ [⟨some stream, s.outstanding, true⟩] }
    | none =>
      { s with
        runtime := effect s.runtime
        submitted := s.submitted ++ [effect]
        issued := s.issued ++ [⟨stream, .hostFunction, effect⟩]
        accesses := s.accesses ++ [⟨some stream, s.outstanding, false⟩] }

/-- What a memory call leaves. -/
def perform (s : Session σ) (call : MemoryCall σ) (answers : Answers) : Session σ :=
  match call.script answers s.runtime with
  | .finish _ => s
  | .access effect => s.access call.stream? (onMemory effect)
  | .enqueue stream effect waits =>
    match s.launchHostFunc answers ⟨stream, .hostFunction, onMemory effect⟩ with
    | none => s
    | some next => { next with waiting := if waits then some stream else none }

end Session

/-- The state after a step, if the step can be taken. -/
def step (streams : Streams σ) (s : Session σ) : Action σ → Option (Session σ)
  | .submit work =>
    if s.waiting.isSome then none
    else if work.kind = .callback then some (s.addCallback work)
    else
      match s.captures work.stream with
      | some graph => some (s.record work.stream graph work.effect)
      | none => some (s.push work)
  | .beginCapture stream =>
    if s.waiting.isSome ∨ (s.captures stream).isSome then none
    else
      some
        { s with
          captures := Function.update s.captures stream (some [])
          asked := Function.update s.asked stream [] }
  | .endCapture stream =>
    if s.waiting.isSome then none
    else some { s with captures := Function.update s.captures stream none }
  | .call call answers => if s.waiting.isSome then none else some (s.perform call answers)
  | .complete index =>
    match s.outstanding[index]? with
    | none => none
    | some work =>
      -- Nothing waits for the thread of a callback.
      if (s.outstanding.take index).any fun earlier =>
          earlier.kind ≠ .callback && streams.ordered earlier.stream work.stream then none
      else
        some
          { s with
            runtime := work.effect s.runtime
            outstanding := s.outstanding.eraseIdx index
            accesses := s.accesses ++
              [⟨some work.stream, s.outstanding.take index, false⟩] }
  | .goOn =>
    match s.waiting with
    | none => none
    | some stream =>
      if s.outstanding.any fun work => work.stream = stream && work.kind ≠ .callback then none
      else some { s with waiting := none }
  | .backendError => if s.waiting.isSome then some { s with waiting := none } else none

/-- A program that has done nothing yet. -/
def initial (runtime : RuntimeState) : Session σ where
  runtime := runtime
  outstanding := []
  captures := fun _ => none
  waiting := none
  asked := fun _ => []
  submitted := []
  issued := []
  accesses := []

/-- An access in stream order: a synchronous one comes after all earlier work, an asynchronous one
after all earlier work that its stream is ordered after, and none is performed on a stream that
captures. -/
def Access.InOrder (streams : Streams σ) (access : Access σ) : Prop :=
  match access.stream with
  | none => access.earlier = []
  | some stream =>
    access.capturing = false ∧
      ∀ work ∈ access.earlier, streams.ordered work.stream stream = false

/-- All accesses are in stream order, and a graph holds what its stream was asked for. -/
structure Session.InOrder (streams : Streams σ) (s : Session σ) : Prop where
  accesses : ∀ access ∈ s.accesses, access.InOrder streams
  recorded : ∀ stream graph, s.captures stream = some graph → graph = s.asked stream

/-- A direct call is made in time: a synchronous one when no earlier work is outstanding, and
`cuMemsetD16Async` and `cuMemsetD32Async` when their stream does not capture and no earlier work that
it is ordered after is outstanding. -/
def CallInTime (streams : Streams σ) (s : Session σ) (call : MemoryCall σ) (answers : Answers) :
    Prop :=
  call.direct = true → ∀ effect, call.script answers s.runtime = .access effect →
    match call.stream? with
    | none => s.outstanding = []
    | some stream => s.captures stream = none ∧
        ∀ work ∈ s.outstanding, streams.ordered work.stream stream = false

/-- A step is in time: a direct call is; a stream that captures gets no callback; and work completes
when no earlier callback is outstanding on a stream that it is ordered after. -/
def InTime (streams : Streams σ) (s : Session σ) : Action σ → Prop
  | .submit work => work.kind = .callback → s.captures work.stream = none
  | .call call answers => CallInTime streams s call answers
  | .complete index => ∀ work, s.outstanding[index]? = some work →
      ∀ earlier ∈ s.outstanding.take index, earlier.kind = .callback →
        streams.ordered earlier.stream work.stream = false
  | _ => True

variable {answers : Answers} {call : MemoryCall σ} {work : Work σ} {a : Action σ}
  {runtime : RuntimeState} {state : RuntimeState} {effect : ByteMemory → ByteMemory}

omit [DecidableEq σ] in
theorem memsetRowsAsync_ne_access {dst pitch width height : BitVec 64} {value : List UInt8}
    {stream : σ} :
    memsetRowsAsync answers state dst pitch value width height stream ≠ .access effect := by
  unfold memsetRowsAsync
  split
  · nofun
  · split <;> nofun

omit [DecidableEq σ] in
theorem direct_of_access (accesses : call.script answers state = .access effect) :
    call.direct = true := by
  cases call with
  | memcpy2DAsync copy stream =>
    simp only [MemoryCall.script, cuMemcpy2DAsync] at accesses
    repeat' split at accesses
    all_goals cases accesses
  | memcpy3DAsync copy stream =>
    simp only [MemoryCall.script, cuMemcpy3DAsync] at accesses
    repeat' split at accesses
    all_goals cases accesses
  | memsetD2D8Async => exact absurd accesses memsetRowsAsync_ne_access
  | memsetD2D16Async => exact absurd accesses memsetRowsAsync_ne_access
  | memsetD2D32Async => exact absurd accesses memsetRowsAsync_ne_access
  | _ => rfl

/-! ## Every access is in order -/

variable {streams : Streams σ} {s s' : Session σ}

omit [DecidableEq σ] in
theorem inOrder_initial [DecidableEq σ] (streams : Streams σ) (runtime : RuntimeState) :
    (initial runtime).InOrder streams where
  accesses _ mem := absurd mem not_mem_nil
  recorded _ _ captures := nomatch captures

theorem Session.InOrder.record (inOrder : s.InOrder streams) {stream : σ}
    {graph : List (RuntimeState → RuntimeState)} (captures : s.captures stream = some graph)
    (effect : RuntimeState → RuntimeState) :
    (s.record stream graph effect).InOrder streams where
  accesses := inOrder.accesses
  recorded other graph' captures' := by
    simp only [Session.record] at captures' ⊢
    by_cases same : other = stream
    · subst same
      rw [update_self] at captures' ⊢
      rw [← some.inj captures', inOrder.recorded other graph captures]
    · rw [update_of_ne same] at captures' ⊢
      exact inOrder.recorded other graph' captures'

theorem Session.InOrder.launchHostFunc (inOrder : s.InOrder streams)
    (launched : s.launchHostFunc answers work = some s') :
    s'.InOrder streams := by
  unfold Session.launchHostFunc at launched
  split at launched
  next graph captures =>
    split at launched
    · cases launched
      exact inOrder.record captures work.effect
    · cases launched
  next none_ =>
    split at launched
    · cases launched
      exact ⟨inOrder.accesses, inOrder.recorded⟩
    · cases launched

theorem inOrder_snoc {accesses : List (Access σ)}
    (before : ∀ access ∈ accesses, access.InOrder streams) {last : Access σ}
    (here : last.InOrder streams) : ∀ access ∈ accesses ++ [last], access.InOrder streams := by
  intro access mem
  rcases mem_append.mp mem with mem | mem
  · exact before access mem
  · rwa [mem_singleton.mp mem]

theorem Session.InOrder.perform (inOrder : s.InOrder streams)
    (inTime : InTime streams s (.call call answers)) :
    (s.perform call answers).InOrder streams := by
  unfold Session.perform
  split
  next => exact inOrder
  next effect accesses =>
    have timely := inTime (direct_of_access accesses) effect accesses
    unfold Session.access
    cases asynchronous : call.stream? with
    | none =>
      rw [asynchronous] at timely
      exact ⟨inOrder_snoc inOrder.accesses timely, inOrder.recorded⟩
    | some stream =>
      rw [asynchronous] at timely
      obtain ⟨plain, free⟩ := timely
      simp only [plain]
      exact ⟨inOrder_snoc inOrder.accesses ⟨rfl, free⟩, inOrder.recorded⟩
  next stream effect waits enqueues =>
    split
    · exact inOrder
    next next_ launched =>
      have after := inOrder.launchHostFunc launched
      exact ⟨after.accesses, after.recorded⟩

/-- What a step leaves. -/
inductive Stepped (streams : Streams σ) (s : Session σ) : Action σ → Session σ → Prop
  | record {work : Work σ} {graph : List (RuntimeState → RuntimeState)}
      (kind : work.kind ≠ .callback) (captures : s.captures work.stream = some graph) :
      Stepped streams s (.submit work) (s.record work.stream graph work.effect)
  | push {work : Work σ} (kind : work.kind ≠ .callback) :
      Stepped streams s (.submit work) (s.push work)
  | callback {work : Work σ} (kind : work.kind = .callback) :
      Stepped streams s (.submit work) (s.addCallback work)
  | beginCapture {stream : σ} :
      Stepped streams s (.beginCapture stream)
        { s with
          captures := Function.update s.captures stream (some [])
          asked := Function.update s.asked stream [] }
  | endCapture {stream : σ} :
      Stepped streams s (.endCapture stream)
        { s with captures := Function.update s.captures stream none }
  | call {call : MemoryCall σ} {answers : Answers} :
      Stepped streams s (.call call answers) (s.perform call answers)
  | complete {index : Nat} {work : Work σ} (found : s.outstanding[index]? = some work)
      (free : ∀ earlier ∈ s.outstanding.take index, earlier.kind ≠ .callback →
        streams.ordered earlier.stream work.stream = false) :
      Stepped streams s (.complete index)
        { s with
          runtime := work.effect s.runtime
          outstanding := s.outstanding.eraseIdx index
          accesses := s.accesses ++ [⟨some work.stream, s.outstanding.take index, false⟩] }
  | goOn : Stepped streams s .goOn { s with waiting := none }
  | backendError : Stepped streams s .backendError { s with waiting := none }

theorem stepped_of_step (stepped : step streams s a = some s') : Stepped streams s a s' := by
  cases a with
  | submit work =>
    obtain ⟨-, stepped⟩ := ite_none_left_eq_some.mp stepped
    split at stepped
    next kind =>
      cases stepped
      exact .callback kind
    next kind =>
      split at stepped <;> cases stepped
      next captures => exact .record kind captures
      exact .push kind
  | beginCapture stream | endCapture stream | call call answers =>
    obtain ⟨-, ⟨⟩⟩ := ite_none_left_eq_some.mp stepped
    constructor
  | complete index =>
    simp only [step] at stepped
    split at stepped
    · cases stepped
    next work found =>
      obtain ⟨free, ⟨⟩⟩ := ite_none_left_eq_some.mp stepped
      refine .complete found fun earlier mem kind => ?_
      simpa [kind] using any_eq_false.mp (Bool.eq_false_of_not_eq_true free) earlier mem
  | goOn =>
    simp only [step] at stepped
    split at stepped
    · cases stepped
    · obtain ⟨-, ⟨⟩⟩ := ite_none_left_eq_some.mp stepped
      exact .goOn
  | backendError =>
    obtain ⟨-, ⟨⟩⟩ := ite_none_right_eq_some.mp stepped
    exact .backendError

/-- In time, work completes after all earlier work that its stream is ordered after. -/
theorem free_of_inTime {index : Nat} (inTime : InTime streams s (.complete index))
    (found : s.outstanding[index]? = some work)
    (free : ∀ earlier ∈ s.outstanding.take index, earlier.kind ≠ .callback →
      streams.ordered earlier.stream work.stream = false) :
    ∀ earlier ∈ s.outstanding.take index, streams.ordered earlier.stream work.stream = false := by
  intro earlier mem
  by_cases kind : earlier.kind = .callback
  · exact inTime work found earlier mem kind
  · exact free earlier mem kind

theorem Session.InOrder.step (inOrder : s.InOrder streams)
    (inTime : InTime streams s a) (stepped : Driver.step streams s a = some s') :
    s'.InOrder streams := by
  cases stepped_of_step stepped with
  | record _ captures => exact inOrder.record captures _
  | push | goOn | backendError => exact ⟨inOrder.accesses, inOrder.recorded⟩
  | callback kind =>
    simp only [Session.addCallback, inTime kind]
    exact ⟨inOrder.accesses, inOrder.recorded⟩
  | @beginCapture stream =>
    refine ⟨inOrder.accesses, fun other graph captures => ?_⟩
    simp only at captures ⊢
    by_cases same : other = stream
    · subst same
      rw [update_self] at captures ⊢
      exact (some.inj captures).symm
    · rw [update_of_ne same] at captures ⊢
      exact inOrder.recorded other graph captures
  | @endCapture stream =>
    refine ⟨inOrder.accesses, fun other graph captures => ?_⟩
    simp only at captures ⊢
    by_cases same : other = stream
    · subst same
      rw [update_self] at captures
      cases captures
    · rw [update_of_ne same] at captures
      exact inOrder.recorded other graph captures
  | call => exact inOrder.perform inTime
  | complete found free =>
    exact ⟨inOrder_snoc inOrder.accesses ⟨rfl, free_of_inTime inTime found free⟩,
      inOrder.recorded⟩

/-- A direct call that is not in time reads and writes memory too early, or on a stream that
captures. -/
theorem not_inOrder_of_perform (early : ¬ CallInTime streams s call answers) :
    ¬ (s.perform call answers).InOrder streams := by
  simp only [CallInTime, not_forall] at early
  obtain ⟨-, effect, accesses, early⟩ := early
  intro inOrder
  simp only [Session.perform, accesses, Session.access] at inOrder
  refine early ?_
  cases asynchronous : call.stream? with
  | none =>
    simp only [asynchronous] at inOrder
    exact inOrder.accesses ⟨none, s.outstanding, false⟩ (by simp)
  | some stream =>
    simp only [asynchronous] at inOrder
    cases captures : s.captures stream with
    | some graph =>
      simp only [captures] at inOrder
      have last := inOrder.accesses ⟨some stream, s.outstanding, true⟩ (by simp)
      exact absurd last.1 Bool.noConfusion
    | none =>
      simp only [captures] at inOrder
      exact ⟨captures, (inOrder.accesses ⟨some stream, s.outstanding, false⟩ (by simp)).2⟩

/-- A callback that a stream which captures gets is not in its graph. -/
theorem not_inOrder_of_addCallback (inOrder : s.InOrder streams)
    {graph : List (RuntimeState → RuntimeState)} (captures : s.captures work.stream = some graph) :
    ¬ (s.addCallback work).InOrder streams := by
  intro after
  have recorded := after.recorded work.stream graph
  simp only [Session.addCallback, captures, update_self, forall_const] at recorded
  have longer := congrArg length recorded
  rw [← inOrder.recorded _ _ captures, length_append, length_singleton] at longer
  omega

theorem not_inOrder_of_not_inTime (inOrder : s.InOrder streams) (early : ¬ InTime streams s a)
    (stepped : step streams s a = some s') : ¬ s'.InOrder streams := by
  cases stepped_of_step stepped with
  | callback kind =>
    obtain ⟨graph, captures⟩ := ne_none_iff_exists'.mp fun none_ => early fun _ => none_
    exact not_inOrder_of_addCallback inOrder captures
  | @complete index work found free =>
    intro after
    refine early fun other found' earlier mem _ => ?_
    cases found.symm.trans found'
    have last := after.accesses ⟨some work.stream, s.outstanding.take index, false⟩ (by simp)
    exact last.2 earlier mem
  | call => exact not_inOrder_of_perform early
  | record kind | push kind => exact absurd (fun callback => absurd callback kind) early
  | beginCapture | endCapture | goOn | backendError => exact absurd trivial early

/-! ## Memory ends as in program order -/

/-- Asynchronous work that no stream orders gives the same result in both orders. -/
def RaceFree (streams : Streams σ) (works : List (Work σ)) : Prop :=
  ∀ earlier ∈ works, ∀ later ∈ works, streams.ordered earlier.stream later.stream = false →
    ∀ runtime, later.effect (earlier.effect runtime) = earlier.effect (later.effect runtime)

/-- Carrying out what is outstanding gives what program order gives. -/
structure Agrees (runtime : RuntimeState) (s : Session σ) : Prop where
  issued : s.outstanding ⊆ s.issued
  replayed : replay (s.outstanding.map Work.effect) s.runtime = replay s.submitted runtime

omit [DecidableEq σ] in
theorem agrees_initial (runtime : RuntimeState) : Agrees runtime (initial (σ := σ) runtime) :=
  ⟨nil_subset _, rfl⟩

section

variable (agrees : Agrees runtime s)
include agrees

omit [DecidableEq σ] in
theorem Agrees.push (work : Work σ) :
    Agrees runtime (s.push work) where
  issued := append_subset.mpr ⟨subset_append_of_subset_left _ agrees.issued,
    subset_append_right ..⟩
  replayed := by
    simp only [Session.push, map_append, replay_append, agrees.replayed]
    rfl

theorem Agrees.launchHostFunc (launched : s.launchHostFunc answers work = some s') :
    Agrees runtime s' := by
  unfold Session.launchHostFunc at launched
  split at launched
  · split at launched
    · cases launched
      exact ⟨agrees.issued, agrees.replayed⟩
    · cases launched
  · split at launched
    · cases launched
      exact agrees.push work
    · cases launched

/-- A direct call in time comes after what is outstanding, or does not interfere with it. -/
theorem Agrees.perform (inTime : InTime streams s (.call call answers))
    (raceFree : RaceFree streams (s.perform call answers).issued) :
    Agrees runtime (s.perform call answers) := by
  unfold Session.perform at raceFree ⊢
  split
  next => exact agrees
  next effect accesses =>
    have timely := inTime (direct_of_access accesses) effect accesses
    simp only [accesses, Session.access] at raceFree ⊢
    cases asynchronous : call.stream? with
    | none =>
      rw [asynchronous] at timely
      have nothing : s.outstanding = [] := timely
      have replayed := agrees.replayed
      rw [nothing] at replayed
      refine ⟨agrees.issued, ?_⟩
      simp only [nothing, map_nil, replay_append, ← replayed]
      rfl
    | some stream =>
      rw [asynchronous] at timely
      obtain ⟨plain, free⟩ := timely
      simp only [asynchronous, plain] at raceFree ⊢
      refine ⟨subset_append_of_subset_left _ agrees.issued, ?_⟩
      have commutes := @replay_comm (onMemory effect) (s.outstanding.map Work.effect) (by
        intro other mem runtime
        obtain ⟨work, inside, rfl⟩ := mem_map.mp mem
        exact raceFree work (mem_append_left _ (agrees.issued inside))
          ⟨stream, .hostFunction, onMemory effect⟩ (mem_append_right _ (mem_singleton.mpr rfl))
          (free work inside) runtime)
        s.runtime
      simp only [replay_append, ← agrees.replayed]
      exact commutes.symm
  next stream effect waits enqueues =>
    split
    · exact agrees
    next next_ launched =>
      have after := agrees.launchHostFunc launched
      exact ⟨after.issued, after.replayed⟩

/-- Work that completes early does not interfere with the earlier work that it overtakes. -/
theorem Agrees.complete {index : Nat} (raceFree : RaceFree streams s.issued)
    (found : s.outstanding[index]? = some work)
    (free : ∀ earlier ∈ s.outstanding.take index, streams.ordered earlier.stream work.stream =
      false) :
    replay ((s.outstanding.eraseIdx index).map Work.effect) (work.effect s.runtime) =
      replay s.submitted runtime := by
  have mine : work ∈ s.issued := agrees.issued (mem_of_getElem? found)
  rw [← agrees.replayed]
  exact replay_eraseIdx found (fun earlier before => raceFree earlier
    (agrees.issued (mem_of_mem_take before)) work mine (free earlier before)) s.runtime

end

theorem issued_subset (stepped : step streams s a = some s') :
    s.issued ⊆ s'.issued := by
  have push : ∀ work : Work σ, s.issued ⊆ (s.push work).issued := fun _ =>
    subset_append_left ..
  cases stepped_of_step stepped with
  | push => exact push _
  | callback =>
    unfold Session.addCallback
    split
    · exact Subset.refl _
    · exact push _
  | call =>
    unfold Session.perform
    split
    · exact Subset.refl _
    · unfold Session.access
      split
      · exact Subset.refl _
      · split
        · exact Subset.refl _
        · exact subset_append_left ..
    · split
      · exact Subset.refl _
      next next_ launched =>
        unfold Session.launchHostFunc at launched
        split at launched <;> split at launched <;> cases launched
        · exact Subset.refl _
        · exact push _
  | record | beginCapture | endCapture | complete | goOn | backendError => exact Subset.refl _

theorem Agrees.step (agrees : Agrees runtime s)
    (inTime : InTime streams s a) (raceFree : RaceFree streams s'.issued)
    (stepped : Driver.step streams s a = some s') : Agrees runtime s' := by
  cases stepped_of_step stepped with
  | push => exact agrees.push _
  | callback kind =>
    simp only [Session.addCallback, inTime kind]
    exact agrees.push _
  | call => exact agrees.perform inTime raceFree
  | complete found free =>
    exact ⟨fun other mem => agrees.issued ((eraseIdx_sublist ..).subset mem),
      agrees.complete raceFree found (free_of_inTime inTime found free)⟩
  | record | beginCapture | endCapture | goOn | backendError =>
    exact ⟨agrees.issued, agrees.replayed⟩

theorem issued_subset_run {trail : List (Session σ × Action σ)} {u : Session σ}
    (run : Run (Steps (step streams)) s trail u) : s.issued ⊆ u.issued := by
  induction run with
  | nil => exact Subset.refl _
  | cons first _ ih => exact fun work mem => ih (issued_subset first mem)

theorem RaceFree.mono {works others : List (Work σ)} (raceFree : RaceFree streams works)
    (fewer : others ⊆ works) : RaceFree streams others :=
  fun earlier mem later mem' => raceFree earlier (fewer mem) later (fewer mem')

open CuMetal.Runtime.Sync (bareRuntime oneStream)

/-- Nothing fails. -/
def fine : Answers := ⟨.success, true, true, .success⟩

/-- A kernel, or a host function, that sets the byte at 16 to 7. -/
def storeByte (kind : WorkKind) : Work Unit :=
  ⟨(), kind, onMemory fun memory => memory.write 16 [7]⟩

/-- Callbacks get no capturing stream, direct calls find nothing outstanding, and no work overtakes a
callback. -/
def plainly (s : Session Unit) : Action Unit → Bool
  | .submit work => (s.captures work.stream).isNone
  | .call call _ =>
    !call.direct || s.outstanding.isEmpty && (call.stream?.bind s.captures).isNone
  | .complete index => (s.outstanding.take index).all fun earlier => earlier.kind ≠ .callback
  | _ => true

theorem inTime_of_plainly {s : Session Unit} {a : Action Unit} (plain : plainly s a = true) :
    InTime oneStream s a := by
  cases a with
  | submit work => exact fun _ => isNone_iff_eq_none.mp plain
  | call call answers =>
    intro direct effect _
    simp only [plainly, direct, Bool.not_true, Bool.false_or, Bool.and_eq_true,
      List.isEmpty_iff, isNone_iff_eq_none] at plain
    cases asynchronous : call.stream? with
    | none => exact plain.1
    | some stream =>
      rw [asynchronous] at plain
      exact ⟨plain.2, fun work mem => absurd (plain.1 ▸ mem) not_mem_nil⟩
  | complete index =>
    intro work found earlier mem callback
    exact absurd callback (by simpa using all_eq_true.mp plain earlier mem)
  | _ => trivial

/-- A kernel, the callback of a host function and `cuMemsetD2D8Async` on one stream, which carries
them out in this order, and `cuMemsetD16Async` when nothing is left. -/
def fillInTurn : List (Action Unit) :=
  [.submit (storeByte .command), .submit (storeByte .callback),
    .call (.memsetD2D8Async 16 1 9 1 1 ()) fine, .complete 0, .complete 0, .complete 0,
    .call (.memsetD16Async 18 0x0505 1 ()) fine]

end CuMetal.Driver
