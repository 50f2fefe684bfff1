import CuMetal.Runtime.SynchronousCalls

/-!
# Synchronous calls and the work before them

A program that puts work on streams and makes synchronous calls in between. The streams carry out
their work meanwhile; a call that synchronizes waits for them one after the other.
-/

namespace CuMetal.Runtime.Sync

open CuMetal.Guarded List Sync SyncCall

/-! ## The session -/

/-- What kind of stream a stream is (`metal_backend.mm:351-357`). -/
inductive StreamKind
  | legacyDefault | blocking | nonBlocking
  deriving DecidableEq

/-- A kernel, a blit or another piece of work of the GPU; a host function; or the callback of
`cudaStreamAddCallback`, which a thread of its own makes (`cuda_runtime.cpp:5577-5583`). -/
inductive WorkKind
  | command | hostFunction | callback
  deriving DecidableEq

/-- A piece of work on a stream. -/
structure Work (σ : Type) where
  stream : σ
  kind : WorkKind
  effect : RuntimeState → RuntimeState

/-- How far the program is in a synchronous call. `metal_backend::synchronize`
(`metal_backend.mm:3617-3639`) waits for the host functions of a stream, then for its tickets, and
goes on with the streams that are left. -/
inductive Progress (σ : Type)
  | idle
  | hostWait (call : SyncCall) (stream : σ) (rest : List σ)
      (body : RuntimeState → CudaError × RuntimeState)
  | ticketWait (call : SyncCall) (stream : σ) (rest : List σ)
      (body : RuntimeState → CudaError × RuntimeState)
  | accessing (call : SyncCall) (body : RuntimeState → CudaError × RuntimeState)

/-- The runtime with its memory, the work that has not completed in the order of its submission, and
the call in progress. `submitted` is everything that the program has asked for, in program order,
and `accesses` the calls that read and wrote memory with the work that was outstanding then. -/
structure Session (σ : Type) where
  runtime : RuntimeState
  outstanding : List (Work σ)
  progress : Progress σ
  submitted : List (RuntimeState → RuntimeState)
  accesses : List (SyncCall × List (Work σ))

/-- The program submits work or calls; a piece of work completes; the call goes on, or ends because
the backend reports an error. -/
inductive Action (σ : Type)
  | submit (work : Work σ)
  | call (call : SyncCall)
  | complete (index : Nat)
  | advance
  | backendError

/-- The streams of the backend: `collect_live_streams_locked` and the default stream. -/
structure Streams (σ : Type) where
  live : List σ
  kind : σ → StreamKind

variable {σ : Type} [DecidableEq σ]

/-- The backend keeps the order of work on these two streams. -/
def Streams.ordered (streams : Streams σ) (first second : σ) : Bool :=
  first = second ||
    (streams.kind first = .legacyDefault && streams.kind second = .blocking) ||
    (streams.kind first = .blocking && streams.kind second = .legacyDefault)

/-- Earlier work that must complete first; nothing waits for a callback. -/
def Streams.blocks (streams : Streams σ) (earlier later : Work σ) : Bool :=
  earlier.kind ≠ .callback && streams.ordered earlier.stream later.stream

/-- The call waits for the next stream, or is done with waiting. -/
def drainNext (call : SyncCall) (body : RuntimeState → CudaError × RuntimeState) :
    List σ → Progress σ
  | [] => .accessing call body
  | stream :: rest => .hostWait call stream rest body

/-- The next step of the call in progress. -/
def Session.advance (s : Session σ) : Option (Session σ) :=
  match s.progress with
  | .idle => none
  | .hostWait call stream rest body =>
    if s.outstanding.any fun work => work.stream = stream && work.kind = .hostFunction then none
    else some { s with progress := .ticketWait call stream rest body }
  | .ticketWait call stream rest body =>
    if s.outstanding.any fun work => work.stream = stream && work.kind ≠ .callback then none
    else some { s with progress := drainNext call body rest }
  | .accessing call body =>
    some
      { s with
        runtime := (body s.runtime).2
        progress := .idle
        submitted := s.submitted ++ [fun runtime => (body runtime).2]
        accesses := s.accesses ++ [(call, s.outstanding)] }

/-- The state after a step, if the step can be taken. -/
def step (env : Environment) (streams : Streams σ) (s : Session σ) :
    Action σ → Option (Session σ)
  | .submit work =>
    match s.progress with
    | .idle =>
      if work.stream ∈ streams.live then
        some
          { s with
            outstanding := s.outstanding ++ [work]
            submitted := s.submitted ++ [work.effect] }
      else none
    | _ => none
  | .call call =>
    match s.progress with
    | .idle =>
      match call.script env s.runtime with
      | .finish _ => some s
      | .access body => some { s with progress := .accessing call body }
      | .synchronize body => some { s with progress := drainNext call body streams.live }
    | _ => none
  | .complete index =>
    match s.outstanding[index]? with
    | none => none
    | some work =>
      if (s.outstanding.take index).any fun earlier => streams.blocks earlier work then none
      else
        some
          { s with
            runtime := work.effect s.runtime
            outstanding := s.outstanding.eraseIdx index }
  | .advance => s.advance
  | .backendError =>
    match s.progress with
    | .ticketWait .. => some { s with progress := .idle }
    | _ => none

def initial (runtime : RuntimeState) : Session σ where
  runtime := runtime
  outstanding := []
  progress := .idle
  submitted := []
  accesses := []

def Script.isAccess : Script → Bool
  | .access _ => true
  | .finish _ | .synchronize _ => false

theorem cudaMemcpy_not_access (dst src count : BitVec 64) (kind : MemcpyKind)
    (state : RuntimeState) : (cudaMemcpy dst src count kind state).isAccess = false := by
  unfold cudaMemcpy
  repeat' split
  all_goals rfl

theorem cudaMemcpy2D_not_access (dst dpitch src spitch width height : BitVec 64)
    (kind : MemcpyKind) (state : RuntimeState) :
    (cudaMemcpy2D dst dpitch src spitch width height kind state).isAccess = false := by
  unfold cudaMemcpy2D
  dsimp only
  repeat' split
  all_goals rfl

/-- A call that is not direct never reads or writes memory before it has synchronized. -/
theorem script_not_access {env : Environment} {call : SyncCall} {state : RuntimeState}
    (waits : call.direct = false) : (call.script env state).isAccess = false := by
  cases call with
  | memcpy dst src count kind => exact cudaMemcpy_not_access dst src count kind state
  | memcpyPeer dst src count => exact cudaMemcpy_not_access dst src count .default_ state
  | memset devPtr value count =>
    simp only [script, cudaMemset]
    repeat' split
    all_goals rfl
  | memcpy2D dst dpitch src spitch width height kind =>
    exact cudaMemcpy2D_not_access dst dpitch src spitch width height kind state
  | memset2D | memset3D | memcpy3D => simp [direct] at waits
  | memcpyToSymbol symbol src count offset kind =>
    simp only [script, cudaMemcpyToSymbol]
    repeat' split
    all_goals rfl
  | memcpyFromSymbol dst symbol count offset kind =>
    simp only [script, cudaMemcpyFromSymbol]
    repeat' split
    all_goals rfl
  | memcpy2DToArray dst wOffset hOffset src spitch width height kind =>
    simp only [script, cudaMemcpy2DToArray]
    repeat' split
    all_goals first | rfl | exact cudaMemcpy2D_not_access ..
  | memcpy2DFromArray dst dpitch src wOffset hOffset width height kind =>
    simp only [script, cudaMemcpy2DFromArray]
    repeat' split
    all_goals first | rfl | exact cudaMemcpy2D_not_access ..
  | memcpyToArray dst wOffset hOffset src count kind =>
    simp only [script, cudaMemcpyToArray]
    repeat' split
    all_goals first | rfl | exact cudaMemcpy_not_access ..
  | memcpyFromArray dst src wOffset hOffset count kind =>
    simp only [script, cudaMemcpyFromArray]
    repeat' split
    all_goals first | rfl | exact cudaMemcpy_not_access ..

def Script.isSynchronize : Script → Bool
  | .synchronize _ => true
  | .finish _ | .access _ => false

theorem script_not_synchronize {env : Environment} {call : SyncCall} {state : RuntimeState}
    (direct : call.direct = true) : (call.script env state).isSynchronize = false := by
  cases call with
  | memset2D devPtr pitch value width height =>
    simp only [script, cudaMemset2D]
    repeat' split
    all_goals rfl
  | memset3D pitched value extent =>
    simp only [script, cudaMemset3D]
    repeat' split
    all_goals rfl
  | memcpy3D params =>
    simp only [script, cudaMemcpy3D]
    repeat' split
    all_goals rfl
  | _ => simp [SyncCall.direct] at direct

/-! ## Nothing is outstanding when memory is read or written -/

/-- Every call so far read and wrote memory when all the work before it had completed. -/
def Session.InOrder (s : Session σ) : Prop :=
  ∀ access ∈ s.accesses, access.2 = []

/-- When a call reads and writes memory, no callback is outstanding, and for one of the direct calls
nothing at all. -/
def Drained (s : Session σ) (a : Action σ) : Prop :=
  ∀ call body, a = .advance → s.progress = .accessing call body →
    if call.direct then s.outstanding = [] else ∀ work ∈ s.outstanding, work.kind ≠ .callback

/-- The work of these streams may be outstanding, and callbacks. -/
def OnlyOn (streams : List σ) (outstanding : List (Work σ)) : Prop :=
  ∀ work ∈ outstanding, work.kind ≠ .callback → work.stream ∈ streams

def Progress.Ok (outstanding : List (Work σ)) : Progress σ → Prop
  | .idle => True
  | .hostWait call stream rest _ | .ticketWait call stream rest _ =>
    call.direct = false ∧ OnlyOn (stream :: rest) outstanding
  | .accessing call _ => call.direct = false → OnlyOn [] outstanding

/-- The invariant of the session. -/
structure Invariant (streams : Streams σ) (s : Session σ) : Prop where
  live : ∀ work ∈ s.outstanding, work.stream ∈ streams.live
  progress : s.progress.Ok s.outstanding
  inOrder : s.InOrder

variable {env : Environment} {streams : Streams σ} {s s' : Session σ}
  {outstanding outstanding' : List (Work σ)} {body : RuntimeState → CudaError × RuntimeState}
  {a : Action σ}

omit [DecidableEq σ] in
theorem OnlyOn.mono {streams : List σ} (only : OnlyOn streams outstanding)
    (fewer : outstanding' ⊆ outstanding) : OnlyOn streams outstanding' :=
  fun work mem => only work (fewer mem)

omit [DecidableEq σ] in
theorem Progress.Ok.mono {progress : Progress σ} (ok : progress.Ok outstanding)
    (fewer : outstanding' ⊆ outstanding) : progress.Ok outstanding' := by
  cases progress with
  | idle => trivial
  | hostWait call stream rest body | ticketWait call stream rest body =>
    exact ⟨ok.1, ok.2.mono fewer⟩
  | accessing call body => exact fun waits => (ok waits).mono fewer

omit [DecidableEq σ] in
theorem ok_drainNext {call : SyncCall} {remaining : List σ} (waits : call.direct = false)
    (only : OnlyOn remaining outstanding) : (drainNext call body remaining).Ok outstanding := by
  cases remaining with
  | nil => exact fun _ => only
  | cons stream rest => exact ⟨waits, only⟩

/-- A stream whose tickets have completed has no work left but callbacks. -/
theorem OnlyOn.of_tickets {stream : σ} {rest : List σ}
    (only : OnlyOn (stream :: rest) outstanding)
    (done : ¬ outstanding.any fun work => work.stream = stream && work.kind ≠ .callback) :
    OnlyOn rest outstanding := by
  intro work mem isWork
  rcases mem_cons.mp (only work mem isWork) with same | inRest
  · refine absurd (any_eq_true.mpr ⟨work, mem, ?_⟩) done
    simp [same, isWork]
  · exact inRest

omit [DecidableEq σ] in
theorem invariant_initial (streams : Streams σ) (runtime : RuntimeState) :
    Invariant streams (initial runtime) where
  live := by simp [initial]
  progress := trivial
  inOrder := by simp [Session.InOrder, initial]

omit [DecidableEq σ] in
/-- Only work that Drained allows can be outstanding when a call reads and writes memory. -/
theorem Invariant.outstanding_eq_nil (inv : Invariant streams s) {call : SyncCall}
    (drained : Drained s .advance) (progress : s.progress = .accessing call body) :
    s.outstanding = [] := by
  have allowed := drained call body rfl progress
  have ok := inv.progress
  rw [progress] at ok
  cases direct : call.direct with
  | true => simpa [direct] using allowed
  | false =>
    simp only [direct, Bool.false_eq_true, if_false] at allowed
    refine eq_nil_iff_forall_not_mem.mpr fun work mem => ?_
    exact absurd (ok direct work mem (allowed work mem)) (by simp)

/-- A call that goes on keeps the invariant when it reads and writes memory in time. -/
theorem Invariant.advance (inv : Invariant streams s) (drained : Drained s .advance)
    (stepped : s.advance = some s') : Invariant streams s' := by
  have ok := inv.progress
  unfold Session.advance at stepped
  cases progress : s.progress with
  | idle => simp [progress] at stepped
  | hostWait call stream rest body =>
    rw [progress] at ok
    simp only [progress] at stepped
    split at stepped
    · cases stepped
    · cases stepped
      exact ⟨inv.live, ok, inv.inOrder⟩
  | ticketWait call stream rest body =>
    rw [progress] at ok
    simp only [progress] at stepped
    split at stepped
    · cases stepped
    next done =>
      cases stepped
      exact ⟨inv.live, ok_drainNext ok.1 (ok.2.of_tickets done), inv.inOrder⟩
  | accessing call body =>
    simp only [progress] at stepped
    cases stepped
    refine ⟨inv.live, trivial, ?_⟩
    intro access mem
    rcases mem_append.mp mem with mem | mem
    · exact inv.inOrder access mem
    · rw [mem_singleton.mp mem]
      exact inv.outstanding_eq_nil drained progress

theorem Invariant.step (inv : Invariant streams s) (drained : Drained s a)
    (stepped : step env streams s a = some s') : Invariant streams s' := by
  cases a with
  | submit work =>
    simp only [step] at stepped
    split at stepped
    · split at stepped
      next idle live =>
        cases stepped
        refine ⟨?_, ?_, inv.inOrder⟩
        · intro other mem
          rcases mem_append.mp mem with mem | mem
          · exact inv.live other mem
          · rwa [mem_singleton.mp mem]
        · simp only [idle]
          trivial
      · cases stepped
    · cases stepped
  | call call =>
    simp only [step] at stepped
    split at stepped
    · split at stepped
      · cases stepped
        exact inv
      next access =>
        cases stepped
        refine ⟨inv.live, ?_, inv.inOrder⟩
        intro waits
        have never := @script_not_access env call s.runtime waits
        simp [access, Script.isAccess] at never
      next synchronize =>
        cases stepped
        refine ⟨inv.live, ok_drainNext ?_ fun work mem _ => inv.live work mem, inv.inOrder⟩
        by_contra direct
        have never := @script_not_synchronize env call s.runtime (Bool.not_eq_false _ ▸ direct)
        simp [synchronize, Script.isSynchronize] at never
    · cases stepped
  | complete index =>
    simp only [step] at stepped
    split at stepped
    · cases stepped
    · split at stepped
      · cases stepped
      · cases stepped
        have fewer : s.outstanding.eraseIdx index ⊆ s.outstanding :=
          (eraseIdx_sublist s.outstanding index).subset
        exact ⟨fun other mem => inv.live other (fewer mem), inv.progress.mono fewer,
          inv.inOrder⟩
  | advance => exact inv.advance drained stepped
  | backendError =>
    simp only [step] at stepped
    split at stepped
    · cases stepped
      exact ⟨inv.live, trivial, inv.inOrder⟩
    · cases stepped

theorem not_inOrder_of_not_drained (early : ¬ Drained s a)
    (stepped : step env streams s a = some s') : ¬ s'.InOrder := by
  simp only [Drained, not_forall] at early
  obtain ⟨call, body, rfl, progress, early⟩ := early
  simp only [step, Session.advance, progress] at stepped
  cases stepped
  intro inOrder
  have nothing : s.outstanding = [] := inOrder (call, s.outstanding) (by simp)
  refine early ?_
  split
  · exact nothing
  · simp [nothing]

/-! ## Memory ends as in program order -/

/-- The runtime after everything that was asked for, one thing after another. -/
def replay (submitted : List (RuntimeState → RuntimeState)) (runtime : RuntimeState) :
    RuntimeState :=
  submitted.foldl (fun runtime effect => effect runtime) runtime

/-- The work that the streams may carry out in another order than that of its submission gives the
same result in both. -/
def RaceFree (streams : Streams σ) (works : Work σ → Prop) : Prop :=
  ∀ earlier later, works earlier → works later → streams.blocks earlier later = false →
    ∀ runtime, later.effect (earlier.effect runtime) = earlier.effect (later.effect runtime)

/-- Carrying out what is outstanding gives what program order gives. -/
structure Agrees (works : Work σ → Prop) (runtime : RuntimeState) (s : Session σ) : Prop where
  works : ∀ work ∈ s.outstanding, works work
  replayed : replay (s.outstanding.map Work.effect) s.runtime = replay s.submitted runtime

omit [DecidableEq σ] in
theorem replay_append (first second : List (RuntimeState → RuntimeState))
    (runtime : RuntimeState) :
    replay (first ++ second) runtime = replay second (replay first runtime) :=
  foldl_append

omit [DecidableEq σ] in
theorem replay_comm {effect : RuntimeState → RuntimeState}
    {effects : List (RuntimeState → RuntimeState)}
    (commutes : ∀ other ∈ effects, ∀ runtime, effect (other runtime) = other (effect runtime))
    (runtime : RuntimeState) :
    effect (replay effects runtime) = replay effects (effect runtime) := by
  induction effects generalizing runtime with
  | nil => rfl
  | cons other rest ih =>
    have first := commutes other (by simp) runtime
    calc effect (replay rest (other runtime))
        = replay rest (effect (other runtime)) :=
          ih (fun other mem => commutes other (by simp [mem])) (other runtime)
      _ = replay rest (other (effect runtime)) := by rw [first]

/-- Work that is carried out early, and commutes with the earlier work that it overtakes. -/
theorem replay_eraseIdx {α : Type} {effect : α → RuntimeState → RuntimeState} {works : List α}
    {index : Nat} {work : α} (found : works[index]? = some work)
    (commutes : ∀ earlier ∈ works.take index, ∀ runtime,
      effect work (effect earlier runtime) = effect earlier (effect work runtime))
    (runtime : RuntimeState) :
    replay ((works.eraseIdx index).map effect) (effect work runtime) =
      replay (works.map effect) runtime := by
  obtain ⟨inside, here⟩ := List.getElem?_eq_some_iff.mp found
  have split : works = works.take index ++ work :: works.drop (index + 1) := by
    rw [← here, getElem_cons_drop inside, take_append_drop]
  have overtakes := @replay_comm (effect work) ((works.take index).map effect) (by
    intro other mem runtime
    obtain ⟨earlier, before, rfl⟩ := mem_map.mp mem
    exact commutes earlier before runtime) runtime
  rw [eraseIdx_eq_take_drop_succ]
  conv_rhs => rw [split]
  simp only [map_append, map_cons, replay_append]
  rw [← overtakes]
  rfl

variable {works : Work σ → Prop} {runtime : RuntimeState}

theorem Agrees.complete {index : Nat} {work : Work σ} (agrees : Agrees works runtime s)
    (raceFree : RaceFree streams works) (found : s.outstanding[index]? = some work)
    (free : ¬ (s.outstanding.take index).any fun earlier => streams.blocks earlier work) :
    Agrees works runtime
      { s with runtime := work.effect s.runtime, outstanding := s.outstanding.eraseIdx index } := by
  refine ⟨fun other mem => agrees.works other ((eraseIdx_sublist ..).subset mem), ?_⟩
  rw [← agrees.replayed]
  refine replay_eraseIdx found (fun earlier before => ?_) s.runtime
  refine raceFree earlier work (agrees.works earlier (mem_of_mem_take before))
    (agrees.works work (mem_of_getElem? found)) ?_
  by_contra blocks
  exact free (any_eq_true.mpr ⟨earlier, before, Bool.not_eq_false _ ▸ blocks⟩)

theorem Agrees.step (agrees : Agrees works runtime s) (raceFree : RaceFree streams works)
    (inv : Invariant streams s) (drained : Drained s a)
    (submitted : ∀ work, a = .submit work → works work) (stepped : step env streams s a = some s') :
    Agrees works runtime s' := by
  cases a with
  | submit work =>
    simp only [step] at stepped
    split at stepped
    · split at stepped
      · cases stepped
        constructor
        · intro other mem
          rcases mem_append.mp mem with mem | mem
          · exact agrees.works other mem
          · rw [mem_singleton.mp mem]
            exact submitted work rfl
        · simp only [map_append, replay_append, agrees.replayed]
          rfl
      · cases stepped
    · cases stepped
  | call call =>
    simp only [step] at stepped
    split at stepped
    · split at stepped <;> cases stepped <;>
        exact ⟨agrees.works, agrees.replayed⟩
    · cases stepped
  | complete index =>
    simp only [step] at stepped
    split at stepped
    · cases stepped
    next found =>
      split at stepped
      · cases stepped
      next free =>
        cases stepped
        exact agrees.complete raceFree found free
  | advance =>
    simp only [step, Session.advance] at stepped
    split at stepped
    · cases stepped
    · split at stepped
      · cases stepped
      · cases stepped
        exact ⟨agrees.works, agrees.replayed⟩
    · split at stepped
      · cases stepped
      · cases stepped
        exact ⟨agrees.works, agrees.replayed⟩
    next progress =>
      cases stepped
      have nothing := inv.outstanding_eq_nil drained progress
      have replayed := agrees.replayed
      rw [nothing] at replayed
      refine ⟨agrees.works, ?_⟩
      simp only [nothing, map_nil, replay_append, ← replayed]
      rfl
  | backendError =>
    simp only [step] at stepped
    split at stepped
    · cases stepped
      exact ⟨agrees.works, agrees.replayed⟩
    · cases stepped

def Submits (trail : List (Session σ × Action σ)) (work : Work σ) : Prop :=
  ∃ visited ∈ trail, visited.2 = .submit work

def oneStream : Streams Unit := ⟨[()], fun _ => .nonBlocking⟩

/-- No arrays and no symbols. -/
def bareEnvironment : Environment where
  arrays := []
  device :=
    { backend := ⟨.success, .success, .success, .success⟩
      useMetalDeviceAddresses := false
      argumentSizes := fun _ => []
      submitKernel := fun _ _ => .refused .success
      lookupSymbol := fun _ => none }

/-- An initialised runtime without allocations over memory of zeros. -/
def bareRuntime : RuntimeState := ⟨.success, .initial, fun _ => 0⟩

/-- `cudaMemsetAsync` of the byte at 16 to 7. -/
def fillByte : Work Unit :=
  ⟨(), .hostFunction, fun runtime =>
    { runtime with memory := runtime.memory.write 16 (Stream.fillBytes 7 1) }⟩

end CuMetal.Runtime.Sync
