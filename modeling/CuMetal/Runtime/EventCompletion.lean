import CuMetal.Lib.AssocMap
import CuMetal.Lib.GuardedRun
import CuMetal.Runtime.StreamTickets

/-!
# Events

`cudaEventRecord`, `cudaEventQuery`, `cudaEventSynchronize` and `cudaStreamWaitEvent`
(`runtime/rt/cuda_runtime.cpp`) by threads that take turns. What a thread does under the mutex of
an event is one step, and so is each thing that it asks the backend.
-/

namespace CuMetal.Runtime.Events

/-- `CUevent_st` (`349-362`) without its timestamp. -/
structure EventRecord (σ γ : Type) where
  disableTiming : Bool
  recordedOnce : Bool
  complete : Bool
  timingValid : Bool
  stream : Option σ
  ticket : Nat
  captureGraph : Option γ

/-- `cudaEventCreateWithFlags` (`5659-5664`). -/
def EventRecord.created (σ γ : Type) (disableTiming : Bool) : EventRecord σ γ where
  disableTiming := disableTiming
  recordedOnce := false
  complete := true
  timingValid := false
  stream := none
  ticket := 0
  captureGraph := none

/-- How far a thread is in its call: `ε` names the events, `η` the stream handles, `σ` the streams
of the backend and `γ` the graphs. -/
inductive Phase (ε η σ γ : Type)
  | idle
  /-- `cudaStreamWaitEvent` before it reads the event's graph (`5594`). -/
  | linking (event : ε) (handle : η)
  /-- It looks for the graph among the captures (`5599`). -/
  | checking (event : ε) (handle : η) (graph : γ)
  /-- It joins the capture (`5613`). -/
  | joining (handle : η) (graph : γ)
  /-- It resolves the stream (`5624`). -/
  | resolving (event : ε)
  /-- `update_event_completion` before its first critical section (`1727`). -/
  | entering (event : ε) (wait : Bool)
  /-- It holds a copy of the event's stream and ticket (`1736`). -/
  | copied (event : ε) (wait : Bool) (stream : Option σ) (ticket : Nat)
  /-- The backend polls the stream (`query_ticket` and `wait_ticket`, `1749-1758`). -/
  | polling (event : ε) (wait : Bool) (stream : σ) (ticket : Nat)
  | polled (event : ε) (wait : Bool) (stream : σ) (ticket : Nat)
  /-- `waitUntilCompleted` (`metal_backend.mm:593`). -/
  | waiting (event : ε) (stream : σ) (ticket front : Nat)
  /-- The backend said that the ticket has completed; before the last critical section (`1765`). -/
  | confirmed (event : ε) (stream : σ) (ticket : Nat)
  /-- `cudaEventRecord` on a stream that captures, before its critical section (`5686`). -/
  | capturing (event : ε) (graph : γ)
  /-- `cudaEventRecord` before `stream_record_marker` (`5705`). -/
  | recording (event : ε)
  /-- It holds the ticket of its marker (`5711`). -/
  | marked (event : ε) (stream : σ) (ticket : Nat)
  deriving DecidableEq

/-- The events, the streams, the captures that are active (`g_captures`) and the threads `ι`.
`latest` is the stream and the ticket that the last record of an event left, if it put a marker on a
stream of the backend. -/
structure State (ι ε η σ γ : Type) where
  events : ε → EventRecord σ γ
  latest : ε → Option (σ × Nat)
  streams : σ → TicketStream
  captures : AssocMap η γ
  threads : ι → Phase ε η σ γ

/-- Who takes the next step: a thread calls, goes on in its call, gets the stream that its marker
went to, or an error of the backend; other calls commit a command buffer or poll; the GPU is done
with one; a capture begins or ends. -/
inductive Action (ι ε η σ γ : Type)
  | record (thread : ι) (event : ε) (handle : η)
  | query (thread : ι) (event : ε)
  | synchronize (thread : ι) (event : ε)
  | waitEvent (thread : ι) (event : ε) (handle : η)
  | advance (thread : ι)
  | marker (thread : ι) (stream : σ)
  | abandon (thread : ι)
  | submit (stream : σ)
  | poll (stream : σ)
  | finish (stream : σ) (ticket : Nat) (withError : Bool)
  | beginCapture (handle : η) (graph : γ)
  | endCapture (handle : η)

section Step

variable {ι ε η σ γ : Type} [DecidableEq ι] [DecidableEq ε] [DecidableEq η] [DecidableEq σ]
  [DecidableEq γ]

namespace State

variable (s : State ι ε η σ γ)

def setThread (i : ι) (phase : Phase ε η σ γ) : State ι ε η σ γ :=
  { s with threads := Function.update s.threads i phase }

def setEvent (e : ε) (event : EventRecord σ γ) : State ι ε η σ γ :=
  { s with events := Function.update s.events e event }

def setStream (stream : σ) (tickets : TicketStream) : State ι ε η σ γ :=
  { s with streams := Function.update s.streams stream tickets }

def setLatest (e : ε) (latest : Option (σ × Nat)) : State ι ε η σ γ :=
  { s with latest := Function.update s.latest e latest }

/-- The last critical section of `update_event_completion` (`1739-1744`, `1766-1771`). -/
def mark (e : ε) : State ι ε η σ γ :=
  let event := s.events e
  s.setEvent e
    { event with
      complete := true
      timingValid := event.timingValid || !event.disableTiming }

/-- The critical section of `cudaEventRecord` on a stream that captures (`5686-5691`). -/
def installCaptured (e : ε) (graph : γ) : State ι ε η σ γ :=
  (s.setEvent e
    { s.events e with
      captureGraph := some graph
      recordedOnce := true
      complete := true
      timingValid := false }).setLatest e none

/-- The critical section of `cudaEventRecord` (`5710-5721`). -/
def install (e : ε) (stream : σ) (ticket : Nat) : State ι ε η σ γ :=
  let event := s.events e
  (s.setEvent e
    { event with
      stream := some stream
      ticket := ticket
      recordedOnce := true
      complete := false
      timingValid := !event.disableTiming
      captureGraph := none }).setLatest e (some (stream, ticket))

/-- The next step of a thread in its call. -/
def advance (i : ι) : Option (State ι ε η σ γ) :=
  match s.threads i with
  | .idle => none
  | .linking e handle =>
    match (s.events e).captureGraph with
    | none => some (s.setThread i (.resolving e))
    | some graph => some (s.setThread i (.checking e handle graph))
  | .checking e handle graph =>
    if s.captures.any (fun entry => entry.2 = graph) then
      some (s.setThread i (.joining handle graph))
    else some (s.setThread i (.resolving e))
  | .joining handle graph =>
    -- a stream in another capture is refused, and one in this capture stays as it is
    if s.captures.contains handle then some (s.setThread i .idle)
    else some ({ s with captures := s.captures.assign handle graph }.setThread i .idle)
  | .resolving e => some (s.setThread i (.entering e true))
  | .entering e wait =>
    let event := s.events e
    if event.complete then some (s.setThread i .idle)
    else some (s.setThread i (.copied e wait event.stream event.ticket))
  | .copied e wait stream ticket =>
    match stream with
    | none => some ((s.mark e).setThread i .idle)
    | some stream =>
      if ticket = 0 then some ((s.mark e).setThread i .idle)
      else some (s.setThread i (.polling e wait stream ticket))
  | .polling e wait stream ticket =>
    let polled := (s.streams stream).pollOne
    match polled.1 with
    | none => some (s.setThread i (.polled e wait stream ticket))
    | some front =>
      some ((s.setStream stream polled.2).setThread i
        (if front ∈ polled.2.failed then .idle else .polling e wait stream ticket))
  | .polled e wait stream ticket =>
    let tickets := s.streams stream
    if tickets.nextTicket ≤ ticket then some (s.setThread i .idle)
    else if ticket ≤ tickets.completedTicket then
      some (s.setThread i (.confirmed e stream ticket))
    else if wait then
      match tickets.pendingBuffers with
      | [] => some (s.setThread i .idle)
      | front :: _ => some (s.setThread i (.waiting e stream ticket front))
    else some (s.setThread i .idle)
  | .waiting e stream ticket front =>
    let tickets := s.streams stream
    if front ∈ tickets.finished then
      some (s.setThread i
        (if front ∈ tickets.failed then .idle else .polling e true stream ticket))
    else none
  | .confirmed e _ _ => some ((s.mark e).setThread i .idle)
  | .capturing e graph => some ((s.installCaptured e graph).setThread i .idle)
  | .recording _ => none
  | .marked e stream ticket => some ((s.install e stream ticket).setThread i .idle)

end State

/-- The state after a step, if the step can be taken: a call starts in a thread that is in none,
and only a command buffer that was committed and is not done can become done. -/
def step (s : State ι ε η σ γ) : Action ι ε η σ γ → Option (State ι ε η σ γ)
  | .record i e handle =>
    if s.threads i = .idle then
      match s.captures.find? handle with
      | some graph => some (s.setThread i (.capturing e graph))
      | none => some (s.setThread i (.recording e))
    else none
  | .query i e => if s.threads i = .idle then some (s.setThread i (.entering e false)) else none
  | .synchronize i e =>
    if s.threads i = .idle then some (s.setThread i (.entering e true)) else none
  | .waitEvent i e handle =>
    if s.threads i = .idle then some (s.setThread i (.linking e handle)) else none
  | .advance i => s.advance i
  | .marker i stream =>
    match s.threads i with
    | .recording e =>
      some ((s.setStream stream (s.streams stream).addPending).setThread i
        (.marked e stream (s.streams stream).nextTicket))
    | _ => none
  | .abandon i =>
    match s.threads i with
    | .recording _ | .resolving _ => some (s.setThread i .idle)
    | _ => none
  | .submit stream => some (s.setStream stream (s.streams stream).addPending)
  | .poll stream => some (s.setStream stream (s.streams stream).pollOne.2)
  | .finish stream ticket withError =>
    let tickets := s.streams stream
    if 0 < ticket ∧ ticket < tickets.nextTicket ∧ ticket ∉ tickets.finished then
      some (s.setStream stream (tickets.finish ticket withError))
    else none
  | .beginCapture handle graph =>
    if s.captures.contains handle then none
    else some { s with captures := s.captures.assign handle graph }
  | .endCapture handle =>
    match s.captures.find? handle with
    | some graph =>
      some { s with captures := s.captures.filter fun entry => entry.2 ≠ graph }
    | none => none

/-- Events just created, streams without work, and threads in no call. -/
def initial (disableTiming : ε → Bool) : State ι ε η σ γ where
  events := fun e => .created σ γ (disableTiming e)
  latest := fun _ => none
  streams := fun _ => .initial
  captures := []
  threads := fun _ => .idle

end Step

end CuMetal.Runtime.Events
