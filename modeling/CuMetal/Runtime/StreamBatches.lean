import CuMetal.Lib.GuardedRun
import CuMetal.Runtime.Buffers
import CuMetal.Runtime.StreamTickets

/-!
# The open batch of a stream and the calls on its tickets

Threads submit to a `StreamImpl` (`runtime/metal_backend/metal_backend.mm:328-613`) and ask for its
tickets. What a thread does while it holds `mutex_` is one step; a submission, which holds
`submission_mutex_` throughout, takes several.
-/

namespace CuMetal.Runtime.Batches

/-- The command buffer that an operation is in. -/
inductive CommandBuffer
  /-- `open_buffer_`. -/
  | openBatch
  /-- The one that a submission has made and not yet given to `add_pending`. -/
  | unnumbered
  | numbered (ticket : Nat)
  /-- It gets no ticket: the submission waits for it (`2189`), or has done so. -/
  | awaiting
  | awaited
  deriving DecidableEq, Repr

/-- How far the thread is that holds `submission_mutex_`. -/
inductive Stage
  | locked
  /-- The batch is closed; the last ticket that `add_pending` gave this submission. -/
  | flushed (ticket : Option Nat)
  /-- A command buffer is on its way to `add_pending`. -/
  | committed
  | awaiting
  deriving DecidableEq, Repr

/-- The errors of the calls on tickets. -/
inductive TicketFailure
  | missingOutput
  | queryUnknown
  | waitUnknown
  | waitNoPending
  /-- `check_command_buffer_status` of the command buffer with this ticket. -/
  | commandBuffer (ticket : Nat)
  deriving DecidableEq, Repr

/-- The status and the message of an error (`547`, `565`, `591`, `600`), given what Metal says of
the command buffers (`map_command_buffer_error`). -/
def TicketFailure.report (reported : Nat → CudaError × String) :
    TicketFailure → CudaError × String
  | .missingOutput => (.invalidValue, "query_ticket missing out_complete")
  | .queryUnknown => (.invalidValue, "query_ticket received unknown ticket")
  | .waitUnknown => (.invalidValue, "wait_ticket received unknown ticket")
  | .waitNoPending => (.unknown, "wait_ticket has no pending command buffers")
  | .commandBuffer ticket => reported ticket

/-- What a call returned. -/
inductive Return
  | submitted (ticket : Option Nat)
  | tail (ticket : Nat)
  | polled (result : Except TicketFailure Unit)
  | queried (ticket : Nat) (result : Except TicketFailure Bool)
  | waited (ticket : Nat) (result : Except TicketFailure Unit)

/-- Who called `poll_completed`. -/
inductive Caller
  | outside
  | query (ticket : Nat)
  | wait (ticket : Nat)

/-- How far a thread is in its call. -/
inductive Phase
  | idle
  | submitting
  /-- `tail_ticket` before `flush_open_batch` (`510`), and after it. -/
  | tailFlushing
  | tailReading
  /-- `query_ticket` (`544`) and `wait_ticket` (`575`) before they flush. -/
  | queryFlushing (ticket : Nat) (hasOutput : Bool)
  | waitFlushing (ticket : Nat)
  /-- `poll_completed` before it flushes (`516`), and at the top of its loop (`517`). -/
  | pollFlushing (caller : Caller)
  | polling (caller : Caller)
  /-- The last critical section of `query_ticket` (`562`). -/
  | querying (ticket : Nat)
  /-- The critical section of `wait_ticket` (`587`), and `waitUntilCompleted` (`608`). -/
  | checking (ticket : Nat)
  | waiting (ticket front : Nat)
  | returned (result : Return)

def Phase.atRest : Phase → Bool
  | .idle | .returned _ => true
  | _ => false

/-- What a call found when it was made: how many operations had been issued, and `next_ticket_`. -/
structure Entry where
  issued : Nat
  nextTicket : Nat
  deriving DecidableEq, Repr

/-- A stream and the threads `ι` that call it. `openBatch` is `open_batch_dispatches_` while
`open_buffer_` is set, `operations` the operations in the order in which they were issued, and
`before` the number of them that had been issued when a call gave out the ticket. -/
structure State (ι : Type) where
  tickets : TicketStream
  openBatch : Option Nat
  operations : List CommandBuffer
  before : Nat → Nat
  submission : Option Stage
  entries : ι → Entry
  threads : ι → Phase

/-- A step of a submission. `issued` tells whether the operation gets into the command buffer: a
marker has none, and an argument can be refused after the encoder was chosen. -/
inductive Move
  | extend (issued : Bool)
  | flush
  | beginBatch (issued : Bool)
  | commit (issued : Bool)
  | addPending
  | commitAwaited
  | awaited
  | release

inductive Call
  | tail
  | poll
  | query (ticket : Nat) (hasOutput : Bool)
  | wait (ticket : Nat)

/-- Who takes the next step: a thread takes `submission_mutex_`, goes on in its submission, calls
or goes on in its call; a submission to another stream flushes this one
(`flush_other_open_batches`); the GPU is done with a command buffer. -/
inductive Action (ι : Type)
  | submit (thread : ι)
  | move (thread : ι) (move : Move)
  | call (thread : ι) (call : Call)
  | advance (thread : ι)
  | flushOther
  | finish (ticket : Nat) (withError : Bool)

def Call.phase : Call → Phase
  | .tail => .tailFlushing
  | .poll => .pollFlushing .outside
  | .query ticket hasOutput => .queryFlushing ticket hasOutput
  | .wait ticket => .waitFlushing ticket

def Caller.polled : Caller → Phase
  | .outside => .returned (.polled (.ok ()))
  | .query ticket => .querying ticket
  | .wait ticket => .checking ticket

def Caller.failed (failure : TicketFailure) : Caller → Phase
  | .outside => .returned (.polled (.error failure))
  | .query ticket => .returned (.queried ticket (.error failure))
  | .wait ticket => .returned (.waited ticket (.error failure))

namespace State

variable {ι : Type} (s : State ι)

/-- The operations of one command buffer are now in another. -/
def rename (source target : CommandBuffer) : List CommandBuffer :=
  s.operations.map fun buffer => if buffer = source then target else buffer

/-- A ticket is given out after so many operations. -/
def giveOut (ticket count : Nat) : Nat → Nat :=
  Function.update s.before ticket (max (s.before ticket) count)

/-- `add_pending` (`499-504`). -/
def addPending (commandBuffer : CommandBuffer) : State ι :=
  { s with
    tickets := s.tickets.addPending
    operations := s.rename commandBuffer (.numbered s.tickets.nextTicket)
    before := s.giveOut s.tickets.nextTicket s.operations.length }

/-- `flush_open_batch_locked` (`475-492`). -/
def flushOpenBatchLocked : State ι :=
  match s.openBatch with
  | none => s
  | some _ => { s.addPending .openBatch with openBatch := none }

/-- An operation gets into a command buffer, if there is one. -/
def issue (issued : Bool) (commandBuffer : CommandBuffer) : State ι :=
  { s with operations := s.operations ++ if issued then [commandBuffer] else [] }

def setSubmission (stage : Option Stage) : State ι :=
  { s with submission := stage }

def setThread [DecidableEq ι] (i : ι) (phase : Phase) : State ι :=
  { s with threads := Function.update s.threads i phase }

/-- The submission unlocks `submission_mutex_` and returns. -/
def release [DecidableEq ι] (i : ι) (ticket : Option Nat) : State ι :=
  (s.setSubmission none).setThread i (.returned (.submitted ticket))

/-- The next step of the submission that holds `submission_mutex_`: into the open batch
(`2699-2708`, `2941-2952`), or, once that was flushed, into a new batch (`2734`, `2982`), into
command buffers with a ticket (`1933`, `1985`, `2024`, `2185`, `2753`, `3162`), or into one that it
waits for (`2189`). -/
def move [DecidableEq ι] (maxBatchDispatches : Nat) (i : ι) : Move → Option (State ι)
  | .extend issued =>
    match s.submission, s.openBatch with
    | some .locked, some dispatches =>
      if dispatches < maxBatchDispatches then
        some ({ s.issue issued .openBatch with
          openBatch := some (dispatches + 1) }.release i none)
      else none
    | _, _ => none
  | .flush =>
    match s.submission with
    | some .locked => some (s.flushOpenBatchLocked.setSubmission (some (.flushed none)))
    | _ => none
  | .beginBatch issued =>
    match s.submission with
    | some (.flushed ticket) =>
      if 0 < maxBatchDispatches then
        some ({ s.issue issued .openBatch with openBatch := some 1 }.release i ticket)
      else none
    | _ => none
  | .commit issued =>
    match s.submission with
    | some (.flushed _) => some ((s.issue issued .unnumbered).setSubmission (some .committed))
    | _ => none
  | .addPending =>
    match s.submission with
    | some .committed =>
      some ((s.addPending .unnumbered).setSubmission
        (some (.flushed (some s.tickets.nextTicket))))
    | _ => none
  | .commitAwaited =>
    match s.submission with
    | some (.flushed _) => some ((s.issue true .awaiting).setSubmission (some .awaiting))
    | _ => none
  | .awaited =>
    match s.submission with
    | some .awaiting =>
      some ({ s with operations := s.rename .awaiting .awaited }.release i none)
    | _ => none
  | .release =>
    match s.submission with
    | some .locked => some (s.release i none)
    | some (.flushed ticket) => some (s.release i ticket)
    | _ => none

/-- The next step of a thread in `tail_ticket`, `poll_completed`, `query_ticket` or
`wait_ticket`. -/
def advance [DecidableEq ι] (i : ι) : Option (State ι) :=
  match s.threads i with
  | .idle | .submitting | .returned _ => none
  | .tailFlushing =>
    if s.submission = none then some (s.flushOpenBatchLocked.setThread i .tailReading) else none
  | .tailReading =>
    let ticket := s.tickets.nextTicket - 1
    some ({ s with before := s.giveOut ticket (s.entries i).issued }.setThread i
      (.returned (.tail ticket)))
  | .queryFlushing ticket hasOutput =>
    if s.submission = none then
      some (s.flushOpenBatchLocked.setThread i
        (if hasOutput = false then .returned (.queried ticket (.error .missingOutput))
        else if ticket = 0 then .returned (.queried ticket (.ok true))
        else .pollFlushing (.query ticket)))
    else none
  | .waitFlushing ticket =>
    if s.submission = none then
      some (s.flushOpenBatchLocked.setThread i
        (if ticket = 0 then .returned (.waited ticket (.ok ()))
        else .pollFlushing (.wait ticket)))
    else none
  | .pollFlushing caller =>
    if s.submission = none then
      some (s.flushOpenBatchLocked.setThread i (.polling caller))
    else none
  | .polling caller =>
    let polled := s.tickets.pollOne
    match polled.1 with
    | none => some (s.setThread i caller.polled)
    | some front =>
      some ({ s with tickets := polled.2 }.setThread i
        (if front ∈ polled.2.failed then caller.failed (.commandBuffer front)
        else .polling caller))
  | .querying ticket =>
    some (s.setThread i (.returned (.queried ticket
      (if s.tickets.nextTicket ≤ ticket then .error .queryUnknown
      else .ok (decide (ticket ≤ s.tickets.completedTicket))))))
  | .checking ticket =>
    some (s.setThread i
      (if s.tickets.nextTicket ≤ ticket then .returned (.waited ticket (.error .waitUnknown))
      else if ticket ≤ s.tickets.completedTicket then .returned (.waited ticket (.ok ()))
      else
        match s.tickets.pendingBuffers with
        | [] => .returned (.waited ticket (.error .waitNoPending))
        | front :: _ => .waiting ticket front))
  | .waiting ticket front =>
    if front ∈ s.tickets.finished then
      some (s.setThread i
        (if front ∈ s.tickets.failed then
          .returned (.waited ticket (.error (.commandBuffer front)))
        else .pollFlushing (.wait ticket)))
    else none

/-- The GPU can be done with a command buffer that has a ticket, and with the one that is about to
get the next. -/
def committed (ticket : Nat) : Bool :=
  0 < ticket && (ticket < s.tickets.nextTicket ||
    (ticket = s.tickets.nextTicket && s.submission = some .committed))

end State

variable {ι : Type} [DecidableEq ι]

/-- The state after a step, if the step can be taken. -/
def step (maxBatchDispatches : Nat) (s : State ι) : Action ι → Option (State ι)
  | .submit i =>
    if s.submission = none ∧ (s.threads i).atRest then
      some ((s.setSubmission (some .locked)).setThread i .submitting)
    else none
  | .move i move =>
    match s.threads i with
    | .submitting => s.move maxBatchDispatches i move
    | _ => none
  | .call i call =>
    if (s.threads i).atRest then
      some ({ s with
        entries := Function.update s.entries i
          { issued := s.operations.length
            nextTicket := s.tickets.nextTicket } }.setThread i call.phase)
    else none
  | .advance i => s.advance i
  | .flushOther => if s.submission = none then some s.flushOpenBatchLocked else none
  | .finish ticket withError =>
    if s.committed ticket ∧ ticket ∉ s.tickets.finished then
      some { s with tickets := s.tickets.finish ticket withError }
    else none

/-- A stream without any work, and threads in no call. -/
def initial : State ι where
  tickets := .initial
  openBatch := none
  operations := []
  before := fun _ => 0
  submission := none
  entries := fun _ => { issued := 0, nextTicket := 1 }
  threads := fun _ => .idle

end CuMetal.Runtime.Batches
