import Mathlib.Data.List.Range

/-!
# The tickets of a stream

How a `StreamImpl` (`runtime/metal_backend/metal_backend.mm:328-599`) numbers the command buffers
that it commits and learns which of them have completed.
-/

namespace CuMetal.Runtime

open List

/-- The tickets of a `StreamImpl` (`581-583`); a pending command buffer is named by its ticket.
`finished` is the status of the command buffers, and `failed` those of them that ended in an
error. -/
structure TicketStream where
  nextTicket : Nat
  completedTicket : Nat
  pendingBuffers : List Nat
  finished : List Nat
  failed : List Nat
  deriving DecidableEq, Repr

namespace TicketStream

def initial : TicketStream where
  nextTicket := 1
  completedTicket := 0
  pendingBuffers := []
  finished := []
  failed := []

variable (stream : TicketStream)

/-- `add_pending` (`486-491`). -/
def addPending : TicketStream :=
  { stream with
    nextTicket := stream.nextTicket + 1
    pendingBuffers := stream.pendingBuffers ++ [stream.nextTicket] }

/-- One turn of the loop of `poll_completed` (`504-526`): the ticket of the command buffer that it
took from the front, if that has completed. -/
def pollOne : Option Nat × TicketStream :=
  match stream.pendingBuffers with
  | [] => (none, stream)
  | front :: rest =>
    if front ∈ stream.finished then
      (some front, { stream with completedTicket := front, pendingBuffers := rest })
    else (none, stream)

def finish (ticket : Nat) (withError : Bool) : TicketStream :=
  { stream with
    finished := ticket :: stream.finished
    failed := if withError then ticket :: stream.failed else stream.failed }

/-- The tickets from the completed one on are pending, in order, and those up to it finished. -/
structure Ordered : Prop where
  pending : stream.pendingBuffers =
    List.range' (stream.completedTicket + 1) (stream.nextTicket - (stream.completedTicket + 1))
  completed : stream.completedTicket < stream.nextTicket
  finished : ∀ ticket, 0 < ticket → ticket ≤ stream.completedTicket → ticket ∈ stream.finished

variable {stream}

theorem ordered_initial : initial.Ordered where
  pending := rfl
  completed := by decide
  finished := by
    intro ticket positive bound
    simp only [initial] at bound
    omega

theorem Ordered.addPending (ordered : stream.Ordered) : stream.addPending.Ordered where
  pending := by
    have completed := ordered.completed
    simp only [TicketStream.addPending, ordered.pending]
    have length : stream.nextTicket + 1 - (stream.completedTicket + 1) =
        stream.nextTicket - (stream.completedTicket + 1) + 1 := by omega
    rw [length, range'_concat]
    congr 2
    omega
  completed := by
    have completed := ordered.completed
    simp only [TicketStream.addPending]
    omega
  finished := ordered.finished

theorem Ordered.pollOne (ordered : stream.Ordered) : stream.pollOne.2.Ordered := by
  unfold TicketStream.pollOne
  split
  · exact ordered
  next front rest pending =>
    split
    next done =>
      have range := ordered.pending
      rw [pending] at range
      have completed := ordered.completed
      obtain ⟨count, counted⟩ : ∃ count,
          stream.nextTicket - (stream.completedTicket + 1) = count + 1 := by
        cases length : stream.nextTicket - (stream.completedTicket + 1) with
        | zero => simp [length] at range
        | succ count => exact ⟨count, rfl⟩
      rw [counted, range'_succ] at range
      obtain ⟨rfl, rfl⟩ := cons.inj range
      constructor
      · dsimp only
        congr 1
        omega
      · dsimp only
        omega
      · intro ticket positive bound
        dsimp only at bound ⊢
        rcases lt_or_ge stream.completedTicket ticket with above | below
        · obtain rfl : ticket = stream.completedTicket + 1 := by omega
          exact done
        · exact ordered.finished ticket positive below
    · exact ordered

theorem Ordered.finish (ordered : stream.Ordered) (ticket : Nat) (withError : Bool) :
    (stream.finish ticket withError).Ordered where
  pending := ordered.pending
  completed := ordered.completed
  finished := by
    intro other positive bound
    exact mem_cons_of_mem _ (ordered.finished other positive bound)

theorem nextTicket_pollOne : stream.pollOne.2.nextTicket = stream.nextTicket := by
  unfold TicketStream.pollOne
  split
  · rfl
  · split <;> rfl

theorem Ordered.completedTicket_pollOne (ordered : stream.Ordered) :
    stream.completedTicket ≤ stream.pollOne.2.completedTicket := by
  unfold TicketStream.pollOne
  split
  · exact le_refl _
  next front rest pending =>
    split
    · have range := ordered.pending
      rw [pending] at range
      have mem : front ∈ range' (stream.completedTicket + 1)
          (stream.nextTicket - (stream.completedTicket + 1)) := by
        rw [← range]
        exact mem_cons_self
      have above := (mem_range'_1.mp mem).1
      exact Nat.le_of_succ_le above
    · exact le_refl _

theorem finished_pollOne : stream.pollOne.2.finished = stream.finished := by
  unfold TicketStream.pollOne
  split
  · rfl
  · split <;> rfl

theorem mem_finished_finish {ticket other : Nat} {withError : Bool}
    (finished : other ∈ stream.finished) :
    other ∈ (stream.finish ticket withError).finished :=
  mem_cons_of_mem _ finished

end TicketStream

end CuMetal.Runtime
