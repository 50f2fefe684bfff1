import CuMetal.Runtime.EventCompletion

/-!
# When an event is complete

What holds of the events while the threads take turns, and the one step that can break it: a
thread that marks an event which was recorded again since it copied the ticket.
-/

namespace CuMetal.Runtime.Events

open CuMetal.Guarded Function State TicketStream

variable {ι ε η σ γ : Type} {s s' : State ι ε η σ γ}

/-- A complete event has no marker, or the command buffer of its marker has finished. -/
def State.Sound (s : State ι ε η σ γ) : Prop :=
  ∀ e, (s.events e).complete = true → ∀ stream ticket, s.latest e = some (stream, ticket) →
    ticket ∈ (s.streams stream).finished

/-- The thread is about to mark an event on behalf of a ticket, but a later record has put another
ticket there and its command buffer has not finished. -/
def State.Overtaken (s : State ι ε η σ γ) (i : ι) : Prop :=
  ∃ e stream ticket latestStream latestTicket, s.threads i = .confirmed e stream ticket ∧
    s.latest e = some (latestStream, latestTicket) ∧
    (latestStream, latestTicket) ≠ (stream, ticket) ∧
    latestTicket ∉ (s.streams latestStream).finished

/-- No thread that was overtaken takes the next step. -/
def Timely (s : State ι ε η σ γ) (a : Action ι ε η σ γ) : Prop :=
  ∀ i, a = .advance i → ¬ s.Overtaken i

/-- What a thread knows of the ticket that it carries. -/
def Phase.Ok (finished : σ → List Nat) : Phase ε η σ γ → Prop
  | .copied _ _ stream ticket => stream.isSome ∧ 0 < ticket
  | .polling _ _ _ ticket | .polled _ _ _ ticket | .waiting _ _ ticket _ => 0 < ticket
  | .confirmed _ stream ticket => ticket ∈ finished stream
  | .marked _ _ ticket => 0 < ticket
  | _ => True

/-- The invariant of the threads' turns. -/
structure Invariant (s : State ι ε η σ γ) : Prop where
  ordered : ∀ stream, (s.streams stream).Ordered
  outstanding : ∀ e, (s.events e).complete = false →
    ∃ stream ticket, (s.events e).stream = some stream ∧ (s.events e).ticket = ticket ∧
      0 < ticket ∧ s.latest e = some (stream, ticket)
  sound : s.Sound
  threads : ∀ i, (s.threads i).Ok fun stream => (s.streams stream).finished

variable {phase : Phase ε η σ γ}

theorem Phase.Ok.mono {finished finished' : σ → List Nat} (ok : phase.Ok finished)
    (grows : ∀ stream ticket, ticket ∈ finished stream → ticket ∈ finished' stream) :
    phase.Ok finished' := by
  cases phase <;> first | exact ok | exact grows _ _ ok

theorem invariant_initial (disableTiming : ε → Bool) :
    Invariant (initial disableTiming : State ι ε η σ γ) where
  ordered := fun _ => ordered_initial
  outstanding := fun _ open_ => by cases open_
  sound := fun _ _ _ _ latest => by cases latest
  threads := fun _ => trivial

namespace Invariant

theorem setThread [DecidableEq ι] (inv : Invariant s) (i : ι)
    (ok : phase.Ok fun stream => (s.streams stream).finished) : Invariant (s.setThread i phase) :=
  { inv with
    threads := by
      intro j
      by_cases same : j = i
      · simpa [State.setThread, same] using ok
      · simpa [State.setThread, same] using inv.threads j }

theorem setStream [DecidableEq σ] (inv : Invariant s) {stream : σ} {tickets : TicketStream}
    (ordered : tickets.Ordered)
    (grows : ∀ ticket, ticket ∈ (s.streams stream).finished → ticket ∈ tickets.finished) :
    Invariant (s.setStream stream tickets) := by
  have mono : ∀ other ticket, ticket ∈ (s.streams other).finished →
      ticket ∈ ((s.setStream stream tickets).streams other).finished := by
    intro other ticket finished
    by_cases same : other = stream
    · subst same
      simpa [State.setStream] using grows ticket finished
    · simpa [State.setStream, same] using finished
  constructor
  · intro other
    by_cases same : other = stream
    · simpa [State.setStream, same] using ordered
    · simpa [State.setStream, same] using inv.ordered other
  · exact inv.outstanding
  · exact fun e complete other ticket latest => mono other ticket
      (inv.sound e complete other ticket latest)
  · exact fun i => (inv.threads i).mono mono

theorem setCaptures (inv : Invariant s) (captures : AssocMap η γ) :
    Invariant { s with captures } where
  ordered := inv.ordered
  outstanding := inv.outstanding
  sound := inv.sound
  threads := inv.threads

variable {e : ε}

/-- Marking an event keeps the invariant when its latest command buffer has finished. -/
theorem mark [DecidableEq ε] (inv : Invariant s)
    (finished : ∀ stream ticket, s.latest e = some (stream, ticket) → ticket ∈ (s.streams
      stream).finished) : Invariant (s.mark e) where
  ordered := inv.ordered
  outstanding := by
    intro other open_
    by_cases same : other = e
    · subst same
      simp [mark, setEvent] at open_
    · simp only [State.mark, State.setEvent, ne_eq, same, not_false_eq_true,
        update_of_ne] at open_ ⊢
      exact inv.outstanding other open_
  sound := by
    intro other complete stream ticket latest
    by_cases same : other = e
    · subst same
      exact finished stream ticket latest
    · simp only [State.mark, State.setEvent, ne_eq, same, not_false_eq_true,
        update_of_ne] at complete
      exact inv.sound other complete stream ticket latest
  threads := inv.threads

theorem install [DecidableEq ε] (inv : Invariant s) {stream : σ} {ticket : Nat}
    (positive : 0 < ticket) : Invariant (s.install e stream ticket) where
  ordered := inv.ordered
  outstanding := by
    intro other open_
    by_cases same : other = e
    · subst same
      exact ⟨stream, ticket, by simp [install, setEvent, setLatest],
        by simp [install, setEvent, setLatest], positive,
        by simp [install, setLatest]⟩
    · simp only [State.install, State.setEvent, State.setLatest, ne_eq, same, not_false_eq_true,
        update_of_ne] at open_ ⊢
      exact inv.outstanding other open_
  sound := by
    intro other complete other' ticket' latest
    by_cases same : other = e
    · subst same
      simp [install, setEvent, setLatest] at complete
    · simp only [State.install, State.setEvent, State.setLatest, ne_eq, same, not_false_eq_true,
        update_of_ne] at complete latest
      exact inv.sound other complete other' ticket' latest
  threads := inv.threads

theorem installCaptured [DecidableEq ε] (inv : Invariant s) {graph : γ} :
    Invariant (s.installCaptured e graph) where
  ordered := inv.ordered
  outstanding := by
    intro other open_
    by_cases same : other = e
    · subst same
      simp [installCaptured, setEvent, setLatest] at open_
    · simp only [State.installCaptured, State.setEvent, State.setLatest, ne_eq, same,
        not_false_eq_true, update_of_ne] at open_ ⊢
      exact inv.outstanding other open_
  sound := by
    intro other complete stream ticket latest
    by_cases same : other = e
    · subst same
      simp [installCaptured, setLatest] at latest
    · simp only [State.installCaptured, State.setEvent, State.setLatest, ne_eq, same,
        not_false_eq_true, update_of_ne] at complete latest
      exact inv.sound other complete stream ticket latest
  threads := inv.threads

end Invariant

/-! ## A step -/

section Step

variable [DecidableEq ι] [DecidableEq ε] [DecidableEq η] [DecidableEq σ] [DecidableEq γ]

/-- A thread that goes on in its call keeps the invariant unless it was overtaken. -/
theorem Invariant.advance (inv : Invariant s) {i : ι} (timely : ¬ s.Overtaken i)
    (stepped : s.advance i = some s') : Invariant s' := by
  have ok := inv.threads i
  unfold State.advance at stepped
  cases phase : s.threads i with
  | idle => simp [phase] at stepped
  | linking e handle =>
    simp only [phase] at stepped
    split at stepped <;> cases stepped <;> exact inv.setThread i trivial
  | checking e handle graph =>
    simp only [phase] at stepped
    split at stepped <;> cases stepped <;> exact inv.setThread i trivial
  | joining handle graph =>
    simp only [phase] at stepped
    split at stepped <;> cases stepped
    · exact inv.setThread i trivial
    · exact (inv.setCaptures _).setThread i trivial
  | resolving e =>
    simp only [phase] at stepped
    cases stepped
    exact inv.setThread i trivial
  | entering e wait =>
    simp only [phase] at stepped
    split at stepped <;> cases stepped
    · exact inv.setThread i trivial
    next open_ =>
      obtain ⟨stream, ticket, event, found, positive, -⟩ :=
        inv.outstanding e (Bool.eq_false_iff.mpr open_)
      refine inv.setThread i ⟨by simp [event], ?_⟩
      rw [found]
      exact positive
  | copied e wait stream ticket =>
    rw [phase] at ok
    obtain ⟨present, positive⟩ := ok
    obtain ⟨stream, rfl⟩ := Option.isSome_iff_exists.mp present
    simp only [phase, ne_of_gt positive, if_false] at stepped
    cases stepped
    exact inv.setThread i positive
  | polling e wait stream ticket =>
    rw [phase] at ok
    simp only [phase] at stepped
    split at stepped <;> cases stepped
    · exact inv.setThread i ok
    · have polled : Invariant (s.setStream stream (s.streams stream).pollOne.2) :=
        inv.setStream (inv.ordered stream).pollOne fun ticket finished => by
          rwa [finished_pollOne]
      refine polled.setThread i ?_
      split
      · trivial
      · exact ok
  | polled e wait stream ticket =>
    rw [phase] at ok
    simp only [phase] at stepped
    split at stepped
    · cases stepped
      exact inv.setThread i trivial
    · split at stepped
      next reached =>
        cases stepped
        exact inv.setThread i ((inv.ordered stream).finished ticket ok reached)
      · split at stepped
        · split at stepped <;> cases stepped
          · exact inv.setThread i trivial
          · exact inv.setThread i ok
        · cases stepped
          exact inv.setThread i trivial
  | waiting e stream ticket front =>
    rw [phase] at ok
    simp only [phase] at stepped
    split at stepped
    · cases stepped
      refine inv.setThread i ?_
      split
      · trivial
      · exact ok
    · cases stepped
  | confirmed e stream ticket =>
    rw [phase] at ok
    simp only [phase] at stepped
    cases stepped
    refine (inv.mark fun latestStream latestTicket latest => ?_).setThread i trivial
    by_cases same : (latestStream, latestTicket) = (stream, ticket)
    · cases same
      exact ok
    · by_contra unfinished
      exact timely ⟨e, stream, ticket, latestStream, latestTicket, phase, latest, same, unfinished⟩
  | capturing e graph =>
    simp only [phase] at stepped
    cases stepped
    exact inv.installCaptured.setThread i trivial
  | recording e => simp [phase] at stepped
  | marked e stream ticket =>
    rw [phase] at ok
    simp only [phase] at stepped
    cases stepped
    exact (inv.install ok).setThread i trivial

theorem Invariant.step (inv : Invariant s) {a : Action ι ε η σ γ} (timely : Timely s a)
    (stepped : step s a = some s') : Invariant s' := by
  cases a with
  | record i e handle =>
    simp only [Events.step] at stepped
    split at stepped
    · split at stepped <;> cases stepped <;> exact inv.setThread i trivial
    · cases stepped
  | query i e | synchronize i e | waitEvent i e handle =>
    simp only [Events.step] at stepped
    split at stepped
    · cases stepped
      exact inv.setThread i trivial
    · cases stepped
  | advance i => exact inv.advance (timely i rfl) stepped
  | marker i stream =>
    simp only [Events.step] at stepped
    split at stepped
    · cases stepped
      have committed : Invariant (s.setStream stream (s.streams stream).addPending) :=
        inv.setStream (inv.ordered stream).addPending fun _ finished => finished
      exact committed.setThread i (Nat.zero_lt_of_lt (inv.ordered stream).completed)
    · cases stepped
  | abandon i =>
    simp only [Events.step] at stepped
    split at stepped
    all_goals first
      | (cases stepped; exact inv.setThread i trivial)
      | cases stepped
  | submit stream =>
    cases stepped
    exact inv.setStream (inv.ordered stream).addPending fun _ finished => finished
  | poll stream =>
    cases stepped
    exact inv.setStream (inv.ordered stream).pollOne fun ticket finished => by
      rwa [finished_pollOne]
  | finish stream ticket withError =>
    simp only [Events.step] at stepped
    split at stepped
    · cases stepped
      exact inv.setStream ((inv.ordered stream).finish ticket withError) fun _ finished =>
        mem_finished_finish finished
    · cases stepped
  | beginCapture handle graph =>
    simp only [Events.step] at stepped
    split at stepped
    · cases stepped
    · cases stepped
      exact inv.setCaptures _
  | endCapture handle =>
    simp only [Events.step] at stepped
    split at stepped
    · cases stepped
      exact inv.setCaptures _
    · cases stepped

/-- A thread that was overtaken marks an event whose command buffer has not finished. -/
theorem not_sound_of_overtaken {i : ι} (overtaken : s.Overtaken i)
    (stepped : s.advance i = some s') : ¬ s'.Sound := by
  obtain ⟨e, stream, ticket, latestStream, latestTicket, phase, latest, -, unfinished⟩ := overtaken
  simp only [advance, phase] at stepped
  cases stepped
  intro sound
  refine unfinished (sound e ?_ latestStream latestTicket latest)
  simp [setThread, mark, setEvent]

/-- From events just created, a complete event always has a finished command buffer if and only if
no thread marks an event after it was overtaken. -/
theorem complete_iff_timely {disableTiming : ε → Bool}
    {trail : List (State ι ε η σ γ × Action ι ε η σ γ)} {u : State ι ε η σ γ}
    (run : Run (Steps step) (initial disableTiming) trail u) :
    Always State.Sound trail u ↔ ∀ visited ∈ trail, Timely visited.1 visited.2 := by
  refine run.always_iff (fun s (inv : Invariant s) => inv.sound) ?_ ?_
    (invariant_initial disableTiming)
  · intro s a s' inv timely stepped
    exact inv.step timely stepped
  · intro s a s' inv late stepped
    simp only [Timely, not_forall, not_not] at late
    obtain ⟨i, rfl, overtaken⟩ := late
    exact not_sound_of_overtaken overtaken stepped

end Step

/-- Two threads: one records an event, the GPU is done with it, and the other one asks. -/
theorem complete_iff_timely_query :
    ∃ (trail : List (State Bool Unit Unit Unit Unit × Action Bool Unit Unit Unit Unit))
      (u : State Bool Unit Unit Unit Unit),
      trail.map Prod.snd =
        [.record true () (), .marker true (), .advance true, .finish () 1 false,
          .query false ()] ∧
      (Always State.Sound trail u ↔ ∀ visited ∈ trail, Timely visited.1 visited.2) := by
  obtain ⟨trail, same, run⟩ := @run_of_execute _ _ step
    (initial fun _ => false : State Bool Unit Unit Unit Unit) _
    [.record true () (), .marker true (), .advance true, .finish () 1 false,
      .query false ()] rfl
  exact ⟨trail, _, same, complete_iff_timely run⟩

/-- One thread asks for an event whose command buffer has finished; before it marks the event,
the other thread records it again. -/
def overtakingActions : List (Action Bool Unit Unit Unit Unit) :=
  [.record true () (), .marker true (), .advance true, .finish () 1 false,
    .query false (), .advance false, .advance false, .advance false, .advance false,
    .advance false,
    .record true () (), .marker true (), .advance true,
    .advance false]

/-- A complete event whose command buffer has not finished can be reached. -/
theorem complete_early :
    ¬ ∀ (trail : List (State Bool Unit Unit Unit Unit × Action Bool Unit Unit Unit Unit))
      (u : State Bool Unit Unit Unit Unit),
      Run (Steps step) (initial fun _ => false) trail u → u.Sound := by
  intro always
  obtain ⟨trail, -, run⟩ := @run_of_execute _ _ step
    (initial fun _ => false : State Bool Unit Unit Unit Unit) _ overtakingActions rfl
  have sound := always trail _ run () rfl () 2 rfl
  exact absurd sound (by decide)

end CuMetal.Runtime.Events
