import CuMetal.Runtime.StreamBatches

/-!
# What a ticket says

What holds of the tickets of a stream while threads submit, flush, poll, query and wait in any
order, and whatever order the command buffers complete in.
-/

namespace CuMetal.Runtime.Batches

open CuMetal.Guarded List

variable {ι : Type} {s s' : State ι} {maxBatchDispatches : Nat}

namespace State

/-- The operation is in a command buffer with a ticket up to this one, or has completed without a
ticket. -/
def Covered (s : State ι) (ticket op : Nat) : Prop :=
  s.operations[op]? = some .awaited ∨
    ∃ number ≤ ticket, s.operations[op]? = some (.numbered number)

/-- The command buffer of the operation has completed, with an error or without one. -/
def Completed (s : State ι) (op : Nat) : Prop :=
  s.operations[op]? = some .awaited ∨
    ∃ number ∈ s.tickets.finished, s.operations[op]? = some (.numbered number)

/-- What the tickets of a stream promise. -/
structure Exact (s : State ι) : Prop where
  pending : s.tickets.pendingBuffers =
    List.range' (s.tickets.completedTicket + 1)
      (s.tickets.nextTicket - (s.tickets.completedTicket + 1))
  tail : ∀ i ticket, s.threads i = .returned (.tail ticket) →
    (s.entries i).issued ≤ s.before ticket ∧
      ∀ op < (s.entries i).issued, s.Covered ticket op
  query : ∀ i ticket, s.threads i = .returned (.queried ticket (.ok true)) →
    ∀ op < s.before ticket, s.Completed op
  waitIssued : ∀ i ticket failure, s.threads i = .returned (.waited ticket (.error failure)) →
    ticket < (s.entries i).nextTicket → ∃ front, failure = .commandBuffer front
  waitComplete : ∀ i ticket, s.threads i = .returned (.waited ticket (.ok ())) →
    ticket ≤ s.tickets.completedTicket ∧ ∀ op < s.before ticket, s.Completed op

/-- The invariant of the stream, whatever its callers know. -/
structure Sound (s : State ι) : Prop where
  ordered : s.tickets.Ordered
  numbered : ∀ number, .numbered number ∈ s.operations →
    0 < number ∧ number < s.tickets.nextTicket
  openBatch : .openBatch ∈ s.operations → s.openBatch.isSome
  unnumbered : .unnumbered ∈ s.operations → s.submission = some .committed
  awaiting : .awaiting ∈ s.operations → s.submission = some .awaiting
  closed : s.submission ≠ none → s.submission ≠ some .locked → s.openBatch = none
  before : ∀ ticket < s.tickets.nextTicket, ∀ op < s.before ticket, s.Covered ticket op
  fresh : ∀ ticket, s.tickets.nextTicket ≤ ticket → s.before ticket = 0

/-- What a thread knows of the ticket that it asks for. -/
def Knows (s : State ι) (entry : Entry) : Phase → Prop
  | .tailReading => ∀ op < entry.issued, s.Covered (s.tickets.nextTicket - 1) op
  | .returned (.tail ticket) => ticket < s.tickets.nextTicket ∧ entry.issued ≤ s.before ticket
  | .returned (.queried ticket (.ok true)) => ticket ≤ s.tickets.completedTicket
  | .returned (.waited ticket (.ok ())) => ticket ≤ s.tickets.completedTicket
  | .returned (.waited ticket (.error .waitUnknown)) => entry.nextTicket ≤ ticket
  | .returned (.waited _ (.error failure)) => ∃ front, failure = .commandBuffer front
  | _ => True

/-- The invariant of a stream and its callers. -/
structure Invariant (s : State ι) : Prop where
  sound : s.Sound
  entries : ∀ i, (s.entries i).nextTicket ≤ s.tickets.nextTicket
  issued : ∀ i, (s.entries i).issued ≤ s.operations.length
  knows : ∀ i, s.Knows (s.entries i) (s.threads i)

variable {op ticket : Nat} {buffer source target : CommandBuffer} {phase : Phase} {i : ι}

theorem mem_operations (found : s.operations[op]? = some buffer) : buffer ∈ s.operations :=
  mem_of_getElem? found

theorem Covered.mono {ticket' : Nat} (covered : s.Covered ticket op)
    (bound : ticket ≤ ticket') : s.Covered ticket' op := by
  rcases covered with awaited | ⟨number, below, found⟩
  · exact .inl awaited
  · exact .inr ⟨number, le_trans below bound, found⟩

theorem Sound.completed (sound : s.Sound)
    (complete : ticket ≤ s.tickets.completedTicket) (covered : s.Covered ticket op) :
    s.Completed op := by
  rcases covered with awaited | ⟨number, below, found⟩
  · exact .inl awaited
  · have positive := (sound.numbered number (mem_operations found)).1
    exact .inr ⟨number,
      sound.ordered.finished number positive (le_trans below complete), found⟩

theorem Invariant.exact (inv : s.Invariant) : s.Exact where
  pending := inv.sound.ordered.pending
  tail := by
    intro i ticket returned
    have knows := inv.knows i
    rw [returned] at knows
    obtain ⟨given, counted⟩ := knows
    refine ⟨counted, fun op issued => ?_⟩
    exact inv.sound.before ticket given op (lt_of_lt_of_le issued counted)
  query := by
    intro i ticket returned op earlier
    have complete := inv.knows i
    rw [returned] at complete
    have given := lt_of_le_of_lt complete inv.sound.ordered.completed
    exact inv.sound.completed complete (inv.sound.before ticket given op earlier)
  waitIssued := by
    intro i ticket failure returned issued
    have knows := inv.knows i
    rw [returned] at knows
    cases failure with
    | waitUnknown => exact absurd knows (not_le.mpr issued)
    | commandBuffer front => exact ⟨front, rfl⟩
    | missingOutput | queryUnknown | waitNoPending => exact knows
  waitComplete := by
    intro i ticket returned
    have complete := inv.knows i
    rw [returned] at complete
    have given := lt_of_le_of_lt complete inv.sound.ordered.completed
    exact ⟨complete, fun op earlier =>
      inv.sound.completed complete (inv.sound.before ticket given op earlier)⟩

/-- The tickets only grow, and what they cover stays covered. -/
structure Grows (s s' : State ι) : Prop where
  nextTicket : s.tickets.nextTicket ≤ s'.tickets.nextTicket
  completedTicket : s.tickets.completedTicket ≤ s'.tickets.completedTicket
  operations : s.operations.length ≤ s'.operations.length
  before : ∀ ticket, s.before ticket ≤ s'.before ticket
  covered : ∀ ticket op, s.Covered ticket op → s'.Covered ticket op

theorem Grows.of_same (tickets : s'.tickets = s.tickets) (operations : s'.operations = s.operations)
    (before : s'.before = s.before) : s.Grows s' where
  nextTicket := by rw [tickets]
  completedTicket := by rw [tickets]
  operations := by rw [operations]
  before := by simp [before]
  covered := by simp [Covered, operations]

theorem Knows.mono {entry : Entry} (knows : s.Knows entry phase)
    (grows : s.Grows s') : s'.Knows entry phase := by
  unfold Knows at knows ⊢
  split
  · intro op issued
    have bound := grows.nextTicket
    exact (grows.covered _ op (knows op issued)).mono (by omega)
  · exact ⟨lt_of_lt_of_le knows.1 grows.nextTicket,
      le_trans knows.2 (grows.before _)⟩
  · exact le_trans knows grows.completedTicket
  · exact le_trans knows grows.completedTicket
  · exact knows
  · simpa using knows
  · trivial

theorem Invariant.grow (inv : s.Invariant) (sound : s'.Sound) (grows : s.Grows s')
    (entries : s'.entries = s.entries) (threads : s'.threads = s.threads) : s'.Invariant where
  sound := sound
  entries := by
    intro i
    rw [entries]
    exact le_trans (inv.entries i) grows.nextTicket
  issued := by
    intro i
    rw [entries]
    exact le_trans (inv.issued i) grows.operations
  knows := by
    intro i
    rw [entries, threads]
    exact (inv.knows i).mono grows

theorem Invariant.setThread [DecidableEq ι] (inv : s.Invariant) (i : ι)
    (knows : s.Knows (s.entries i) phase) : (s.setThread i phase).Invariant where
  sound := {
    ordered := inv.sound.ordered
    numbered := inv.sound.numbered
    openBatch := inv.sound.openBatch
    unnumbered := inv.sound.unnumbered
    awaiting := inv.sound.awaiting
    closed := inv.sound.closed
    before := inv.sound.before
    fresh := inv.sound.fresh }
  entries := inv.entries
  issued := inv.issued
  knows := by
    intro j
    by_cases same : j = i
    · subst same
      simp only [State.setThread, Function.update_self]
      exact knows
    · simp only [State.setThread, ne_eq, same, not_false_eq_true, Function.update_of_ne]
      exact inv.knows j

/-! ## The steps of the stream -/

theorem mem_rename (mem : buffer ∈ s.rename source target) :
    buffer = target ∨ buffer ∈ s.operations ∧ buffer ≠ source := by
  obtain ⟨old, present, renamed⟩ := mem_map.mp mem
  split at renamed
  · exact .inl renamed.symm
  next other =>
    subst renamed
    exact .inr ⟨present, other⟩

theorem length_rename :
    (s.rename source target).length = s.operations.length :=
  length_map _

theorem rename_of_ne (found : s.operations[op]? = some buffer) (other : buffer ≠ source) :
    (s.rename source target)[op]? = some buffer := by
  simp [rename, found, other]

theorem rename_of_eq (found : s.operations[op]? = some source) :
    (s.rename source target)[op]? = some target := by
  simp [rename, found]

/-- A command buffer that has no ticket and is not done. -/
def Unsettled (buffer : CommandBuffer) : Prop :=
  buffer = .openBatch ∨ buffer = .unnumbered ∨ buffer = .awaiting

theorem Unsettled.ne_numbered (unsettled : Unsettled buffer)
    (number : Nat) : .numbered number ≠ buffer := by
  rcases unsettled with rfl | rfl | rfl <;> simp

theorem Unsettled.ne_awaited (unsettled : Unsettled buffer) :
    .awaited ≠ buffer := by
  rcases unsettled with rfl | rfl | rfl <;> simp

theorem Covered.rename (unsettled : Unsettled source)
    (same : s'.operations = s.rename source target)
    (covered : s.Covered ticket op) : s'.Covered ticket op := by
  unfold Covered
  rw [same]
  rcases covered with awaited | ⟨number, below, found⟩
  · exact .inl (rename_of_ne awaited unsettled.ne_awaited)
  · exact .inr ⟨number, below, rename_of_ne found (unsettled.ne_numbered number)⟩

theorem le_giveOut (ticket count other : Nat) : s.before other ≤ s.giveOut ticket count other := by
  by_cases same : other = ticket
  · subst same
    simp [giveOut]
  · simp [giveOut, same]

theorem giveOut_self (ticket count : Nat) :
    s.giveOut ticket count ticket = max (s.before ticket) count := by
  simp [giveOut]

theorem giveOut_of_ne {count other : Nat} (differ : other ≠ ticket) :
    s.giveOut ticket count other = s.before other := by
  simp [giveOut, differ]

theorem grows_addPending (buffer : CommandBuffer) (unsettled : Unsettled buffer) :
    s.Grows (s.addPending buffer) where
  nextTicket := Nat.le_succ _
  completedTicket := le_refl _
  operations := le_of_eq length_rename.symm
  before := le_giveOut _ _
  covered := fun _ _ covered => covered.rename unsettled rfl

/-- `add_pending` gives a ticket that covers every operation issued so far, when those outside its
command buffer are covered by the tickets before. -/
theorem Sound.addPending (sound : s.Sound) (buffer : CommandBuffer)
    (unsettled : Unsettled buffer)
    (settled : ∀ op < s.operations.length,
      s.operations[op]? = some buffer ∨ s.Covered (s.tickets.nextTicket - 1) op) :
    (s.addPending buffer).Sound where
  ordered := sound.ordered.addPending
  numbered := by
    intro number mem
    change 0 < number ∧ number < s.tickets.nextTicket + 1
    rcases mem_rename mem with new | ⟨old, -⟩
    · have completed := sound.ordered.completed
      obtain rfl := CommandBuffer.numbered.inj new
      omega
    · have known := sound.numbered number old
      omega
  openBatch := by
    intro mem
    rcases mem_rename mem with new | ⟨old, -⟩
    · cases new
    · exact sound.openBatch old
  unnumbered := by
    intro mem
    rcases mem_rename mem with new | ⟨old, -⟩
    · cases new
    · exact sound.unnumbered old
  awaiting := by
    intro mem
    rcases mem_rename mem with new | ⟨old, -⟩
    · cases new
    · exact sound.awaiting old
  closed := sound.closed
  before := by
    intro ticket given op earlier
    by_cases latest : ticket = s.tickets.nextTicket
    · subst latest
      have issued : op < s.operations.length := by
        have unused := sound.fresh s.tickets.nextTicket (le_refl _)
        simpa [State.addPending, giveOut, unused] using earlier
      rcases settled op issued with here | covered
      · exact .inr ⟨_, le_refl _, rename_of_eq here⟩
      · exact (covered.rename unsettled rfl).mono (Nat.sub_le _ _)
    · have below : ticket < s.tickets.nextTicket := by
        change ticket < s.tickets.nextTicket + 1 at given
        omega
      change op < s.giveOut _ _ ticket at earlier
      rw [giveOut_of_ne latest] at earlier
      exact (sound.before ticket below op earlier).rename unsettled rfl
  fresh := by
    intro ticket unused
    change s.tickets.nextTicket + 1 ≤ ticket at unused
    change s.giveOut _ _ ticket = 0
    rw [giveOut_of_ne (by omega)]
    exact sound.fresh ticket (by omega)

/-- What `flush_open_batch_locked` needs: the submission that holds the mutex, if there is one,
has no command buffer of its own. -/
def Flushable (s : State ι) : Prop :=
  s.submission = none ∨ s.submission = some .locked

theorem Flushable.quiet (flushable : s.Flushable) (stage : Stage)
    (submission : s.submission = some stage) : stage ≠ .committed ∧ stage ≠ .awaiting := by
  rcases flushable with none | locked
  · rw [none] at submission
    cases submission
  · rw [locked] at submission
    cases submission
    simp

/-- Every operation is covered by the last ticket, or in the command buffer of the step at hand. -/
theorem Sound.settled (sound : s.Sound) {own : CommandBuffer}
    (others : ∀ buffer ∈ s.operations, Unsettled buffer → buffer = own)
    (issued : op < s.operations.length) :
    s.operations[op]? = some own ∨ s.Covered (s.tickets.nextTicket - 1) op := by
  have found := getElem?_eq_getElem issued
  have mem := mem_operations found
  cases buffer : s.operations[op] with
  | openBatch =>
    rw [buffer] at found mem
    exact .inl (found.trans (congrArg some (others _ mem (.inl rfl))))
  | unnumbered =>
    rw [buffer] at found mem
    exact .inl (found.trans (congrArg some (others _ mem (.inr (.inl rfl)))))
  | awaiting =>
    rw [buffer] at found mem
    exact .inl (found.trans (congrArg some (others _ mem (.inr (.inr rfl)))))
  | numbered number =>
    rw [buffer] at found mem
    have below := (sound.numbered number mem).2
    exact .inr (.inr ⟨number, by omega, found⟩)
  | awaited =>
    rw [buffer] at found
    exact .inr (.inl found)

theorem Sound.openBatch_or_covered (sound : s.Sound) (flushable : s.Flushable)
    (issued : op < s.operations.length) :
    s.operations[op]? = some .openBatch ∨ s.Covered (s.tickets.nextTicket - 1) op := by
  refine sound.settled (fun buffer mem unsettled => ?_) issued
  rcases unsettled with rfl | rfl | rfl
  · rfl
  · exact absurd rfl (flushable.quiet _ (sound.unnumbered mem)).1
  · exact absurd rfl (flushable.quiet _ (sound.awaiting mem)).2

theorem Sound.unnumbered_or_covered (sound : s.Sound) (committed : s.submission = some .committed)
    (closed : s.openBatch = none) (issued : op < s.operations.length) :
    s.operations[op]? = some .unnumbered ∨ s.Covered (s.tickets.nextTicket - 1) op := by
  refine sound.settled (fun buffer mem unsettled => ?_) issued
  rcases unsettled with rfl | rfl | rfl
  · have isSome := sound.openBatch mem
    rw [closed] at isSome
    cases isSome
  · rfl
  · have awaiting := sound.awaiting mem
    rw [committed] at awaiting
    cases awaiting

theorem openBatch_flushed : s.flushOpenBatchLocked.openBatch = none := by
  unfold flushOpenBatchLocked
  split
  · assumption
  · rfl

theorem submission_flushed : s.flushOpenBatchLocked.submission = s.submission := by
  unfold flushOpenBatchLocked
  split <;> rfl

theorem entries_flushed : s.flushOpenBatchLocked.entries = s.entries := by
  unfold flushOpenBatchLocked
  split <;> rfl

theorem threads_flushed : s.flushOpenBatchLocked.threads = s.threads := by
  unfold flushOpenBatchLocked
  split <;> rfl

theorem length_flushed : s.flushOpenBatchLocked.operations.length = s.operations.length := by
  unfold flushOpenBatchLocked
  split
  · rfl
  · exact length_rename

theorem grows_flushed : s.Grows s.flushOpenBatchLocked := by
  unfold flushOpenBatchLocked
  split
  · exact .of_same rfl rfl rfl
  · have grows := s.grows_addPending .openBatch (.inl rfl)
    exact ⟨grows.nextTicket, grows.completedTicket, grows.operations, grows.before, grows.covered⟩

theorem Sound.flushed (sound : s.Sound) (flushable : s.Flushable) :
    s.flushOpenBatchLocked.Sound := by
  unfold flushOpenBatchLocked
  split
  · exact sound
  · have added := sound.addPending .openBatch (.inl rfl) fun op issued =>
      sound.openBatch_or_covered flushable issued
    exact {
      ordered := added.ordered
      numbered := added.numbered
      openBatch := by
        intro mem
        rcases mem_rename mem with new | ⟨-, other⟩
        · cases new
        · exact absurd rfl other
      unnumbered := added.unnumbered
      awaiting := added.awaiting
      closed := fun _ _ => rfl
      before := added.before
      fresh := added.fresh }

/-- Once the batch is flushed, every operation issued so far is covered by the last ticket. -/
theorem Sound.covered_flushed (sound : s.Sound) (flushable : s.Flushable)
    (issued : op < s.operations.length) :
    s.flushOpenBatchLocked.Covered (s.flushOpenBatchLocked.tickets.nextTicket - 1) op := by
  have flushed := sound.flushed flushable
  have still : s.flushOpenBatchLocked.Flushable := by
    rw [Flushable, submission_flushed]
    exact flushable
  have present : op < s.flushOpenBatchLocked.operations.length := by rwa [length_flushed]
  rcases flushed.openBatch_or_covered still present with here | covered
  · have isSome := flushed.openBatch (mem_operations here)
    rw [openBatch_flushed] at isSome
    cases isSome
  · exact covered

theorem Invariant.flushed (inv : s.Invariant) (flushable : s.Flushable) :
    s.flushOpenBatchLocked.Invariant :=
  inv.grow (inv.sound.flushed flushable) grows_flushed entries_flushed threads_flushed

theorem grows_issue (issued : Bool) (buffer : CommandBuffer) : s.Grows (s.issue issued buffer) where
  nextTicket := le_refl _
  completedTicket := le_refl _
  operations := by simp [issue]
  before := fun _ => le_refl _
  covered := by
    have kept : ∀ {op : Nat} {other : CommandBuffer}, s.operations[op]? = some other →
        (s.issue issued buffer).operations[op]? = some other := by
      intro op other found
      have bound := (List.getElem?_eq_some_iff.mp found).1
      simp only [issue]
      rw [getElem?_append_left bound, found]
    intro ticket op covered
    rcases covered with awaited | ⟨number, below, found⟩
    · exact .inl (kept awaited)
    · exact .inr ⟨number, below, kept found⟩

variable {issued : Bool} {stage : Option Stage}

theorem mem_issue {other : CommandBuffer} (mem : other ∈ (s.issue issued buffer).operations) :
    other ∈ s.operations ∨ other = buffer := by
  rcases mem_append.mp mem with old | new
  · exact .inl old
  · cases issued with
    | false => simp at new
    | true => exact .inr (by simpa using new)

theorem Sound.place (sound : s.Sound) (tickets : s'.tickets = s.tickets)
    (before : s'.before = s.before) (grows : s.Grows s')
    (numbered : ∀ number, .numbered number ∈ s'.operations → .numbered number ∈ s.operations)
    (openBatch : .openBatch ∈ s'.operations → s'.openBatch.isSome)
    (unnumbered : .unnumbered ∈ s'.operations → s'.submission = some .committed)
    (awaiting : .awaiting ∈ s'.operations → s'.submission = some .awaiting)
    (closed : s'.submission ≠ none → s'.submission ≠ some .locked → s'.openBatch = none) :
    s'.Sound where
  ordered := by
    rw [tickets]
    exact sound.ordered
  numbered := by
    intro number mem
    rw [tickets]
    exact sound.numbered number (numbered number mem)
  openBatch := openBatch
  unnumbered := unnumbered
  awaiting := awaiting
  closed := closed
  before := by
    rw [tickets, before]
    intro ticket given op earlier
    exact grows.covered ticket op (sound.before ticket given op earlier)
  fresh := by
    rw [tickets, before]
    exact sound.fresh

/-- The submission goes to another stage, or ends, and has no command buffer of its own. -/
theorem Sound.setSubmission (sound : s.Sound) (unnumbered : .unnumbered ∉ s.operations)
    (awaiting : .awaiting ∉ s.operations)
    (closed : stage ≠ none → stage ≠ some .locked → s.openBatch = none) :
    (s.setSubmission stage).Sound :=
  sound.place rfl rfl (.of_same rfl rfl rfl)
    (fun _ mem => mem) sound.openBatch (fun mem => absurd mem unnumbered)
    (fun mem => absurd mem awaiting) closed

theorem Sound.not_unnumbered (sound : s.Sound) (stage : s.submission ≠ some .committed) :
    .unnumbered ∉ s.operations :=
  fun mem => stage (sound.unnumbered mem)

theorem Sound.not_awaiting (sound : s.Sound) (stage : s.submission ≠ some .awaiting) :
    .awaiting ∉ s.operations :=
  fun mem => stage (sound.awaiting mem)

section

variable (inv : s.Invariant)
include inv

theorem Invariant.setSubmission (unnumbered : .unnumbered ∉ s.operations)
    (awaiting : .awaiting ∉ s.operations)
    (closed : stage ≠ none → stage ≠ some .locked → s.openBatch = none) :
    (s.setSubmission stage).Invariant :=
  inv.grow (inv.sound.setSubmission unnumbered awaiting closed)
    (.of_same rfl rfl rfl) rfl rfl

theorem Invariant.release [DecidableEq ι] (i : ι) (ticket : Option Nat)
    (unnumbered : .unnumbered ∉ s.operations) (awaiting : .awaiting ∉ s.operations) :
    (s.release i ticket).Invariant :=
  (inv.setSubmission unnumbered awaiting fun some => absurd rfl some).setThread i trivial

theorem Invariant.batched [DecidableEq ι] (i : ι) (issued : Bool) (dispatches : Nat)
    (ticket : Option Nat) (notCommitted : s.submission ≠ some .committed)
    (notAwaiting : s.submission ≠ some .awaiting) :
    ({ s.issue issued .openBatch with
      openBatch := some dispatches }.release i ticket).Invariant := by
  have unnumbered := inv.sound.not_unnumbered notCommitted
  have awaiting := inv.sound.not_awaiting notAwaiting
  have grows : s.Grows ({ s.issue issued .openBatch with
      openBatch := some dispatches }.setSubmission none) :=
    have grows := s.grows_issue issued .openBatch
    ⟨grows.nextTicket, grows.completedTicket, grows.operations, grows.before, grows.covered⟩
  have old : ∀ {other : CommandBuffer}, other ≠ .openBatch →
      other ∈ (s.issue issued .openBatch).operations → other ∈ s.operations := by
    intro other differs mem
    exact (mem_issue mem).resolve_right differs
  refine (inv.grow ?_ grows rfl rfl).setThread i trivial
  refine inv.sound.place rfl rfl grows (fun _ => old (by simp)) (fun _ => rfl) ?_ ?_ ?_
  · exact fun mem => absurd (old (by simp) mem) unnumbered
  · exact fun mem => absurd (old (by simp) mem) awaiting
  · exact fun some => absurd rfl some

theorem Invariant.commit {stage : Stage} {ticket : Option Nat}
    (flushed : s.submission = some (.flushed ticket))
    (own : buffer = .unnumbered ∧ stage = .committed ∨ buffer = .awaiting ∧ stage = .awaiting) :
    ((s.issue issued buffer).setSubmission (some stage)).Invariant := by
  have unnumbered := inv.sound.not_unnumbered (by simp [flushed])
  have awaiting := inv.sound.not_awaiting (by simp [flushed])
  have closed := inv.sound.closed (by simp [flushed]) (by simp [flushed])
  have grows : s.Grows ((s.issue issued buffer).setSubmission (some stage)) :=
    have grows := s.grows_issue issued buffer
    ⟨grows.nextTicket, grows.completedTicket, grows.operations, grows.before, grows.covered⟩
  refine inv.grow (inv.sound.place rfl rfl grows ?_ ?_ ?_ ?_ fun _ _ => closed) grows rfl rfl
  · intro number mem
    refine (mem_issue mem).resolve_right fun same => ?_
    rcases own with ⟨rfl, -⟩ | ⟨rfl, -⟩ <;> cases same
  · intro mem
    rcases mem_issue mem with old | same
    · exact inv.sound.openBatch old
    · rcases own with ⟨rfl, -⟩ | ⟨rfl, -⟩ <;> cases same
  · intro mem
    rcases mem_issue mem with old | same
    · exact absurd old unnumbered
    · rcases own with ⟨-, rfl⟩ | ⟨rfl, -⟩
      · rfl
      · cases same
  · intro mem
    rcases mem_issue mem with old | same
    · exact absurd old awaiting
    · rcases own with ⟨rfl, -⟩ | ⟨-, rfl⟩
      · cases same
      · rfl

theorem Invariant.addPending (committed : s.submission = some .committed) :
    ((s.addPending .unnumbered).setSubmission
      (some (.flushed (some s.tickets.nextTicket)))).Invariant := by
  have closed := inv.sound.closed (by simp [committed]) (by simp [committed])
  have added := inv.sound.addPending .unnumbered (.inr (.inl rfl)) fun op issued =>
    inv.sound.unnumbered_or_covered committed closed issued
  have grows := s.grows_addPending .unnumbered (.inr (.inl rfl))
  refine (inv.grow added grows rfl rfl).setSubmission ?_ ?_ fun _ _ => closed
  · intro mem
    rcases mem_rename mem with new | ⟨-, other⟩
    · cases new
    · exact other rfl
  · intro mem
    rcases mem_rename mem with new | ⟨old, -⟩
    · cases new
    · exact absurd (inv.sound.awaiting old) (by simp [committed])

theorem Invariant.awaited [DecidableEq ι] (i : ι) (awaiting : s.submission = some .awaiting) :
    ({ s with operations := s.rename .awaiting .awaited }.release i none).Invariant := by
  have unnumbered := inv.sound.not_unnumbered (by simp [awaiting])
  have old : ∀ {other : CommandBuffer}, other ≠ .awaited →
      other ∈ s.rename .awaiting .awaited → other ∈ s.operations ∧ other ≠ .awaiting := by
    intro other differs mem
    exact (mem_rename mem).resolve_left differs
  have grows : s.Grows ({ s with operations := s.rename .awaiting .awaited }.setSubmission none) :=
    ⟨le_refl _, le_refl _, le_of_eq length_rename.symm, fun _ => le_refl _,
      fun _ _ covered => covered.rename (.inr (.inr rfl)) rfl⟩
  refine (inv.grow ?_ grows rfl rfl).setThread i trivial
  refine inv.sound.place rfl rfl grows (fun _ mem => (old (by simp) mem).1) ?_ ?_ ?_ ?_
  · exact fun mem => inv.sound.openBatch (old (by simp) mem).1
  · exact fun mem => absurd (old (by simp) mem).1 unnumbered
  · exact fun mem => absurd rfl (old (by simp) mem).2
  · exact fun some => absurd rfl some

theorem Invariant.move [DecidableEq ι] {move : Move}
    (moved : s.move maxBatchDispatches i move = some s') : s'.Invariant := by
  cases move with
  | extend issued =>
    simp only [State.move] at moved
    split at moved
    next locked _ =>
      split at moved
      · cases moved
        exact inv.batched i issued _ none (by simp [locked]) (by simp [locked])
      · cases moved
    · cases moved
  | flush =>
    simp only [State.move] at moved
    split at moved
    next locked =>
      cases moved
      have flushed := inv.flushed (.inr locked)
      have still : s.flushOpenBatchLocked.submission = some .locked := by
        rw [submission_flushed, locked]
      exact flushed.setSubmission (flushed.sound.not_unnumbered (by simp [still]))
        (flushed.sound.not_awaiting (by simp [still])) fun _ _ => openBatch_flushed
    · cases moved
  | beginBatch issued =>
    simp only [State.move] at moved
    split at moved
    next flushed =>
      split at moved
      · cases moved
        exact inv.batched i issued 1 _ (by simp [flushed]) (by simp [flushed])
      · cases moved
    · cases moved
  | commit issued =>
    simp only [State.move] at moved
    split at moved
    next flushed =>
      cases moved
      exact inv.commit flushed (.inl ⟨rfl, rfl⟩)
    · cases moved
  | addPending =>
    simp only [State.move] at moved
    split at moved
    next committed =>
      cases moved
      exact inv.addPending committed
    · cases moved
  | commitAwaited =>
    simp only [State.move] at moved
    split at moved
    next flushed =>
      cases moved
      exact inv.commit flushed (.inr ⟨rfl, rfl⟩)
    · cases moved
  | awaited =>
    simp only [State.move] at moved
    split at moved
    next awaiting =>
      cases moved
      exact inv.awaited i awaiting
    · cases moved
  | release =>
    simp only [State.move] at moved
    split at moved
    next stage =>
      cases moved
      exact inv.release i _ (inv.sound.not_unnumbered (by simp [stage]))
        (inv.sound.not_awaiting (by simp [stage]))
    next stage =>
      cases moved
      exact inv.release i _ (inv.sound.not_unnumbered (by simp [stage]))
        (inv.sound.not_awaiting (by simp [stage]))
    · cases moved

end

/-! ## The steps of the threads -/

section

variable (inv : s.Invariant)
include inv

/-- A call gives out the last ticket, which covers what had been issued when it was made. -/
theorem Invariant.tailRead [DecidableEq ι] (reading : s.threads i = .tailReading) :
    ({ s with
      before := s.giveOut (s.tickets.nextTicket - 1) (s.entries i).issued }.setThread i
        (.returned (.tail (s.tickets.nextTicket - 1)))).Invariant := by
  have covered := inv.knows i
  rw [reading] at covered
  have completed := inv.sound.ordered.completed
  have last : s.tickets.nextTicket - 1 < s.tickets.nextTicket := by omega
  have grows : s.Grows { s with
      before := s.giveOut (s.tickets.nextTicket - 1) (s.entries i).issued } :=
    ⟨le_refl _, le_refl _, le_refl _, le_giveOut _ _, fun _ _ covered => covered⟩
  have sound := inv.sound
  refine Invariant.setThread (inv.grow ?_ grows rfl rfl) i ⟨last, ?_⟩
  · exact {
      ordered := sound.ordered
      numbered := sound.numbered
      openBatch := sound.openBatch
      unnumbered := sound.unnumbered
      awaiting := sound.awaiting
      closed := sound.closed
      before := by
        intro ticket given op earlier
        by_cases same : ticket = s.tickets.nextTicket - 1
        · subst same
          change op < s.giveOut _ _ _ at earlier
          rw [giveOut_self] at earlier
          by_cases before : op < s.before (s.tickets.nextTicket - 1)
          · exact sound.before _ given op before
          · exact covered op (by omega)
        · change op < s.giveOut _ _ ticket at earlier
          rw [giveOut_of_ne same] at earlier
          exact sound.before ticket given op earlier
      fresh := by
        intro ticket unused
        change s.tickets.nextTicket ≤ ticket at unused
        change s.giveOut _ _ ticket = 0
        rw [giveOut_of_ne (by omega)]
        exact sound.fresh ticket unused }
  · simp [giveOut]

theorem Invariant.setTickets {tickets : TicketStream} (ordered : tickets.Ordered)
    (nextTicket : tickets.nextTicket = s.tickets.nextTicket)
    (completedTicket : s.tickets.completedTicket ≤ tickets.completedTicket) :
    { s with tickets }.Invariant := by
  have sound := inv.sound
  refine inv.grow ?_ ⟨le_of_eq nextTicket.symm, completedTicket, le_refl _,
    fun _ => le_refl _, fun _ _ covered => covered⟩ rfl rfl
  exact {
    ordered := ordered
    numbered := fun number mem => by
      rw [nextTicket]
      exact sound.numbered number mem
    openBatch := sound.openBatch
    unnumbered := sound.unnumbered
    awaiting := sound.awaiting
    closed := sound.closed
    before := fun ticket given => sound.before ticket (by rwa [nextTicket] at given)
    fresh := fun ticket unused => sound.fresh ticket (by rwa [nextTicket] at unused) }

theorem Invariant.polled : { s with tickets := s.tickets.pollOne.2 }.Invariant := by
  have ordered := inv.sound.ordered
  exact inv.setTickets ordered.pollOne TicketStream.nextTicket_pollOne
    ordered.completedTicket_pollOne

theorem Invariant.flushedThread [DecidableEq ι] (free : s.submission = none)
    (knows : s.flushOpenBatchLocked.Knows (s.entries i) phase) :
    (s.flushOpenBatchLocked.setThread i phase).Invariant := by
  refine (inv.flushed (.inl free)).setThread i ?_
  rwa [entries_flushed]

end

theorem knows_polled (entry : Entry) (caller : Caller) : s.Knows entry caller.polled := by
  cases caller <;> trivial

theorem knows_failed (entry : Entry) (caller : Caller) (front : Nat) :
    s.Knows entry (caller.failed (.commandBuffer front)) := by
  cases caller with
  | outside | query => trivial
  | wait => exact ⟨front, rfl⟩

theorem Invariant.advance [DecidableEq ι] (inv : s.Invariant)
    (stepped : s.advance i = some s') : s'.Invariant := by
  unfold State.advance at stepped
  have ordered := inv.sound.ordered
  split at stepped
  · cases stepped
  · cases stepped
  · cases stepped
  next flushing =>
    split at stepped
    next free =>
      cases stepped
      refine (inv.flushed (.inl free)).setThread i fun op issued => ?_
      rw [entries_flushed] at issued
      exact inv.sound.covered_flushed (.inl free) (lt_of_lt_of_le issued (inv.issued i))
    · cases stepped
  next reading =>
    cases stepped
    exact inv.tailRead reading
  next ticket hasOutput _ =>
    split at stepped
    next free =>
      cases stepped
      refine inv.flushedThread free ?_
      split
      · trivial
      · split
        next zero =>
          rw [zero]
          exact Nat.zero_le _
        · trivial
    · cases stepped
  next ticket _ =>
    split at stepped
    next free =>
      cases stepped
      refine inv.flushedThread free ?_
      split
      next zero =>
        rw [zero]
        exact Nat.zero_le _
      · trivial
    · cases stepped
  next caller _ =>
    split at stepped
    next free =>
      cases stepped
      exact inv.flushedThread free trivial
    · cases stepped
  next caller _ =>
    simp only at stepped
    split at stepped
    · cases stepped
      exact inv.setThread i (knows_polled _ caller)
    next front _ =>
      cases stepped
      refine inv.polled.setThread i ?_
      split
      · exact knows_failed _ caller front
      · trivial
  next ticket _ =>
    cases stepped
    refine inv.setThread i ?_
    split
    · trivial
    · cases reached : decide (ticket ≤ s.tickets.completedTicket) with
      | false => trivial
      | true =>
        have complete : ticket ≤ s.tickets.completedTicket := of_decide_eq_true reached
        exact complete
  next ticket _ =>
    cases stepped
    refine inv.setThread i ?_
    split
    next unknown => exact le_trans (inv.entries i) unknown
    next known =>
      split
      next reached => exact reached
      next unreached =>
        have pending := ordered.pending
        split
        next empty =>
          -- the tickets after the completed one are pending, and this is one of them
          rw [empty] at pending
          have length := congrArg length pending
          simp only [length_nil, length_range'] at length
          omega
        · trivial
  next ticket front _ =>
    split at stepped
    · cases stepped
      refine inv.setThread i ?_
      split
      · exact ⟨front, rfl⟩
      · trivial
    · cases stepped

end State

theorem invariant_initial : (initial : State ι).Invariant where
  sound := {
    ordered := TicketStream.ordered_initial
    numbered := fun _ mem => absurd mem not_mem_nil
    openBatch := fun mem => absurd mem not_mem_nil
    unnumbered := fun mem => absurd mem not_mem_nil
    awaiting := fun mem => absurd mem not_mem_nil
    closed := fun some => absurd rfl some
    before := fun _ _ _ earlier => absurd earlier (Nat.not_lt_zero _)
    fresh := fun _ _ => rfl }
  entries := fun _ => le_refl _
  issued := fun _ => le_refl _
  knows := fun _ => trivial

section Step

variable [DecidableEq ι]

theorem State.Invariant.call (inv : s.Invariant) (i : ι) (call : Call) :
    ({ s with
      entries := Function.update s.entries i
        { issued := s.operations.length
          nextTicket := s.tickets.nextTicket } }.setThread i call.phase).Invariant where
  sound := inv.sound.place rfl rfl (.of_same rfl rfl rfl) (fun _ mem => mem) inv.sound.openBatch
    inv.sound.unnumbered inv.sound.awaiting inv.sound.closed
  entries := by
    intro j
    by_cases same : j = i
    · subst same
      simp [State.setThread]
    · simpa [State.setThread, same] using inv.entries j
  issued := by
    intro j
    by_cases same : j = i
    · subst same
      simp [State.setThread]
    · simpa [State.setThread, same] using inv.issued j
  knows := by
    intro j
    by_cases same : j = i
    · subst same
      simp only [State.setThread, Function.update_self]
      cases call <;> trivial
    · simp only [State.setThread, ne_eq, same, not_false_eq_true, Function.update_of_ne]
      exact (inv.knows j).mono (.of_same rfl rfl rfl)

theorem State.Invariant.step (inv : s.Invariant) {a : Action ι}
    (stepped : step maxBatchDispatches s a = some s') : s'.Invariant := by
  cases a with
  | submit i =>
    simp only [Batches.step] at stepped
    split at stepped
    next free =>
      cases stepped
      exact (inv.setSubmission (inv.sound.not_unnumbered (by simp [free.1]))
        (inv.sound.not_awaiting (by simp [free.1])) fun _ other => absurd rfl other).setThread i
          trivial
    · cases stepped
  | move i move =>
    simp only [Batches.step] at stepped
    split at stepped
    · exact inv.move stepped
    · cases stepped
  | call i call =>
    simp only [Batches.step] at stepped
    split at stepped
    · cases stepped
      exact inv.call i call
    · cases stepped
  | advance i => exact inv.advance stepped
  | flushOther =>
    simp only [Batches.step] at stepped
    split at stepped
    next free =>
      cases stepped
      exact inv.flushed (.inl free)
    · cases stepped
  | finish ticket withError =>
    simp only [Batches.step] at stepped
    split at stepped
    · cases stepped
      exact inv.setTickets (inv.sound.ordered.finish ticket withError) rfl (le_refl _)
    · cases stepped

/-- In every state of every run, whoever takes turns, the pending list holds the tickets after the
completed one, a ticket covers what was issued before, and no wait for it fails on its own
account. -/
theorem exact_always {maxBatchDispatches : Nat} {trail : List (State ι × Action ι)} {u : State ι}
    (run : Run (Steps (step maxBatchDispatches)) initial trail u) :
    Always State.Exact trail u := by
  have always : Always State.Invariant trail u := by
    refine run.invariant (fun s a s' inv (_ : True) stepped => ?_) invariant_initial
      fun _ _ => trivial
    exact inv.step stepped
  exact ⟨fun visited mem => (always.1 visited mem).exact, always.2.exact⟩

end Step

/-- One thread launches twice and records a marker while the other one takes the tail ticket,
whose command buffer fails, and waits for it; the marker then completes. -/
def interleavedActions : List (Action Bool) :=
  [.submit true, .move true .flush, .move true (.beginBatch true),
    .submit true, .move true (.extend true),
    .call false .tail, .advance false,
    .submit true, .move true .flush, .move true (.commit false),
    .advance false,
    .move true .addPending, .move true .release,
    .call false (.wait 1), .advance false, .advance false, .advance false, .advance false,
    .finish 1 true, .finish 2 false, .advance false,
    .call true (.query 2 true), .advance true, .advance true, .advance true,
    .call true (.query 2 true), .advance true, .advance true, .advance true, .advance true,
    .advance true]

theorem exact_always_interleaved :
    ∃ (trail : List (State Bool × Action Bool)) (u : State Bool),
      trail.map Prod.snd = interleavedActions ∧ Always State.Exact trail u ∧
        u.threads false = .returned (.waited 1 (.error (.commandBuffer 1))) ∧
        u.threads true = .returned (.queried 2 (.ok true)) ∧ u.before 2 = 2 := by
  obtain ⟨trail, same, run⟩ := @run_of_execute _ _ (step 256)
    (initial : State Bool) _ interleavedActions rfl
  exact ⟨trail, _, same, exact_always run, rfl, rfl, rfl⟩

end CuMetal.Runtime.Batches
