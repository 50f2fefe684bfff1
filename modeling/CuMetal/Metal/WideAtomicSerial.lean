import CuMetal.Metal.WideAtomicFacts

/-!
# Lock-backed atomics are serialisable

Each call of the helper goes through the phases of a job that updates its payload under the lock
of the payload, so any interleaving of calls accesses each payload as the calls one after another.
-/

namespace CuMetal.Metal

open Function List Locals

open LockedUpdate (Phase Event Jobs)
open WideAtomic

namespace Invocation

variable (invocation : Invocation) (lockBank : Location)

def fromLoop : List MslStatement :=
  [acquireLoop invocation.operation.name invocation.isSigned invocation.addressSpace,
    .returnStatement (some result)]

/-- What runs from a statement of the critical section on. -/
def fromCritical (skipped : Nat) : List MslStatement :=
  (critical invocation.operation.name invocation.isSigned invocation.addressSpace).drop skipped ++
    invocation.fromLoop

/-- What runs from a statement of the loop's body on. -/
def fromRetry (skipped : Nat) : List MslStatement :=
  (retry invocation.operation.name invocation.isSigned invocation.addressSpace).drop skipped ++
    invocation.fromLoop

/-- A thread before a statement of the helper, with the phase of its job. -/
inductive Stands : Thread → Phase (BitVec 64) → Prop
  | entering {locals : Locals} (bound : invocation.Bound lockBank locals) :
      Stands (.running locals invocation.helper.statements) .waiting
  | declaring {locals : Locals} (bound : invocation.Bound lockBank locals) :
      Stands (.running locals (invocation.helper.statements.drop 1)) .waiting
  | testing {locals : Locals} (bound : invocation.Bound lockBank locals)
      (notDone : locals "done" = some (.bool false)) :
      Stands (.running locals invocation.fromLoop) .waiting
  | trying {locals : Locals} (bound : invocation.Bound lockBank locals)
      (notDone : locals "done" = some (.bool false)) :
      Stands (.running locals (invocation.fromRetry 0)) .waiting
  | refused {locals : Locals} {seen : BitVec 32} (bound : invocation.Bound lockBank locals)
      (notDone : locals "done" = some (.bool false)) (got : locals "got" = some (.uint seen))
      (taken : seen ≠ 0#32) :
      Stands (.running locals (invocation.fromRetry 1)) .waiting
  | admitted {locals : Locals} (bound : invocation.Bound lockBank locals)
      (got : locals "got" = some (.uint 0#32)) :
      Stands (.running locals (invocation.fromRetry 1)) .entered
  | fencing {locals : Locals} (bound : invocation.Bound lockBank locals) :
      Stands (.running locals (invocation.fromCritical 0)) .entered
  | loading {locals : Locals} (bound : invocation.Bound lockBank locals) :
      Stands (.running locals (invocation.fromCritical 1)) .entered
  | storing {locals : Locals} {word : BitVec 64} (bound : invocation.Bound lockBank locals)
      (read : locals "old" = some (.ulong word)) :
      Stands (.running locals (invocation.fromCritical 2)) (.loaded word)
  | flushing {locals : Locals} {word : BitVec 64} (bound : invocation.Bound lockBank locals)
      (read : locals "old" = some (.ulong word)) :
      Stands (.running locals (invocation.fromCritical 3)) (.stored word)
  | releasing {locals : Locals} {word : BitVec 64} (bound : invocation.Bound lockBank locals)
      (read : locals "old" = some (.ulong word)) :
      Stands (.running locals (invocation.fromCritical 4)) (.stored word)
  | recording {locals : Locals} {word : BitVec 64} (read : locals "old" = some (.ulong word)) :
      Stands (.running locals (invocation.fromCritical 5)) (.released word)
  | marking {locals : Locals} {word : BitVec 64} (kept : locals "result" = some (.ulong word)) :
      Stands (.running locals (invocation.fromCritical 6)) (.released word)
  | leaving {locals : Locals} {word : BitVec 64} (kept : locals "result" = some (.ulong word))
      (isDone : locals "done" = some (.bool true)) :
      Stands (.running locals invocation.fromLoop) (.released word)
  | returning {locals : Locals} {word : BitVec 64} (kept : locals "result" = some (.ulong word)) :
      Stands (.running locals [.returnStatement (some result)]) (.released word)
  | returned {word : BitVec 64} : Stands (.finished (some (.ulong word))) (.released word)

/-- What a step of a call does to shared memory and to the phase of its job. -/
inductive Outcome (memory : Memory) :
    Phase (BitVec 64) → Memory → List Access → Phase (BitVec 64) → Prop
  | internal {phase : Phase (BitVec 64)} : Outcome memory phase memory [] phase
  | refuse (taken : memory.atomics (lockOf lockBank invocation.payload) ≠ 0#32) :
      Outcome memory .waiting
        (memory.setAtomic (lockOf lockBank invocation.payload) 1#32)
        [.atomicExchange (lockOf lockBank invocation.payload)
          (memory.atomics (lockOf lockBank invocation.payload)) 1#32] .waiting
  | acquire (free : memory.atomics (lockOf lockBank invocation.payload) = 0#32) :
      Outcome memory .waiting
        (memory.setAtomic (lockOf lockBank invocation.payload) 1#32)
        [.atomicExchange (lockOf lockBank invocation.payload) 0#32 1#32] .entered
  | load :
      Outcome memory .entered memory
        [.load invocation.payload (memory.words invocation.payload)]
        (.loaded (memory.words invocation.payload))
  | store {word : BitVec 64} :
      Outcome memory (.loaded word)
        (memory.setWord invocation.payload (invocation.update word))
        [.store invocation.payload (invocation.update word)] (.stored word)
  | release {word : BitVec 64} :
      Outcome memory (.stored word)
        (memory.setAtomic (lockOf lockBank invocation.payload) 0#32)
        [.atomicExchange (lockOf lockBank invocation.payload)
          (memory.atomics (lockOf lockBank invocation.payload)) 0#32] (.released word)

end Invocation

variable {invocation : Invocation} {lockBank : Location} {locals : Locals}

theorem evaluate_exchange (bound : invocation.Bound lockBank locals) (space : MslAddressSpace)
    {spelling : String} {word : BitVec 32} (value : literalValue spelling = some (.uint word))
    (memory : Memory) :
    (evaluate locals (.call "atomic_exchange_explicit"
      [lock space, .literal spelling (.uint 32), relaxed] (.uint 32))).run ⟨memory, []⟩ =
      some (.uint (memory.atomics (lockOf lockBank invocation.payload)),
        ⟨memory.setAtomic (lockOf lockBank invocation.payload) word,
          [.atomicExchange (lockOf lockBank invocation.payload)
            (memory.atomics (lockOf lockBank invocation.payload)) word]⟩) :=
  evaluate_atomicExchange (evaluate_lock bound space) (fun machine => by simp [evaluate, value])
    (evaluate_enumerator (by decide)) (.uint 32) memory

variable {thread : Thread} {phase : Phase (BitVec 64)}

/-- A call that has not returned can take its next step, and the step is one of its outcomes. -/
theorem Invocation.Stands.step (stands : invocation.Stands lockBank thread phase)
    (memory : Memory) :
    (∃ word, thread = .finished (some (.ulong word)) ∧ phase = .released word) ∨
      ∃ locals code thread' memory' accesses phase', thread = .running locals code ∧
        (stepThread locals code).run ⟨memory, []⟩ = some (thread', ⟨memory', accesses⟩) ∧
        invocation.Outcome lockBank memory phase memory' accesses phase' ∧
        invocation.Stands lockBank thread' phase' := by
  have literal_value : ∀ {spelling : String} {value : Value}, literalValue spelling = some value →
      ∀ (type : MslType) (locals : Locals) (machine : Machine),
      (evaluate locals (.literal spelling type)).run machine = some (value, machine) :=
    fun known type locals machine => by simp [evaluate, known]
  have zero : literalValue "0u" = some (.uint 0#32) := by decide
  cases stands with
  | @entering locals bound =>
    exact .inr ⟨locals, _, _, memory, _, _, rfl,
      stepThread_variable
        (literal_value (by decide : literalValue "0ul" = some (.ulong 0#64)) _ _ _) rfl, .internal,
      .declaring (bound.set _ (by decide))⟩
  | @declaring locals bound =>
    exact .inr ⟨locals, _, _, memory, _, _, rfl,
      stepThread_variable
        (literal_value (by decide : literalValue "false" = some (.bool false)) _ _ _) rfl, .internal,
      .testing (bound.set _ (by decide)) (set_self ..)⟩
  | @testing locals bound notDone =>
    have test : (evaluate locals (.unary "!" done .boolean)).run ⟨memory, []⟩ =
        some (.bool true, ⟨memory, []⟩) := by
      simp [evaluate, done, namedValue, enumerators, notDone, unaryValue]
    exact .inr ⟨locals, _, _, memory, _, _, rfl, stepThread_while test, .internal,
      .trying bound notDone⟩
  | @trying locals bound notDone =>
    have one : literalValue "1u" = some (.uint 1#32) := by decide
    have next : (stepThread locals (invocation.fromRetry 0)).run ⟨memory, []⟩ =
        some (.running (locals.set "got"
          (.uint (memory.atomics (lockOf lockBank invocation.payload)))) (invocation.fromRetry 1),
          _) :=
      stepThread_variable (evaluate_exchange bound invocation.addressSpace one memory)
        (show convert (.uint 32) (.uint _) = some (.uint _) from rfl)
    by_cases free : memory.atomics (lockOf lockBank invocation.payload) = 0#32
    · rw [free] at next
      exact .inr ⟨locals, _, _, _, _, _, rfl, next, .acquire free,
        .admitted (bound.set _ (by decide)) (set_self ..)⟩
    · exact .inr ⟨locals, _, _, _, _, _, rfl, next, .refuse free,
        .refused (bound.set _ (by decide)) (by rw [set_of_ne _ _ (by decide), notDone])
          (set_self ..) free⟩
  | @refused locals seen bound notDone got taken =>
    have test : (evaluate locals
        (.binary "==" WideAtomic.got (.literal "0u" (.uint 32)) .boolean)).run ⟨memory, []⟩ =
        some (.bool false, ⟨memory, []⟩) :=
      evaluate_binary .boolean (evaluate_identifier got (by decide) _)
        (literal_value zero _ _ _) (binaryValue_comparison (by decide)
          (show comparison "==" false seen 0#32 = some false by simp [comparison, taken]))
    exact .inr ⟨locals, _, _, memory, _, _, rfl, stepThread_if test, .internal,
      .testing bound notDone⟩
  | @admitted locals bound got =>
    have test : (evaluate locals
        (.binary "==" WideAtomic.got (.literal "0u" (.uint 32)) .boolean)).run ⟨memory, []⟩ =
        some (.bool true, ⟨memory, []⟩) :=
      evaluate_binary .boolean (evaluate_identifier got (by decide) _)
        (literal_value zero _ _ _) (binaryValue_comparison (by decide)
          (show comparison "==" false 0#32 0#32 = some true from rfl))
    exact .inr ⟨locals, _, _, memory, _, _, rfl, stepThread_if test, .internal,
      .fencing bound⟩
  | @fencing locals bound =>
    exact .inr ⟨locals, _, _, memory, _, _, rfl, stepThread_fence .., .internal,
      .loading bound⟩
  | @loading locals bound =>
    have read : (evaluate locals (.unary "*" (WideAtomic.payload invocation.addressSpace) u64)).run
        ⟨memory, []⟩ = some (.ulong (memory.words invocation.payload),
          ⟨memory, [.load invocation.payload (memory.words invocation.payload)]⟩) := by
      simp [evaluate, evaluate_payload bound, readWord]
    exact .inr ⟨locals, _, _, memory, _, _, rfl,
      stepThread_variable read (show convert u64 (.ulong _) = some (.ulong _) from rfl), .load,
      .storing (bound.set _ (by decide)) (set_self ..)⟩
  | @storing locals word bound read =>
    exact .inr ⟨locals, _, _, _, _, _, rfl,
      stepThread_store (evaluate_updated bound read _) (evaluate_payload bound _ _)
        (show convert u64 (.ulong _) = some (.integer _) from rfl), .store,
      .flushing bound read⟩
  | @flushing locals word bound read =>
    exact .inr ⟨locals, _, _, memory, _, _, rfl, stepThread_fence .., .internal,
      .releasing bound read⟩
  | @releasing locals word bound read =>
    exact .inr ⟨locals, _, _, _, _, _, rfl,
      stepThread_expression (evaluate_exchange bound invocation.addressSpace zero memory),
      .release, .recording read⟩
  | @recording locals word read =>
    exact .inr ⟨locals, _, _, memory, _, _, rfl,
      stepThread_assignVariable (evaluate_identifier read (by decide) _)
        (show convert u64 (.ulong _) = some (.ulong _) from rfl), .internal,
      .marking (set_self ..)⟩
  | @marking locals word kept =>
    have marked := literal_value (by decide : literalValue "true" = some (.bool true))
    exact .inr ⟨locals, _, _, memory, _, _, rfl,
      stepThread_assignVariable (marked .boolean locals ⟨memory, []⟩)
        (show convert .boolean (.bool _) = some (.bool _) from rfl), .internal,
      .leaving (by rw [set_of_ne _ _ (by decide), kept]) (set_self ..)⟩
  | @leaving locals word kept isDone =>
    have test : (evaluate locals (.unary "!" done .boolean)).run ⟨memory, []⟩ =
        some (.bool false, ⟨memory, []⟩) := by
      simp [evaluate, done, namedValue, enumerators, isDone, unaryValue]
    exact .inr ⟨locals, _, _, memory, _, _, rfl, stepThread_while test, .internal,
      .returning kept⟩
  | @returning locals word kept =>
    exact .inr ⟨locals, _, _, memory, _, _, rfl,
      stepThread_return (evaluate_identifier kept (by decide) _), .internal, .returned⟩
  | @returned word => exact .inl ⟨word, rfl, rfl⟩

/-! ## Calls together -/

section Calls

variable {ι : Type} [DecidableEq ι] (invocation : ι → Invocation) (lockBank : Location)

/-- The calls as jobs: each updates its payload under the lock of the payload. -/
def jobs : Jobs ι Location Location (BitVec 64) where
  cell := fun i => (invocation i).payload
  guard := lockOf lockBank
  update := fun i => (invocation i).update

/-- The state before any call has started. The runtime has zeroed the lock bank
(`metal_backend.mm:1312`); the payloads and all other counters are arbitrary. -/
def startState (words : Location → BitVec 64) (atomics : Location → BitVec 32) : State ι where
  memory :=
    { words := words
      atomics := fun location => if InBank lockBank location then 0#32 else atomics location }
  thread := fun i => (invocation i).start lockBank

/-- The accesses to a payload, as events of its job. -/
def payloadEvent : ι × Access → Option (Event ι (BitVec 64))
  | (i, .load _ value) => some (.load i value)
  | (i, .store _ value) => some (.store i value)
  | _ => none

/-- The access that an event of a job stands for. -/
def accessOf (event : Event ι (BitVec 64)) : ι × Access :=
  match event with
  | .load i value => (i, .load (invocation i).payload value)
  | .store i value => (i, .store (invocation i).payload value)

def wordAccesses (location : Location) (trace : List (ι × Access)) : List (ι × Access) :=
  trace.filter fun entry => entry.2.word = some location

/-- A state of the calls, and the state of the jobs that it refines. -/
structure Refines (s : State ι) (t : LockedUpdate.State ι Location Location (BitVec 64)) :
    Prop where
  memory : s.memory.words = t.memory
  locks : ∀ payload, s.memory.atomics (lockOf lockBank payload) =
    if t.held (lockOf lockBank payload) then 1#32 else 0#32
  stands : ∀ i, (invocation i).Stands lockBank (s.thread i) (t.phase i)

variable {invocation lockBank}

omit [DecidableEq ι] in
theorem jobs_cell (i : ι) : (jobs invocation lockBank).cell i = (invocation i).payload := rfl

omit [DecidableEq ι] in
theorem jobs_guard_cell (i : ι) : (jobs invocation lockBank).guard
    ((jobs invocation lockBank).cell i) = lockOf lockBank (invocation i).payload := by
  simp only [jobs]

omit [DecidableEq ι] in
theorem Refines.start (words : Location → BitVec 64) (atomics : Location → BitVec 32) :
    Refines invocation lockBank (startState invocation lockBank words atomics)
      (LockedUpdate.start words) where
  memory := rfl
  locks := fun payload => by
    simp [startState, lockOf_inBank, LockedUpdate.start]
  stands := fun i => by
    refine .entering ⟨?_, ?_, ?_, ?_⟩
    all_goals simp [Invocation.helper, makeWideAtomicU64Helper, Locals.set, update]

variable {s : State ι} {t : LockedUpdate.State ι Location Location (BitVec 64)}

theorem Refines.stands_update (related : Refines invocation lockBank s t) {i : ι}
    (stands : (invocation i).Stands lockBank thread phase) (j : ι) :
    (invocation j).Stands lockBank (Function.update s.thread i thread j)
      (Function.update t.phase i phase j) := by
  by_cases same : j = i
  · subst same
    simpa using stands
  · simpa [same] using related.stands j

omit [DecidableEq ι] in
theorem Refines.lock_update
    (related : Refines invocation lockBank s t) (owner : Location) (held : Bool)
    (payload : Location) :
    (s.memory.setAtomic (lockOf lockBank owner) (if held then 1#32 else 0#32)).atomics
        (lockOf lockBank payload) =
      if Function.update t.held (lockOf lockBank owner) held (lockOf lockBank payload) then 1#32
      else 0#32 := by
  simp only [Memory.setAtomic]
  by_cases same : lockOf lockBank payload = lockOf lockBank owner
  · rw [same, update_self, update_self]
  · rw [update_of_ne same, update_of_ne same, related.locks payload]

theorem Refines.outcome (related : Refines invocation lockBank s t) {i : ι} {memory : Memory}
    {accesses : List Access}
    (outcome : (invocation i).Outcome lockBank s.memory (t.phase i) memory accesses phase)
    (stands : (invocation i).Stands lockBank thread phase) :
    (∀ access ∈ accesses, ∀ event, payloadEvent (i, access) = some event →
        (i, access) = accessOf invocation event) ∧
      ∃ t', Lts.Run (LockedUpdate.Step (jobs invocation lockBank)) t
          ((accesses.map fun access => (i, access)).filterMap payloadEvent) t' ∧
        Refines invocation lockBank ⟨memory, Function.update s.thread i thread⟩ t' := by
  generalize before : t.phase i = start at outcome
  have unchanged : start = phase → update t.phase i phase = t.phase :=
    fun same => by rw [← same, ← before, update_eq_self]
  cases outcome with
  | internal =>
    refine ⟨by simp, t, .refl t, related.memory, related.locks, fun j => ?_⟩
    have next := related.stands_update stands j
    rwa [unchanged rfl] at next
  | refuse taken =>
    refine ⟨by simp [payloadEvent], t, .refl t, related.memory, fun payload => ?_, fun j => ?_⟩
    · have held : t.held (lockOf lockBank (invocation i).payload) = true := by
        by_contra free
        rw [related.locks, if_neg free] at taken
        exact taken rfl
      have next := related.lock_update (invocation i).payload true payload
      rwa [← held, update_eq_self, held] at next
    · have next := related.stands_update stands j
      rwa [unchanged rfl] at next
  | acquire free =>
    have unheld : t.held (lockOf lockBank (invocation i).payload) = false := by
      rw [related.locks] at free
      by_contra held
      simp [held] at free
    refine ⟨by simp [payloadEvent], _, .silent (.acquire before unheld) (.refl _),
      related.memory, fun payload => ?_, related.stands_update stands⟩
    have next := related.lock_update (invocation i).payload true payload
    simp only [if_true] at next
    simp only [jobs_guard_cell]
    exact next
  | load =>
    have read : s.memory.words (invocation i).payload = t.memory (invocation i).payload := by
      rw [related.memory]
    rw [read] at stands ⊢
    exact ⟨by simp [payloadEvent, accessOf], _, .visible (.load before) (.refl _),
      related.memory, related.locks, related.stands_update stands⟩
  | @store word =>
    refine ⟨by simp [payloadEvent, accessOf], _, .visible (.store before) (.refl _),
      ?_, related.locks, related.stands_update stands⟩
    simp only [Memory.setWord, related.memory]
    rfl
  | @release word =>
    refine ⟨by simp [payloadEvent], _, .silent (.release before) (.refl _),
      related.memory, fun payload => ?_, related.stands_update stands⟩
    have next := related.lock_update (invocation i).payload false payload
    simp only [Bool.false_eq_true, if_false] at next
    simp only [jobs_guard_cell]
    exact next

theorem Refines.step {s' : State ι}
    {label : Option (ι × Access)} (related : Refines invocation lockBank s t)
    (step : Step s label s') :
    (∀ entry ∈ label, ∀ event, payloadEvent entry = some event →
        entry = accessOf invocation event) ∧
      ∃ t', Lts.Run (LockedUpdate.Step (jobs invocation lockBank)) t
        (label.bind payloadEvent).toList t' ∧ Refines invocation lockBank s' t' := by
  have next : ∀ {i : ι} {locals : Locals} {code : List MslStatement} {thread : Thread}
      {memory : Memory} {accesses : List Access}, s.thread i = .running locals code →
      (stepThread locals code).run ⟨s.memory, []⟩ = some (thread, ⟨memory, accesses⟩) →
      ∃ phase, (invocation i).Outcome lockBank s.memory (t.phase i) memory accesses phase ∧
        (invocation i).Stands lockBank thread phase := by
    intro i locals code thread memory accesses running result
    rcases (related.stands i).step s.memory with ⟨word, ended, -⟩ |
      ⟨locals', code', thread', memory', accesses', phase, running', result', outcome, stands⟩
    · rw [running] at ended
      cases ended
    · rw [running] at running'
      obtain ⟨rfl, rfl⟩ := Thread.running.inj running'
      rw [result] at result'
      obtain ⟨rfl, machine⟩ := Prod.mk.inj (Option.some.inj result')
      obtain ⟨rfl, rfl⟩ := Machine.mk.inj machine
      exact ⟨phase, outcome, stands⟩
  cases step with
  | @silent i locals code thread memory running result =>
    obtain ⟨phase, outcome, stands⟩ := next running result
    obtain ⟨-, t', run, refines⟩ := related.outcome outcome stands
    exact ⟨by simp, t', run, refines⟩
  | @access i locals code thread memory access running result =>
    obtain ⟨phase, outcome, stands⟩ := next running result
    obtain ⟨own, t', run, refines⟩ := related.outcome outcome stands
    constructor
    · intro entry mem event
      cases mem
      exact own access (by simp) event
    · refine ⟨t', ?_, refines⟩
      cases kept : payloadEvent (i, access) with
      | none => simpa [kept] using run
      | some event => simpa [kept] using run

/-- The calls made one after another in an order account for a run: the accesses of each payload
are theirs, but for the load of one call that has yet to store, and so are the final payloads and
the values returned. -/
structure Serialised (invocation : ι → Invocation) (lockBank : Location)
    (words : Location → BitVec 64) (trace : List (ι × Access)) (s : State ι) (order : List ι) :
    Prop where
  nodup : order.Nodup
  accesses : ∀ location, ∃ pending,
    (pending = [] ∨ ∃ i value, (invocation i).payload = location ∧ i ∉ order ∧
      pending = [(i, .load location value)]) ∧
    wordAccesses location trace =
      (LockedUpdate.accesses (jobs invocation lockBank) location
        (LockedUpdate.sequentialEvents (jobs invocation lockBank) words order)).map
          (accessOf invocation) ++ pending
  memory : s.memory.words = LockedUpdate.sequential (jobs invocation lockBank) words order
  returned : ∀ i result, s.thread i = .finished result →
    ∃ before after, order = before ++ i :: after ∧
      result = some (.ulong (LockedUpdate.sequential (jobs invocation lockBank) words before
        (invocation i).payload))

omit [DecidableEq ι] in
theorem word_of_payloadEvent_none {entry : ι × Access} (other : payloadEvent entry = none) :
    entry.2.word = none := by
  obtain ⟨i, access⟩ := entry
  cases access with
  | load | store => nomatch other
  | _ => rfl

omit [DecidableEq ι] in
theorem word_accessOf (event : Event ι (BitVec 64)) :
    (accessOf invocation event).2.word = some (invocation event.job).payload := by
  cases event <;> rfl

omit [DecidableEq ι] in
theorem wordAccesses_eq {trace : List (ι × Access)}
    (own : ∀ entry ∈ trace, ∀ event, payloadEvent entry = some event →
      entry = accessOf invocation event) (location : Location) :
    wordAccesses location trace =
      (LockedUpdate.accesses (jobs invocation lockBank) location
        (trace.filterMap payloadEvent)).map (accessOf invocation) := by
  induction trace with
  | nil => rfl
  | cons entry rest ih =>
    have later := ih fun entry mem => own entry (mem_cons_of_mem _ mem)
    cases kept : payloadEvent entry with
    | none =>
      rw [filterMap_cons_none kept, ← later, wordAccesses,
        filter_cons_of_neg (by simp [word_of_payloadEvent_none kept])]
      rfl
    | some event =>
      obtain rfl := own entry mem_cons_self event kept
      rw [filterMap_cons_some kept, wordAccesses, LockedUpdate.accesses]
      by_cases here : (invocation event.job).payload = location
      · rw [filter_cons_of_pos (by simp [word_accessOf, here]),
          filter_cons_of_pos (by simp [jobs_cell, here]), map_cons]
        exact congrArg _ later
      · rw [filter_cons_of_neg (by simp [word_accessOf, here]),
          filter_cons_of_neg (by simp [jobs_cell, here])]
        exact later

/-- Any number of calls, however their steps interleave, are serialised by some order. -/
theorem wideAtomics_serialised (invocation : ι → Invocation) (lockBank : Location)
    (words : Location → BitVec 64) (atomics : Location → BitVec 32)
    {trace : List (ι × Access)} {s : State ι}
    (run : Lts.Run Step (startState invocation lockBank words atomics) trace s) :
    ∃ order, Serialised invocation lockBank words trace s order := by
  obtain ⟨own, t, abstract, refines⟩ := run.project (Refines invocation lockBank) payloadEvent
    (fun _ _ _ _ related step => related.step step) (Refines.start words atomics)
  obtain ⟨order, serial⟩ := (LockedUpdate.Serial.start words).run abstract
  simp only [nil_append] at serial
  refine ⟨order, serial.nodup, fun location => ?_, refines.memory.trans serial.memory,
    fun i result ended => ?_⟩
  · obtain ⟨pending, shape, equal⟩ := serial.cells location
    refine ⟨pending.map (accessOf invocation), ?_, ?_⟩
    · rcases shape with ⟨rfl, -⟩ | ⟨i, value, loaded, cell, rfl⟩
      · exact .inl rfl
      · refine .inr ⟨i, value, cell, ?_, ?_⟩
        · rw [serial.mem_iff i, loaded]
          simp [Phase.outcome]
        · rw [← cell]
          rfl
    · rw [wordAccesses_eq own, equal, map_append]
  · rcases (refines.stands i).step s.memory with ⟨word, returned, phase⟩ |
      ⟨_, _, _, _, _, _, running, -⟩
    · rw [ended] at returned
      have member : i ∈ order := (serial.mem_iff i).mpr (by rw [phase]; rfl)
      obtain ⟨before, after, whole⟩ := append_of_mem member
      have known := serial.outcome before i after whole
      rw [phase] at known
      refine ⟨before, after, whole, ?_⟩
      have value : word = LockedUpdate.sequential (jobs invocation lockBank) words before
          (invocation i).payload := Option.some.inj known
      rw [Thread.finished.inj returned, value]
    · rw [ended] at running
      cases running

end Calls

def pairCalls : Bool → Invocation
  | false => ⟨.add, false, .device, ⟨none, 64⟩, 5, 0⟩
  | true => ⟨.max, true, .device, ⟨none, 64⟩, 20, 0⟩

def pairStart : State Bool := startState pairCalls ⟨none, 4096⟩ (fun _ => 7) (fun _ => 1)

/-- A schedule in which the second call finds the lock taken by the first. -/
def pairSchedule : List Bool :=
  [false, false, false, true, true, true, false, true, true, false, true, false, true, false, true,
    false, true, false, false, false] ++ List.replicate 11 true

theorem pairSchedule_runs : (pairStart.runSchedule pairSchedule).map
    (fun reached => (reached.1.length, reached.2.memory.words ⟨none, 64⟩)) =
      some (10, 20#64) := by
  decide +kernel

theorem wideAtomics_serialised_pair : ∃ trace s,
    Lts.Run Step pairStart trace s ∧ trace.length = 10 ∧ s.memory.words ⟨none, 64⟩ = 20#64 ∧
      ∃ order, Serialised pairCalls ⟨none, 4096⟩ (fun _ => 7) trace s order := by
  obtain ⟨⟨trace, s⟩, result, observed⟩ := Option.map_eq_some_iff.mp pairSchedule_runs
  obtain ⟨count, word⟩ := Prod.mk.inj observed
  have run := State.run_of_runSchedule result
  exact ⟨trace, s, run, count, word, wideAtomics_serialised pairCalls _ _ _ run⟩

end CuMetal.Metal
