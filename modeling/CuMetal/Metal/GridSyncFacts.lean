import CuMetal.Metal.GridSync

/-!
# The leaders meet

Each leader's call goes through the phases of a party at a barrier with a count and a generation, so
no leader returns from a round before all have arrived in it, and the last one lets the others go.
-/

namespace CuMetal.Metal

open Function Grid GridState Locals Memory

open CountingBarrier (Phase)
open GridSync

variable {thread : Thread} {machine : Machine}

namespace Grid

/-- A leader's variables hold the arguments of its call. -/
structure Bound (grid : Grid) (locals : Locals) : Prop where
  barrier : locals "barrier" = some (.pointer grid.barrier)
  threadPosition : locals "thread_position" = some (.vector [.uint 0, .uint 0, .uint 0])
  threadgroups : locals "threadgroups" = some (.vector [.uint grid.x, .uint grid.y, .uint grid.z])

/-- The product of the sides of the grid, as the helper computes it. -/
def total (grid : Grid) : BitVec 32 := grid.x * grid.y * grid.z

theorem total_eq (grid : Grid) : grid.total = BitVec.ofNat 32 grid.leaders := by
  apply BitVec.eq_of_toNat_eq
  simp [total, leaders, BitVec.toNat_mul]

theorem generation_ne_count (grid : Grid) : grid.generationLocation ≠ grid.barrier := by
  intro same
  have address := congrArg Location.address same
  simp only [generationLocation] at address
  bv_omega

variable {grid : Grid} {locals : Locals}

theorem Bound.set (bound : grid.Bound locals) {name : String} (value : Value)
    (other : name ∉ ["barrier", "thread_position", "threadgroups"]) :
    grid.Bound (locals.set name value) := by
  simp only [List.mem_cons, List.not_mem_nil, or_false, not_or] at other
  obtain ⟨barrier, position, groups⟩ := other
  constructor
  · rw [set_of_ne _ _ (Ne.symm barrier), bound.barrier]
  · rw [set_of_ne _ _ (Ne.symm position), bound.threadPosition]
  · rw [set_of_ne _ _ (Ne.symm groups), bound.threadgroups]

section

variable (locals : Locals)

theorem stepThread_barrierCall (rest : List MslStatement) (machine : Machine) :
    (stepThread locals (barrierCall :: rest)).run machine =
      some (.running locals rest, machine) := by
  have flags : literalValue "mem_flags::mem_device" = some (.symbol "mem_flags::mem_device") := by
    decide
  simp [barrierCall, stepThread, evaluate, evaluateAll, flags, callBuiltin]

theorem stepThread_deviceFence (rest : List MslStatement) (machine : Machine) :
    (stepThread locals (deviceFence :: rest)).run machine =
      some (.running locals rest, machine) := by
  have flags : literalValue "mem_flags::mem_device" = some (.symbol "mem_flags::mem_device") := by
    decide
  simp [deviceFence, stepThread, evaluate, evaluateAll, namedValue, enumerators, flags,
    callBuiltin]

theorem evaluate_zero (machine : Machine) :
    (evaluate locals zero).run machine = some (.uint 0#32, machine) := by
  have value : literalValue "0u" = some (.uint 0#32) := by decide
  simp [zero, evaluate, value]

theorem evaluate_one (machine : Machine) :
    (evaluate locals one).run machine = some (.uint 1#32, machine) := by
  have value : literalValue "1u" = some (.uint 1#32) := by decide
  simp [one, evaluate, value]

theorem evaluate_relaxed (machine : Machine) :
    (evaluate locals relaxed).run machine = some (.symbol "memory_order_relaxed", machine) :=
  evaluate_enumerator (by decide) machine

end

section

variable (bound : grid.Bound locals)
include bound

theorem evaluate_count (machine : Machine) :
    (evaluate locals count).run machine = some (.pointer grid.barrier, machine) := by
  simp [count, countValue, evaluate, GridSync.barrier, namedValue, enumerators, bound.barrier,
    evaluate_zero, elementAt, atomicUint, sizeOfType, IntegerValue.converted]

theorem evaluate_generation (machine : Machine) :
    (evaluate locals generation).run machine =
      some (.pointer grid.generationLocation, machine) := by
  simp [generation, generationValue, evaluate, GridSync.barrier, namedValue, enumerators,
    bound.barrier, evaluate_one, elementAt, atomicUint, sizeOfType, IntegerValue.converted,
    generationLocation]

theorem evaluate_isLeader (machine : Machine) :
    (evaluate locals isLeader).run machine = some (.bool true, machine) := by
  have either : binaryValue "|" (.uint 0#32) (.uint 0#32) = some (.uint 0#32) :=
    binaryValue_arithmetic (by decide) rfl
  have equal : binaryValue "==" (.uint 0#32) (.uint 0#32) = some (.bool true) :=
    binaryValue_comparison (by decide) rfl
  simp [isLeader, threadOr, component, evaluate, threadPosition, namedValue, enumerators,
    bound.threadPosition, componentOf, evaluate_zero, either, equal]

theorem evaluate_groupCount (machine : Machine) :
    (evaluate locals groupCount).run machine = some (.uint grid.total, machine) := by
  have product : ∀ x y : BitVec 32, binaryValue "*" (.uint x) (.uint y) = some (.uint (x * y)) :=
    fun x y => binaryValue_arithmetic (by decide) rfl
  simp [groupCount, component, evaluate, threadgroups, namedValue, enumerators,
    bound.threadgroups, componentOf, product, total]

theorem evaluate_loadGeneration (memory : Memory) :
    (evaluate locals loadGeneration).run ⟨memory, []⟩ =
      some (.uint (memory.atomics grid.generationLocation),
        ⟨memory, [.atomicLoad grid.generationLocation
          (memory.atomics grid.generationLocation)]⟩) := by
  simp [loadGeneration, evaluate, evaluateAll, evaluate_generation bound, evaluate_relaxed,
    callBuiltin, readAtomic]

theorem evaluate_increment (memory : Memory) :
    (evaluate locals (.binary "+"
        (.call "atomic_fetch_add_explicit" [count, one, relaxed] (.uint 32)) one (.uint 32))).run
      ⟨memory, []⟩ =
      some (.uint (memory.atomics grid.barrier + 1),
        ⟨memory.setAtomic grid.barrier (memory.atomics grid.barrier + 1),
          [.atomicFetchAdd grid.barrier (memory.atomics grid.barrier) 1]⟩) := by
  refine evaluate_binary (.uint 32) ?_ (evaluate_one locals _)
    (binaryValue_arithmetic (by decide) rfl)
  simp [evaluate, evaluateAll, evaluate_count bound, evaluate_one, evaluate_relaxed, callBuiltin,
    updateAtomic]

theorem evaluate_clear (memory : Memory) :
    (evaluate locals (.call "atomic_store_explicit" [count, zero, relaxed] .void)).run
      ⟨memory, []⟩ =
      some (.void, ⟨memory.setAtomic grid.barrier 0, [.atomicStore grid.barrier 0]⟩) := by
  simp [evaluate, evaluateAll, evaluate_count bound, evaluate_zero, evaluate_relaxed, callBuiltin,
    updateAtomic]

theorem evaluate_advance (memory : Memory) :
    (evaluate locals (.call "atomic_fetch_add_explicit" [generation, one, relaxed] (.uint 32))).run
      ⟨memory, []⟩ =
      some (.uint (memory.atomics grid.generationLocation),
        ⟨memory.setAtomic grid.generationLocation
            (memory.atomics grid.generationLocation + 1),
          [.atomicFetchAdd grid.generationLocation
            (memory.atomics grid.generationLocation) 1]⟩) := by
  simp [evaluate, evaluateAll, evaluate_generation bound, evaluate_one, evaluate_relaxed,
    callBuiltin, updateAtomic]

end

variable {seen : BitVec 32} {locals : Locals} {code : List MslStatement} {phase : Phase 32}
  {budget : Nat}

theorem evaluate_waitCondition (bound : grid.Bound locals)
    (saw : locals "observed_generation" = some (.uint seen)) (memory : Memory) :
    (evaluate locals waitCondition).run ⟨memory, []⟩ =
      some (.bool (memory.atomics grid.generationLocation == seen),
        ⟨memory, [.atomicLoad grid.generationLocation
          (memory.atomics grid.generationLocation)]⟩) :=
  evaluate_binary .boolean (evaluate_loadGeneration bound memory)
    (evaluate_identifier saw (by decide) _) (binaryValue_comparison (by decide) rfl)

/-- A leader before a statement of the helper, with its phase at the barrier and, once it has
completed the count, the number of its steps up to the start of the next generation. -/
inductive Stands (grid : Grid) : Thread → Phase 32 → Nat → Prop
  | returned {result : Option Value} : grid.Stands (.finished result) .outside 0
  | entering {locals : Locals} (bound : grid.Bound locals) :
      grid.Stands (.running locals makeGridSyncHelper.statements) .outside 0
  | testing {locals : Locals} (bound : grid.Bound locals) :
      grid.Stands (.running locals (makeGridSyncHelper.statements.drop 1)) .outside 0
  | fencing {locals : Locals} (bound : grid.Bound locals) :
      grid.Stands (.running locals (leader ++ [barrierCall])) .outside 0
  | observing {locals : Locals} (bound : grid.Bound locals) :
      grid.Stands (.running locals (leader.drop 1 ++ [barrierCall])) .outside 0
  | arriving {locals : Locals} {seen : BitVec 32} (bound : grid.Bound locals)
      (saw : locals "observed_generation" = some (.uint seen)) :
      grid.Stands (.running locals (leader.drop 2 ++ [barrierCall])) (.arriving seen) 0
  | completing {locals : Locals} (bound : grid.Bound locals)
      (counted : locals "arrived" = some (.uint grid.total)) :
      grid.Stands (.running locals (leader.drop 3 ++ [barrierCall])) .closing 4
  | declining {locals : Locals} {seen value : BitVec 32} (bound : grid.Bound locals)
      (saw : locals "observed_generation" = some (.uint seen))
      (counted : locals "arrived" = some (.uint value)) (short : value ≠ grid.total) :
      grid.Stands (.running locals (leader.drop 3 ++ [barrierCall])) (.waiting seen) 0
  | flushing {locals : Locals} (bound : grid.Bound locals) :
      grid.Stands (.running locals (lastGroup ++ [barrierCall])) .closing 3
  | clearing {locals : Locals} (bound : grid.Bound locals) :
      grid.Stands (.running locals (lastGroup.drop 1 ++ [barrierCall])) .closing 2
  | bumping {locals : Locals} (bound : grid.Bound locals) :
      grid.Stands (.running locals (lastGroup.drop 2 ++ [barrierCall])) .opening 1
  | waiting {locals : Locals} {seen : BitVec 32} (bound : grid.Bound locals)
      (saw : locals "observed_generation" = some (.uint seen)) :
      grid.Stands (.running locals (otherGroup ++ [barrierCall])) (.waiting seen) 0
  | passed {locals : Locals} :
      grid.Stands (.running locals (otherGroup.drop 1 ++ [barrierCall])) .leaving 0
  | meeting {locals : Locals} : grid.Stands (.running locals [barrierCall]) .leaving 0
  | returning {locals : Locals} : grid.Stands (.running locals []) .leaving 0

/-- What a step of a call does to memory and to the leader's phase, and whether it arrives and
returns. -/
inductive Outcome (grid : Grid) (memory : Memory) : Phase 32 → Memory → Nat → Nat → Phase 32 → Prop
  | internal {phase : Phase 32} : grid.Outcome memory phase memory 0 0 phase
  | observe : grid.Outcome memory .outside memory 0 0
      (.arriving (memory.atomics grid.generationLocation))
  | arrive {seen : BitVec 32} : grid.Outcome memory (.arriving seen)
      (memory.setAtomic grid.barrier (memory.atomics grid.barrier + 1)) 1 0
      (if memory.atomics grid.barrier + 1 = grid.total then .closing else .waiting seen)
  | close : grid.Outcome memory .closing (memory.setAtomic grid.barrier 0) 0 0 .opening
  | open_ : grid.Outcome memory .opening
      (memory.setAtomic grid.generationLocation (memory.atomics grid.generationLocation + 1)) 0 0
      .leaving
  | pass {seen : BitVec 32} (changed : memory.atomics grid.generationLocation ≠ seen) :
      grid.Outcome memory (.waiting seen) memory 0 0 .leaving
  | leave : grid.Outcome memory .leaving memory 0 1 .outside

/-- A thread that has not returned is in one call. -/
def inCall : Thread → Nat
  | .finished _ => 0
  | .running .. => 1

/-- A step of a call, and where it leads. -/
structure Steps (grid : Grid) (memory : Memory) (locals : Locals) (code : List MslStatement)
    (phase : Phase 32) (budget : Nat) (thread : Thread) (machine : Machine) (next : Phase 32)
    (rest : Nat) : Prop where
  step : (stepThread locals code).run ⟨memory, []⟩ = some (thread, machine)
  outcome : grid.Outcome memory phase machine.memory (machine.accesses.countP grid.isArrival)
    thread.returns next
  stands : grid.Stands thread next rest
  nearer : phase.Ends → budget = rest + 1

/-- A leader that is in a call can take its next step, and the step is one of its outcomes. -/
theorem Stands.step (stands : grid.Stands (.running locals code) phase budget) (memory : Memory) :
    ∃ thread machine next rest,
      grid.Steps memory locals code phase budget thread machine next rest := by
  cases stands with
  | entering bound =>
    exact ⟨_, _, _, _, stepThread_barrierCall .., .internal, .testing bound, False.elim⟩
  | testing bound =>
    exact ⟨_, _, _, _, stepThread_if (evaluate_isLeader bound _), .internal, .fencing bound,
      False.elim⟩
  | fencing bound =>
    exact ⟨_, _, _, _, stepThread_deviceFence .., .internal, .observing bound, False.elim⟩
  | observing bound =>
    exact ⟨_, _, _, _, stepThread_variable (evaluate_loadGeneration bound memory)
        (show convert (.uint 32) (.uint _) = some (.uint _) from rfl), .observe,
      .arriving (bound.set _ (by decide)) (set_self ..), False.elim⟩
  | @arriving _ seen bound saw =>
    have step := @stepThread_variable locals
      (leader.drop 3 ++ [barrierCall]) _ _ _ _ (.uint 32) _ (evaluate_increment bound memory)
      "arrived" true
      (show convert (.uint 32) (.uint _) = some (.uint _) from rfl)
    have kept : (locals.set "arrived" (.uint (memory.atomics grid.barrier + 1)))
        "observed_generation" = some (.uint seen) := by
      rw [set_of_ne _ _ (by decide), saw]
    have bound := @Bound.set grid locals bound "arrived"
      (.uint (memory.atomics grid.barrier + 1)) (by decide)
    have arrives : [Access.atomicFetchAdd grid.barrier (memory.atomics grid.barrier) 1].countP
        grid.isArrival = 1 := by simp [isArrival]
    have outcome := @Outcome.arrive grid memory seen
    rw [← arrives] at outcome
    by_cases whole : memory.atomics grid.barrier + 1 = grid.total
    · rw [if_pos whole] at outcome
      exact ⟨_, _, _, _, step, outcome, .completing bound (by rw [← whole]; exact set_self ..),
        False.elim⟩
    · rw [if_neg whole] at outcome
      exact ⟨_, _, _, _, step, outcome, .declining bound kept (set_self ..) whole,
        False.elim⟩
  | completing bound counted =>
    have test : (evaluate locals (.binary "==" arrived groupCount .boolean)).run ⟨memory, []⟩ =
        some (.bool true, ⟨memory, []⟩) :=
      evaluate_binary .boolean (evaluate_identifier counted (by decide) _)
        (evaluate_groupCount bound _) (binaryValue_comparison (by decide)
          (show comparison "==" false grid.total grid.total = some true by simp [comparison]))
    exact ⟨_, _, _, _, stepThread_if test, .internal, .flushing bound, fun _ => rfl⟩
  | @declining _ seen value bound saw counted short =>
    have test : (evaluate locals (.binary "==" arrived groupCount .boolean)).run ⟨memory, []⟩ =
        some (.bool false, ⟨memory, []⟩) :=
      evaluate_binary .boolean (evaluate_identifier counted (by decide) _)
        (evaluate_groupCount bound _) (binaryValue_comparison (by decide)
          (show comparison "==" false value grid.total = some false by
            simp [comparison, short]))
    exact ⟨_, _, _, _, stepThread_if test, .internal, .waiting bound saw, False.elim⟩
  | flushing bound =>
    exact ⟨_, _, _, _, stepThread_deviceFence .., .internal, .clearing bound, fun _ => rfl⟩
  | clearing bound =>
    exact ⟨_, _, _, _, stepThread_expression (evaluate_clear bound memory), .close,
      .bumping bound, fun _ => rfl⟩
  | bumping bound =>
    have arrives : [Access.atomicFetchAdd grid.generationLocation
        (memory.atomics grid.generationLocation) 1].countP grid.isArrival = 0 := by
      simp [isArrival, grid.generation_ne_count]
    have outcome : grid.Outcome memory .opening
        (memory.setAtomic grid.generationLocation (memory.atomics grid.generationLocation + 1))
        ([Access.atomicFetchAdd grid.generationLocation
          (memory.atomics grid.generationLocation) 1].countP grid.isArrival) 0 .leaving := by
      rw [arrives]
      exact .open_
    exact ⟨_, _, _, _, stepThread_expression (evaluate_advance bound memory), outcome, .meeting,
      fun _ => rfl⟩
  | @waiting _ seen bound saw =>
    have step := @stepThread_while locals [deviceFence, barrierCall] _ _ _ _ []
      (evaluate_waitCondition bound saw memory)
    by_cases same : memory.atomics grid.generationLocation = seen
    · simp only [same, beq_self_eq_true, if_true] at step
      exact ⟨_, _, _, _, step, .internal, .waiting bound saw, False.elim⟩
    · simp only [beq_eq_false_iff_ne.mpr same] at step
      exact ⟨_, _, _, _, step, .pass same, .passed, False.elim⟩
  | passed =>
    exact ⟨_, _, _, _, stepThread_deviceFence .., .internal, .meeting, False.elim⟩
  | meeting =>
    exact ⟨_, _, _, _, stepThread_barrierCall .., .internal, .returning, False.elim⟩
  | returning => exact ⟨_, _, _, _, rfl, .leave, .returned, False.elim⟩

/-- The barrier that the leaders are parties of. -/
structure Follows (grid : Grid) {ι : Type} (s : GridState ι) (a : CountingBarrier.State ι 32) :
    Prop where
  count : s.memory.atomics grid.barrier = a.count
  generation : s.memory.atomics grid.generationLocation = a.generation
  stands : ∀ i, ∃ budget, grid.Stands (s.thread i) (a.phase i) budget
  arrivals : s.arrivals = a.arrivals
  returned : s.returned = a.returned
  entered : ∀ i, s.entered i = s.returned i + inCall (s.thread i)

variable {ι : Type} [DecidableEq ι] {s s' : GridState ι} {a : CountingBarrier.State ι 32} {i : ι}

theorem Outcome.step {memory' : Memory} {arrivals returns : Nat} {next : Phase 32}
    (follows : grid.Follows s a)
    (outcome : grid.Outcome s.memory (a.phase i) memory' arrivals returns next) :
    ∃ a' : CountingBarrier.State ι 32, (a' = a ∨ CountingBarrier.Step grid.total i a a') ∧
      memory'.atomics grid.barrier = a'.count ∧
      memory'.atomics grid.generationLocation = a'.generation ∧
      a'.phase = Function.update a.phase i next ∧
      a'.arrivals = Function.update a.arrivals i (a.arrivals i + arrivals) ∧
      a'.returned = Function.update a.returned i (a.returned i + returns) ∧
      ((a.phase i).Ends → ¬ next.Ends → a.rounds < a'.rounds) := by
  generalize before : a.phase i = phase at outcome
  have apart := grid.generation_ne_count
  cases outcome with
  | internal =>
    exact ⟨a, .inl rfl, follows.count, follows.generation, by simp [← before], by simp, by simp,
      fun ends notEnds => absurd ends notEnds⟩
  | observe =>
    exact ⟨_, .inr (.observe before), follows.count, follows.generation,
      by rw [follows.generation], by simp, by simp, False.elim⟩
  | arrive =>
    refine ⟨_, .inr (.arrive before), ?_, ?_, ?_, rfl, by simp, False.elim⟩
    · simp [setAtomic, follows.count]
    · simp [setAtomic, update_of_ne apart, follows.generation]
    · rw [follows.count]
  | close =>
    refine ⟨_, .inr (.close before), ?_, ?_, rfl, by simp, by simp,
      fun _ notEnds => absurd trivial notEnds⟩
    · simp [setAtomic]
    · simp [setAtomic, update_of_ne apart, follows.generation]
  | open_ =>
    refine ⟨_, .inr (.open_ before), ?_, ?_, rfl, by simp, by simp,
      fun _ _ => Nat.lt_succ_self _⟩
    · simp [setAtomic, update_of_ne (Ne.symm apart), follows.count]
    · simp [setAtomic, follows.generation]
  | pass changed =>
    rw [follows.generation] at changed
    exact ⟨_, .inr (.pass before changed), follows.count, follows.generation, rfl, by simp,
      by simp, False.elim⟩
  | leave =>
    exact ⟨_, .inr (.leave before), follows.count, follows.generation, rfl, by simp, rfl,
      False.elim⟩

/-- The next step of a leader that is in a call, and the barrier after it. -/
theorem Follows.run (follows : grid.Follows s a) (running : s.thread i = .running locals code)
    {next : Phase 32} {rest : Nat}
    (steps : grid.Steps s.memory locals code (a.phase i) budget thread machine next rest) :
    ∃ a' : CountingBarrier.State ι 32, (a' = a ∨ CountingBarrier.Step grid.total i a a') ∧
      grid.Follows
        { s with
          memory := machine.memory
          thread := Function.update s.thread i thread
          arrivals := Function.update s.arrivals i
            (s.arrivals i + machine.accesses.countP grid.isArrival)
          returned := Function.update s.returned i (s.returned i + thread.returns) } a' ∧
      a'.phase i = next ∧ ((a.phase i).Ends → ¬ next.Ends → a.rounds < a'.rounds) := by
  obtain ⟨a', step, count, generation, phase, arrivals, returned, opens⟩ :=
    steps.outcome.step follows
  refine ⟨a', step, ?_, by rw [phase, update_self], opens⟩
  exact {
    count := count
    generation := generation
    stands := by
      intro j
      rw [phase]
      by_cases same : j = i
      · subst same
        simp only [update_self]
        exact ⟨rest, steps.stands⟩
      · simpa only [update_of_ne same] using follows.stands j
    arrivals := by rw [arrivals, follows.arrivals]
    returned := by rw [returned, follows.returned]
    entered := by
      intro j
      by_cases same : j = i
      · subst same
        simp only [update_self]
        have before := follows.entered j
        rw [running] at before
        rw [before]
        cases thread <;> rfl
      · simpa only [update_of_ne same] using follows.entered j }

theorem start_stands (grid : Grid) : grid.Stands grid.start .outside 0 := by
  refine .entering ?_
  constructor <;> rfl

theorem Follows.enter (follows : grid.Follows s a) {result : Option Value}
    (outside : s.thread i = .finished result) :
    grid.Follows
      { s with
        thread := Function.update s.thread i grid.start
        entered := Function.update s.entered i (s.entered i + 1) } a :=
  { follows with
    stands := by
      intro j
      by_cases same : j = i
      · subst same
        obtain ⟨budget, stands⟩ := follows.stands j
        rw [outside] at stands
        cases standing : a.phase j with
        | outside => exact ⟨0, by simpa only [update_self] using grid.start_stands⟩
        | _ => rw [standing] at stands; cases stands
      · simpa only [update_of_ne same] using follows.stands j
    entered := by
      intro j
      by_cases same : j = i
      · subst same
        have before := follows.entered j
        rw [outside] at before
        simp only [update_self, before]
        rfl
      · simpa only [update_of_ne same] using follows.entered j }

theorem Stands.waits {condition : MslExpression} {body : List MslStatement}
    (stands : grid.Stands (.running locals (.whileStatement condition body :: code)) phase budget) :
    ∃ seen, phase = .waiting seen ∧ locals "observed_generation" = some (.uint seen) := by
  generalize here : Thread.running locals (.whileStatement condition body :: code) = thread at stands
  cases stands with
  | waiting bound saw => cases here; exact ⟨_, rfl, saw⟩
  | _ => cases here

/-! ## Runs -/

variable [Fintype ι]

/-- The leaders follow a barrier whose invariant holds. -/
structure Sound (grid : Grid) (s : GridState ι) (a : CountingBarrier.State ι 32) : Prop where
  follows : grid.Follows s a
  invariant : ∃ first, CountingBarrier.Invariant first a

theorem Sound.next {first : BitVec 32} {a' : CountingBarrier.State ι 32}
    (few : Fintype.card ι ≤ 2 ^ 32) (all : grid.total = BitVec.ofNat 32 (Fintype.card ι))
    (invariant : CountingBarrier.Invariant first a)
    (step : a' = a ∨ CountingBarrier.Step grid.total i a a') :
    CountingBarrier.Invariant first a' ∧ a.rounds ≤ a'.rounds := by
  rcases step with rfl | step
  · exact ⟨invariant, le_rfl⟩
  · exact invariant.step few all step

theorem Sound.step (few : Fintype.card ι ≤ 2 ^ 32)
    (all : grid.total = BitVec.ofNat 32 (Fintype.card ι)) (sound : grid.Sound s a)
    (step : GridStep grid i s s') :
    ∃ a', grid.Sound s' a' ∧ a.rounds ≤ a'.rounds := by
  obtain ⟨follows, first, invariant⟩ := sound
  cases step with
  | enter outside => exact ⟨a, ⟨follows.enter outside, first, invariant⟩, le_rfl⟩
  | run running taken =>
    obtain ⟨budget, stands⟩ := follows.stands i
    rw [running] at stands
    obtain ⟨thread, machine, next, rest, steps⟩ := stands.step s.memory
    obtain ⟨rfl, rfl⟩ := Prod.mk.inj (Option.some.inj (steps.step.symm.trans taken))
    obtain ⟨a', step, followed, _⟩ := follows.run running steps
    obtain ⟨kept, later⟩ := Sound.next few all invariant step
    exact ⟨a', ⟨followed, first, kept⟩, later⟩

theorem Sound.reaches (few : Fintype.card ι ≤ 2 ^ 32)
    (all : grid.total = BitVec.ofNat 32 (Fintype.card ι)) (sound : grid.Sound s a)
    (reached : grid.Reaches s s') : ∃ a', grid.Sound s' a' ∧ a.rounds ≤ a'.rounds := by
  induction reached with
  | refl => exact ⟨a, sound, le_rfl⟩
  | tail _ step ih =>
    obtain ⟨b, sound, earlier⟩ := ih
    obtain ⟨i, step⟩ := step
    obtain ⟨a', sound, later⟩ := sound.step few all step
    exact ⟨a', sound, earlier.trans later⟩

omit [DecidableEq ι] in
theorem Sound.initial (initial : s.Initial grid) : ∃ a, grid.Sound s a := by
  refine ⟨⟨0, s.memory.atomics grid.generationLocation, fun _ => .outside, fun _ => 0,
    fun _ => 0, 0⟩, ?_, _, CountingBarrier.Invariant.initial _⟩
  exact {
    count := initial.count
    generation := rfl
    stands := fun i => ⟨0, by rw [initial.thread]; exact .returned⟩
    arrivals := funext initial.arrivals
    returned := funext initial.returned
    entered := fun i => by rw [initial.entered, initial.returned, initial.thread]; rfl }

theorem Stands.running (stands : grid.Stands thread phase budget) (ends : phase.Ends) :
    ∃ locals code, thread = .running locals code := by
  cases stands <;> first | exact ⟨_, _, rfl⟩ | exact absurd ends id

/-- A leader that completed the count starts the next generation by steps of its own. -/
theorem Sound.opens (few : Fintype.card ι ≤ 2 ^ 32)
    (all : grid.total = BitVec.ofNat 32 (Fintype.card ι)) (budget : Nat) :
    ∀ {s : GridState ι} {a : CountingBarrier.State ι 32}, grid.Sound s a →
      grid.Stands (s.thread i) (a.phase i) budget → (a.phase i).Ends →
      ∃ s' a', Relation.ReflTransGen (GridStep grid i) s s' ∧ grid.Sound s' a' ∧
        a.rounds < a'.rounds := by
  induction budget with
  | zero =>
    intro s a sound stands ends
    obtain ⟨locals, code, running⟩ := stands.running ends
    rw [running] at stands
    obtain ⟨thread, machine, next, rest, steps⟩ := stands.step s.memory
    exact absurd (steps.nearer ends) (by omega)
  | succ budget ih =>
    intro s a sound stands ends
    obtain ⟨locals, code, running⟩ := stands.running ends
    rw [running] at stands
    obtain ⟨thread, machine, next, rest, steps⟩ := stands.step s.memory
    obtain ⟨follows, first, invariant⟩ := sound
    obtain ⟨b, step, followed, phase, opened⟩ := follows.run running steps
    obtain ⟨kept, later⟩ := Sound.next few all invariant step
    have taken := @GridStep.run _ _ grid i s locals code thread machine running steps.step
    obtain rfl : budget = rest := by have := steps.nearer ends; omega
    by_cases more : next.Ends
    · have stands : grid.Stands (update s.thread i thread i) (b.phase i) budget := by
        rw [update_self, phase]
        exact steps.stands
      obtain ⟨s', a', run, sound, opens⟩ :=
        ih ⟨followed, first, kept⟩ stands (by rw [phase]; exact more)
      exact ⟨s', a', .head taken run, sound, later.trans_lt opens⟩
    · exact ⟨_, b, .single taken, ⟨followed, first, kept⟩, opened ends more⟩

omit [DecidableEq ι] in
theorem Sound.arrivals_le_entered (sound : grid.Sound s a) (i : ι) :
    s.arrivals i ≤ s.entered i := by
  obtain ⟨follows, first, invariant⟩ := sound
  have ok := invariant.party i
  have entered := follows.entered i
  obtain ⟨budget, stands⟩ := follows.stands i
  rw [congrFun follows.arrivals i, entered, congrFun follows.returned i]
  cases threads : s.thread i with
  | finished result =>
    rw [threads] at stands
    cases standing : a.phase i with
    | outside => rw [standing] at ok; simp only [CountingBarrier.PhaseOk] at ok; omega
    | _ => rw [standing] at stands; cases stands
  | running locals code =>
    have within : a.arrivals i ≤ a.returned i + 1 := by
      cases standing : a.phase i with
      | _ => rw [standing] at ok; simp only [CountingBarrier.PhaseOk] at ok; omega
    exact within

omit [DecidableEq ι] in
theorem Sound.waits (sound : grid.Sound s a) (waits : s.Waits i seen) :
    a.phase i = .waiting seen ∧ s.entered i = a.arrivals i := by
  obtain ⟨follows, first, invariant⟩ := sound
  obtain ⟨locals, code, thread, saw⟩ := waits
  obtain ⟨budget, stands⟩ := follows.stands i
  rw [thread] at stands
  obtain ⟨seen', phase, saw'⟩ := stands.waits
  obtain rfl : seen' = seen := by
    have same := saw'.symm.trans saw
    simpa using same
  have ok := invariant.party i
  rw [phase] at ok
  have entered := follows.entered i
  rw [thread, congrFun follows.returned i] at entered
  exact ⟨phase, entered.trans ok.1.symm⟩

/-- Once the round of a leader is over, the leader sees a changed generation as long as it waits. -/
theorem Sound.changed (few : Fintype.card ι ≤ 2 ^ 32)
    (all : grid.total = BitVec.ofNat 32 (Fintype.card ι)) (sound : grid.Sound s a) {calls : Nat}
    (over_ : calls ≤ a.rounds) {later : GridState ι}
    (reached : grid.Reaches s later) (waits : later.Waits i seen) (same : later.entered i = calls) :
    later.memory.atomics grid.generationLocation ≠ seen := by
  obtain ⟨a', sound', rounds⟩ := sound.reaches few all reached
  obtain ⟨phase, entered⟩ := sound'.waits waits
  obtain ⟨follows, first, invariant⟩ := sound'
  rw [follows.generation]
  exact invariant.changed (by decide) phase (by omega)

end Grid

/-- With at most 2^32 threadgroups, no leader returns from a round before all have arrived in it,
and once all have arrived in the round of a leader that waits, steps of one leader lead to where the
leader that waits sees a changed generation for as long as it waits. -/
theorem gridSync_correct (grid : Grid) (few : grid.leaders ≤ 2 ^ 32)
    {start s : GridState (Fin grid.leaders)} (initial : start.Initial grid)
    (reached : grid.Reaches start s) :
    (∀ i j, s.returned i ≤ s.entered j) ∧
      ∀ i seen, s.Waits i seen → (∀ j, s.entered i ≤ s.arrivals j) →
        ∃ j s', Relation.ReflTransGen (GridStep grid j) s s' ∧
          ∀ later seen', grid.Reaches s' later → later.Waits i seen' →
            later.entered i = s.entered i →
            later.memory.atomics grid.generationLocation ≠ seen' := by
  have card : Fintype.card (Fin grid.leaders) ≤ 2 ^ 32 := by rwa [Fintype.card_fin]
  have all : grid.total = BitVec.ofNat 32 (Fintype.card (Fin grid.leaders)) := by
    rw [Fintype.card_fin, grid.total_eq]
  obtain ⟨a₀, sound₀⟩ := Grid.Sound.initial initial
  obtain ⟨a, sound, _⟩ := sound₀.reaches card all reached
  obtain ⟨first, invariant⟩ := sound.invariant
  constructor
  · intro i j
    have arrived := invariant.returned_le_arrivals i j
    rw [← congrFun sound.follows.returned i, ← congrFun sound.follows.arrivals j] at arrived
    exact arrived.trans (sound.arrivals_le_entered j)
  · intro i seen waits caught
    obtain ⟨phase, entered⟩ := sound.waits waits
    have level : ∀ j, a.arrivals i ≤ a.arrivals j := by
      intro j
      rw [← entered, ← congrFun sound.follows.arrivals j]
      exact caught j
    rcases invariant.caught_up level with over_ | ⟨under, j, ends⟩
    · exact ⟨i, s, .refl, fun later seen' reached waits same =>
        sound.changed card all (by omega) reached waits same⟩
    · obtain ⟨budget, stands⟩ := sound.follows.stands j
      obtain ⟨s', a', run, sound', opened⟩ := Grid.Sound.opens card all budget sound stands ends
      exact ⟨j, s', run, fun later seen' reached waits same =>
        sound'.changed card all (by omega) reached waits same⟩

/-- The start of a grid with counters that are zero. -/
def GridState.zeroed (n : Nat) : GridState (Fin n) :=
  ⟨⟨fun _ => 0, fun _ => 0⟩, fun _ => .finished none, fun _ => 0, fun _ => 0, fun _ => 0⟩

theorem GridState.zeroed_initial (grid : Grid) (n : Nat) :
    (zeroed n).Initial grid :=
  ⟨rfl, fun _ => rfl, fun _ => rfl, fun _ => rfl, fun _ => rfl⟩

section

variable {ι : Type} [DecidableEq ι] {grid : Grid} {s s' : GridState ι}

/-- A leader calls the helper if it is in no call, and else takes the next step of its call. -/
def Grid.advance (grid : Grid) (s : GridState ι) (i : ι) : Option (GridState ι) :=
  match s.thread i with
  | .finished _ =>
    some
      { s with
        thread := update s.thread i grid.start
        entered := update s.entered i (s.entered i + 1) }
  | .running locals code =>
    match (stepThread locals code).run ⟨s.memory, []⟩ with
    | none => none
    | some (thread, machine) =>
      some
        { s with
          memory := machine.memory
          thread := update s.thread i thread
          arrivals := update s.arrivals i (s.arrivals i + machine.accesses.countP grid.isArrival)
          returned := update s.returned i (s.returned i + thread.returns) }

theorem Grid.step_of_advance {i : ι} (advanced : grid.advance s i = some s') :
    GridStep grid i s s' := by
  unfold advance at advanced
  split at advanced
  next finished =>
    cases advanced
    exact .enter finished
  next running =>
    split at advanced
    · cases advanced
    next stepped =>
      cases advanced
      exact .run running stepped

/-- The leaders take turns as they are listed. -/
theorem Grid.reaches_of_turns {turns : List ι} (taken : turns.foldlM grid.advance s = some s') :
    grid.Reaches s s' := by
  induction turns generalizing s with
  | nil =>
    cases taken
    exact .refl
  | cons i turns ih =>
    obtain ⟨next, advanced, taken⟩ := Option.bind_eq_some_iff.mp taken
    exact .head ⟨i, step_of_advance advanced⟩ (ih taken)

end

/-- The leader is at the test of a loop. -/
def Thread.loops : Thread → Bool
  | .running _ (.whileStatement _ _ :: _) => true
  | _ => false

theorem Grid.waits_of_loops {grid : Grid} {start s : GridState (Fin grid.leaders)}
    (few : grid.leaders ≤ 2 ^ 32) (initial : start.Initial grid) (reached : grid.Reaches start s)
    {i : Fin grid.leaders} (loops : (s.thread i).loops = true) : ∃ seen, s.Waits i seen := by
  have all : grid.total = BitVec.ofNat 32 (Fintype.card (Fin grid.leaders)) := by
    rw [Fintype.card_fin, grid.total_eq]
  obtain ⟨_, sound₀⟩ := Grid.Sound.initial initial
  obtain ⟨a, sound, _⟩ := sound₀.reaches (by rwa [Fintype.card_fin]) all reached
  obtain ⟨budget, stands⟩ := sound.follows.stands i
  revert loops
  generalize same : s.thread i = thread at stands
  generalize a.phase i = phase at stands
  intro loops
  cases stands with
  | waiting _ saw => exact ⟨_, _, _, same, saw⟩
  | _ => cases loops

/-- Two threadgroups. -/
def pairGrid : Grid := ⟨⟨none, 0⟩, 2, 1, 1⟩

/-- A leader that is about to enter. -/
def pairLeader (i : Fin 2) : Fin pairGrid.leaders := i

/-- The turns until the second leader has arrived while the first one waits. -/
def untilArrived : List (Fin pairGrid.leaders) :=
  List.replicate 7 (pairLeader 0) ++ List.replicate 6 (pairLeader 1)

/-- The turns in which both return. -/
def untilReturned : List (Fin pairGrid.leaders) :=
  List.replicate 6 (pairLeader 1) ++ List.replicate 4 (pairLeader 0)

/-- The first leader waits for the second one, which arrives last; then both return. -/
theorem gridSync_correct_pair :
    ∃ waiting last : GridState (Fin pairGrid.leaders),
      untilArrived.foldlM pairGrid.advance (zeroed _) = some waiting ∧
        untilReturned.foldlM pairGrid.advance waiting = some last ∧
        (∀ i, last.returned i = 1) ∧ (∀ i j, last.returned i ≤ last.entered j) ∧
        ∃ seen, waiting.Waits (pairLeader 0) seen ∧
          ∃ j s', Relation.ReflTransGen (GridStep pairGrid j) waiting s' ∧
            ∀ later seen', pairGrid.Reaches s' later → later.Waits (pairLeader 0) seen' →
              later.entered (pairLeader 0) = waiting.entered (pairLeader 0) →
              later.memory.atomics pairGrid.generationLocation ≠ seen' := by
  have ran : ∃ waiting, waiting ∈ untilArrived.foldlM pairGrid.advance (zeroed _) ∧
      (waiting.thread (pairLeader 0)).loops = true ∧
      (∀ j, waiting.entered (pairLeader 0) ≤ waiting.arrivals j) ∧
      ∃ last, last ∈ untilReturned.foldlM pairGrid.advance waiting ∧
        ∀ i, last.returned i = 1 := by
    decide +kernel
  obtain ⟨waiting, arrived, loops, level, last, finished, returned⟩ := ran
  have initial := zeroed_initial pairGrid pairGrid.leaders
  have reached := Grid.reaches_of_turns arrived
  obtain ⟨seen, waits⟩ := Grid.waits_of_loops (by decide) initial reached loops
  have toLast := reached.trans (Grid.reaches_of_turns finished)
  exact ⟨waiting, last, arrived, finished, returned,
    (gridSync_correct pairGrid (by decide) initial toLast).1, seen, waits,
    (gridSync_correct pairGrid (by decide) initial reached).2 _ seen waits level⟩

section Wraps

variable {ι : Type} [DecidableEq ι] {grid : Grid} {start : GridState ι} {i : ι}

/-- One leader alone gets from the start to this memory and thread, with this many returns. -/
def Grid.Alone (grid : Grid) (start : GridState ι) (i : ι) (memory : Memory) (thread : Thread)
    (returned : Nat) : Prop :=
  ∃ s, Relation.ReflTransGen (GridStep grid i) start s ∧ s.memory = memory ∧
    s.thread i = thread ∧ s.returned i = returned ∧ ∀ j, j ≠ i → s.entered j = start.entered j

theorem Grid.Alone.enter (initial : start.Initial grid) :
    grid.Alone start i start.memory grid.start 0 := by
  refine ⟨_, .single (.enter (initial.thread i)), ?_⟩
  exact ⟨rfl, update_self .., initial.returned i,
    fun j other => update_of_ne other ..⟩

theorem Grid.Alone.run {memory : Memory} {locals : Locals} {code : List MslStatement}
    {returned : Nat} (alone : grid.Alone start i memory (.running locals code) returned)
    (step : (stepThread locals code).run ⟨memory, []⟩ = some (thread, machine)) :
    grid.Alone start i machine.memory thread (returned + thread.returns) := by
  obtain ⟨s, reached, rfl, running, rfl, others⟩ := alone
  refine ⟨_, reached.tail (.run running step), ?_⟩
  exact ⟨rfl, update_self .., update_self .., others⟩

/-- Where the product is one, a leader returns from its first call without waiting for others. -/
theorem Grid.Alone.returns (initial : start.Initial grid) (single : grid.total = 1) :
    ∃ memory, grid.Alone start i memory (.finished none) 1 := by
  have entered := @Grid.Alone.enter ι _ grid start i initial
  obtain ⟨locals, here, bound⟩ : ∃ locals,
      grid.start = .running locals makeGridSyncHelper.statements ∧ grid.Bound locals :=
    ⟨_, rfl, by constructor <;> rfl⟩
  rw [here] at entered
  have observing := (((entered.run (stepThread_barrierCall ..)).run
    (stepThread_if (evaluate_isLeader bound _))).run (stepThread_deviceFence ..)).run
      (stepThread_variable (evaluate_loadGeneration bound _)
        (show convert (.uint 32) (.uint _) = some (.uint _) from rfl))
  have bound := @Grid.Bound.set grid locals bound "observed_generation"
    (.uint (start.memory.atomics grid.generationLocation)) (by decide)
  have arriving := observing.run (stepThread_variable (evaluate_increment bound _)
    (show convert (.uint 32) (.uint _) = some (.uint _) from rfl))
  have counted : start.memory.atomics grid.barrier + 1 = grid.total := by
    rw [initial.count, single]
    rfl
  rw [counted] at arriving
  have bound := @Grid.Bound.set grid _ bound "arrived" (.uint grid.total) (by decide)
  have test : ∀ memory : Memory, (evaluate _ (.binary "==" arrived groupCount .boolean)).run
      ⟨memory, []⟩ = some (.bool true, ⟨memory, []⟩) := fun memory =>
    evaluate_binary .boolean (evaluate_identifier (set_self ..) (by decide) _)
      (evaluate_groupCount bound _) (binaryValue_comparison (by decide)
        (show comparison "==" false grid.total grid.total = some true by simp [comparison]))
  have clearing := ((arriving.run (stepThread_if (test _))).run
    (stepThread_deviceFence ..)).run (stepThread_expression (evaluate_clear bound _))
  have leaving := ((clearing.run (stepThread_expression (evaluate_advance bound _))).run
    (stepThread_barrierCall ..)).run rfl
  exact ⟨_, leaving⟩

end Wraps

/-- With 2^32 + 1 threadgroups the product of the sides is one. -/
theorem gridSync_fails : ¬ ∀ (grid : Grid) (start s : GridState (Fin grid.leaders)),
    start.Initial grid → grid.Reaches start s → ∀ i j, s.returned i ≤ s.entered j := by
  intro correct
  let grid : Grid := ⟨⟨none, 0⟩, 641, 6700417, 1⟩
  have leaders : grid.leaders = 4294967297 := by decide
  have initial := zeroed_initial grid grid.leaders
  obtain ⟨_, s, reached, _, _, returned, others⟩ :=
    @Grid.Alone.returns _ _ grid _ ⟨0, by rw [leaders]; omega⟩ initial (by decide)
  have early := correct grid _ s initial (reached.lift id fun _ _ step => ⟨_, step⟩)
    ⟨0, by rw [leaders]; omega⟩ ⟨1, by rw [leaders]; omega⟩
  rw [returned, others _ (by simp)] at early
  exact Nat.not_succ_le_zero 0 early

end CuMetal.Metal
