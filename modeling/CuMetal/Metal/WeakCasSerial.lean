import CuMetal.Metal.WeakCas

/-!
# The helpers are linearizable

Every call takes its effect in one access: a successful compare-and-swap, or for the
compare-and-swap helper one that has seen another value. In the order of these accesses the calls,
run one after another, return the same values and leave the same counters.
-/

namespace CuMetal.Metal.WeakCas

open Function List Option Call

open SingleEffect (Jobs Serial sequential)

/-- The parameters are bound to the call's arguments. -/
def Call.Bound (locals : Locals) : Call → Prop
  | .cas _ location compare desired =>
    locals "pointer" = some (.pointer location) ∧ locals "compare" = some (.uint compare) ∧
      locals "desired" = some (.uint desired)
  | .floatAdd location value =>
    locals "pointer" = some (.pointer location) ∧ locals "value" = some (.float value)

/-- The compare-and-swap helper goes on only while it expects the value to compare with. -/
def Call.Expects (call : Call) (expected : BitVec 32) : Prop :=
  match call with
  | .cas _ _ compare _ => expected = compare
  | .floatAdd .. => True

/-- A thread before a statement of the helper, with the value that its effect has read. -/
inductive Stands (call : Call) : Thread → Option (BitVec 32) → Prop
  | idle : Stands call .idle none
  | entering {locals : Locals} (bound : call.Bound locals) :
      Stands call (.running locals call.helper.statements) none
  | testing {locals : Locals} {expected : BitVec 32} (bound : call.Bound locals)
      (known : locals "expected" = some (.uint expected)) (expects : call.Expects expected) :
      Stands call (.running locals (call.helper.statements.drop 1)) none
  | returning {locals : Locals} {old : BitVec 32}
      (known : locals "expected" = some (.uint old)) :
      Stands call (.running locals (call.helper.statements.drop 2)) (some old)
  | returned {old : BitVec 32} : Stands call (.finished (call.result old)) (some old)

/-- The value that an access reads for good. -/
def Call.effectOf (call : Call) : Access → Option (BitVec 32)
  | .load .. => none
  | .swapped _ old _ => some old
  | .failed _ seen =>
    match call with
    | .cas _ _ compare _ => if seen = compare then none else some seen
    | .floatAdd .. => none

/-- What a step of a call does to the counters and to the outcome of the call. -/
inductive Outcome (add : BitVec 32 → BitVec 32 → BitVec 32) (call : Call)
    (atomics : Location → BitVec 32) :
    Option (BitVec 32) → (Location → BitVec 32) → List Access → Option (BitVec 32) → Prop
  | internal {outcome : Option (BitVec 32)} {accesses : List Access}
      (none_ : ∀ access ∈ accesses, call.effectOf access = none) :
      Outcome add call atomics outcome atomics accesses outcome
  | effect {access : Access} {after : Location → BitVec 32} {old : BitVec 32}
      (read : atomics call.location = old) (effect : call.effectOf access = some old)
      (writes : ∀ location seen new, access = .swapped location seen new → call.Expects seen)
      (left : after = Function.update atomics call.location (call.update add old)) :
      Outcome add call atomics none after [access] (some old)

variable (add : BitVec 32 → BitVec 32 → BitVec 32) (spurious : Bool) {machine : Machine}

variable {value : Value} {location : Location} {after : Machine} {call : Call} {locals : Locals}
  {name : String} {old x y : BitVec 32} {left : MslExpression} {rest : List MslStatement}

theorem evaluate_identifier (machine : Machine) (type : MslType)
    (bound : machine.locals name = some value) (ordinary : name ∉ enumerators) :
    (evaluate add spurious (.identifier name type)).run machine = some (value, machine) := by
  simp [evaluate, readVariable, ordinary, bound]

theorem evaluate_relaxed (machine : Machine) : (evaluate add spurious relaxed).run machine =
    some (.symbol "memory_order_relaxed", machine) := rfl

theorem evaluate_exchanged (machine : Machine) (addressSpace : MslAddressSpace)
    {desired : MslExpression} {new : BitVec 32}
    (pointer : machine.locals "pointer" = some (.pointer location))
    (known : machine.locals "expected" = some (.uint old))
    (desiredValue : (evaluate add spurious desired).run machine = some (.uint new, machine)) :
    (evaluate add spurious (exchanged addressSpace desired)).run machine =
      if machine.atomics location = old ∧ spurious = false then
        some (.bool true,
          { machine with
            atomics := Function.update machine.atomics location new
            accesses := machine.accesses ++ [.swapped location (machine.atomics location) new] })
      else
        some (.bool false,
          { machine with
            locals := Function.update machine.locals "expected"
              (some (.uint (machine.atomics location)))
            accesses := machine.accesses ++ [.failed location (machine.atomics location)] }) := by
  have target := evaluate_identifier add spurious machine (atomicPointer addressSpace) pointer
    (by decide)
  have order := evaluate_relaxed add spurious machine
  rw [exchanged, expected, evaluate]
  unfold WeakCas.pointer
  simp only [StateT.run_bind, target, desiredValue, order, bind_eq_bind, bind_some]
  unfold compareExchangeWeak
  by_cases succeeds : machine.atomics location = old ∧ spurious = false
  · simp [known, succeeds]
  · simp [known, succeeds]

theorem evaluate_not {operand : MslExpression} (type : MslType) {value : Bool}
    (operandValue : (evaluate add spurious operand).run machine = some (.bool value, after)) :
    (evaluate add spurious (.unary "!" operand type)).run machine = some (.bool !value, after) := by
  simp [evaluate, operandValue]

theorem evaluate_and_false (right : MslExpression) (type : MslType)
    (leftValue : (evaluate add spurious left).run machine = some (.bool false, after)) :
    (evaluate add spurious (.binary "&&" left right type)).run machine =
      some (.bool false, after) := by
  simp [evaluate, leftValue]

theorem evaluate_and_true {right : MslExpression} (type : MslType) {value : Bool}
    {middle : Machine}
    (leftValue : (evaluate add spurious left).run machine = some (.bool true, middle))
    (rightValue : (evaluate add spurious right).run middle = some (.bool value, after)) :
    (evaluate add spurious (.binary "&&" left right type)).run machine =
      some (.bool value, after) := by
  simp [evaluate, leftValue, rightValue]

/-- The old value is compared with the one to compare with, by their bits. -/
theorem evaluate_expected_eq (machine : Machine)
    (known : machine.locals "expected" = some (.uint x))
    (compared : machine.locals "compare" = some (.uint y)) :
    (evaluate add spurious (.binary "==" expected compare .boolean)).run machine =
      some (.bool (x == y), machine) := by
  have left := evaluate_identifier add spurious machine (.uint 32) known (by decide)
  have right := evaluate_identifier add spurious machine (.uint 32) compared (by decide)
  simp [evaluate, expected, compare] at left right ⊢
  simp [left, right]

theorem evaluate_sum (known : machine.locals "expected" = some (.uint x))
    (addend : machine.locals "value" = some (.float y)) :
    (evaluate add spurious sum).run machine = some (.uint (add x y), machine) := by
  have left := evaluate_identifier add spurious machine (.uint 32) known (by decide)
  have right := evaluate_identifier add spurious machine .float addend (by decide)
  rw [sum, expected, value]
  simp [evaluate, asType] at left right ⊢
  simp [left, right]

theorem stepThread_while (rest : List MslStatement) {condition : MslExpression} {holds : Bool}
    (test : (evaluate add spurious condition).run machine = some (.bool holds, after)) :
    (stepThread add spurious (.whileStatement condition [] :: rest)).run machine =
      some (.running after.locals
        (if holds then .whileStatement condition [] :: rest else rest), after) := by
  cases holds <;> simp [stepThread, test]

theorem stepThread_return {expression : MslExpression}
    (result : (evaluate add spurious expression).run machine = some (value, after)) :
    (stepThread add spurious (.returnStatement (some expression) :: rest)).run machine =
      some (.finished value, after) := by
  simp [stepThread, result]

theorem stepThread_variable {initializer : MslExpression} {type : MslType} {isConst : Bool}
    (result : (evaluate add spurious initializer).run machine = some (value, after))
    (fits : hasType type value = true) :
    (stepThread add spurious (.variable type name (some initializer) isConst :: rest)).run machine =
      some (.running (Function.update after.locals name (some value)) rest, after) := by
  simp [stepThread, result, fits]

theorem Call.Bound.update (bound : call.Bound locals)
    (value : BitVec 32) : call.Bound (Function.update locals "expected" (some (.uint value))) := by
  cases call with
  | cas => simpa [Call.Bound] using bound
  | floatAdd => simpa [Call.Bound] using bound

theorem expected_update (locals : Locals) (value : BitVec 32) :
    Function.update locals "expected" (some (.uint value)) "expected" = some (.uint value) :=
  update_self ..

theorem step_testing_cas {addressSpace : MslAddressSpace} {compared desired : BitVec 32}
    (bound : (cas addressSpace location compared desired).Bound locals)
    (known : locals "expected" = some (.uint compared)) (atomics : Location → BitVec 32) :
    ∃ thread machine outcome',
      (stepThread add spurious ((makeAtomicCasU32Helper addressSpace).statements.drop 1)).run
          ⟨locals, atomics, []⟩ = some (thread, machine) ∧
        Outcome add (.cas addressSpace location compared desired) atomics none machine.atomics
          machine.accesses outcome' ∧
        Stands (.cas addressSpace location compared desired) thread outcome' := by
  have ⟨pointer, comparison, replacement⟩ := bound
  have swap := evaluate_exchanged add spurious ⟨locals, atomics, []⟩ addressSpace pointer known
    (evaluate_identifier add spurious _ (.uint 32) replacement (by decide))
  by_cases succeeds : atomics location = compared ∧ spurious = false
  · -- the counter had the value: the loop ends with it
    rw [if_pos succeeds] at swap
    have test := evaluate_and_false add spurious (.binary "==" expected compare .boolean) .boolean
      (evaluate_not add spurious .boolean swap)
    have new : (cas addressSpace location compared desired).update add compared = desired :=
      if_pos rfl
    refine ⟨_, _, some compared, stepThread_while add spurious _ test,
      .effect succeeds.1 (congrArg some succeeds.1) ?_ (by rw [new]; rfl), .returning known⟩
    rintro _ seen _ ⟨⟩
    exact succeeds.1
  · rw [if_neg succeeds] at swap
    have equal := evaluate_expected_eq add spurious ⟨update locals "expected"
      (some (.uint (atomics location))), atomics, [.failed location (atomics location)]⟩
      (expected_update locals _) (by simpa using comparison)
    have test := evaluate_and_true add spurious .boolean (evaluate_not add spurious .boolean swap)
      equal
    have step := stepThread_while add spurious [.returnStatement (some expected)] test
    by_cases same : atomics location = compared
    · -- a spurious failure: the loop goes on
      have again : (atomics location == compared) = true := by simpa using same
      rw [again, if_pos rfl] at step
      refine ⟨_, _, none, step, .internal ?_, ?_⟩
      · intro access member
        rw [mem_singleton] at member
        rw [member]
        exact if_pos same
      · refine .testing ?_ (expected_update locals (atomics location)) same
        exact bound.update _
    · -- another value: the loop ends with it
      have ends : (atomics location == compared) = false := by simpa using same
      rw [ends, if_neg Bool.false_ne_true] at step
      have kept : (cas addressSpace location compared desired).update add (atomics location) =
          atomics location := if_neg same
      refine ⟨_, _, some (atomics location), step,
        .effect rfl (if_neg same) (by rintro _ _ _ ⟨⟩) ?_, .returning (expected_update locals _)⟩
      rw [kept, Call.location, update_eq_self]

theorem step_testing_floatAdd {addend : BitVec 32}
    (bound : (floatAdd location addend).Bound locals)
    (known : locals "expected" = some (.uint old)) (atomics : Location → BitVec 32) :
    ∃ thread machine outcome',
      (stepThread add spurious (makeThreadgroupFloatAddHelper.statements.drop 1)).run
          ⟨locals, atomics, []⟩ = some (thread, machine) ∧
        Outcome add (.floatAdd location addend) atomics none machine.atomics machine.accesses
          outcome' ∧
        Stands (.floatAdd location addend) thread outcome' := by
  have ⟨pointer, value⟩ := bound
  have swap := evaluate_exchanged add spurious ⟨locals, atomics, []⟩ .threadgroup pointer known
    (evaluate_sum add spurious known value)
  by_cases succeeds : atomics location = old ∧ spurious = false
  · rw [if_pos succeeds] at swap
    have test := evaluate_not add spurious .boolean swap
    exact ⟨_, _, some old, stepThread_while add spurious _ test,
      .effect succeeds.1 (congrArg some succeeds.1) (fun _ _ _ _ => trivial) rfl, .returning known⟩
  · rw [if_neg succeeds] at swap
    have test := evaluate_not add spurious .boolean swap
    refine ⟨_, _, none, stepThread_while add spurious _ test, .internal ?_, ?_⟩
    · intro access member
      rw [nil_append, mem_singleton] at member
      rw [member]
      rfl
    · refine .testing ?_ (expected_update locals (atomics location)) trivial
      exact bound.update _

/-- A call that runs can take its next step, and the step is one of its outcomes. -/
theorem Stands.step {code : List MslStatement}
    {outcome : Option (BitVec 32)} (stands : Stands call (.running locals code) outcome)
    (atomics : Location → BitVec 32) :
    ∃ thread machine outcome',
      (stepThread add spurious code).run ⟨locals, atomics, []⟩ = some (thread, machine) ∧
        Outcome add call atomics outcome machine.atomics machine.accesses outcome' ∧
        Stands call thread outcome' := by
  cases stands with
  | entering bound =>
    cases call with
    | cas addressSpace location compare desired =>
      have initial := evaluate_identifier add spurious ⟨locals, atomics, []⟩
        (.uint 32) bound.2.1 (by decide)
      exact ⟨_, _, none, stepThread_variable add spurious initial rfl,
        .internal nofun,
        .testing (bound.update compare) (update_self ..) rfl⟩
    | floatAdd location value =>
      have target := evaluate_identifier add spurious ⟨locals, atomics, []⟩
        (atomicPointer .threadgroup) bound.1 (by decide)
      have order := evaluate_relaxed add spurious ⟨locals, atomics, []⟩
      have initial : (evaluate add spurious (.call "atomic_load_explicit"
          [pointer .threadgroup, relaxed] (.uint 32))).run ⟨locals, atomics, []⟩ =
          some (.uint (atomics location),
            ⟨locals, atomics, [.load location (atomics location)]⟩) := by
        rw [pointer, evaluate]
        simp only [StateT.run_bind, target, order, bind_eq_bind, bind_some]
        rfl
      refine ⟨_, _, none, stepThread_variable add spurious initial rfl, .internal ?_,
        .testing (bound.update (atomics location)) (update_self ..) trivial⟩
      intro access member
      rw [mem_singleton] at member
      rw [member]
      rfl
  | testing bound known expects =>
    cases call with
    | cas => exact step_testing_cas add spurious bound (expects ▸ known) atomics
    | floatAdd => exact step_testing_floatAdd add spurious bound known atomics
  | @returning _ old known =>
    have read := evaluate_identifier add spurious ⟨locals, atomics, []⟩
      (.uint 32) known (by decide)
    cases call with
    | cas =>
      exact ⟨_, _, some old, stepThread_return add spurious read,
        .internal nofun, .returned⟩
    | floatAdd =>
      have cast_ : (evaluate add spurious (.cast .float expected false true)).run
          ⟨locals, atomics, []⟩ = some (.float old, ⟨locals, atomics, []⟩) := by
        rw [expected, evaluate]
        simp only [StateT.run_bind, read, bind_eq_bind, bind_some]
        rfl
      exact ⟨_, _, some old, stepThread_return add spurious cast_,
        .internal nofun, .returned⟩

theorem stands_start (call : Call) : Stands call call.start none := by
  refine .entering ?_
  cases call with
  | cas => simp [Call.Bound, helper, arguments, makeAtomicCasU32Helper]
  | floatAdd => simp [Call.Bound, helper, arguments, makeThreadgroupFloatAddHelper]

theorem Stands.of_finished {outcome : Option (BitVec 32)}
    (stands : Stands call (.finished value) outcome) :
    ∃ old, outcome = some old ∧ value = call.result old := by
  cases stands with
  | @returned old => exact ⟨old, rfl, rfl⟩

/-! ## Calls together -/

section Calls

variable {ι : Type} [DecidableEq ι] (calls : ι → Call)

/-- The calls as jobs with a single effect on their counters. -/
def jobs : Jobs ι Location (BitVec 32) where
  cell := fun i => (calls i).location
  update := fun i => (calls i).update add

/-- The effect that an access of a call is, with the value read. -/
def effectOf (label : ι × Access) : Option (ι × BitVec 32) :=
  ((calls label.1).effectOf label.2).map fun old => (label.1, old)

/-- The calls in the order of their effects. -/
def orderOf (trace : List (ι × Access)) : List ι := (trace.filterMap (effectOf calls)).map Prod.fst

/-- A state of the threads, and the state of the jobs that it refines. -/
structure Refines (s : State ι) (t : SingleEffect.State ι Location (BitVec 32)) : Prop where
  counters : t.memory = s.atomics
  stands : ∀ i, Stands (calls i) (s.thread i) (t.outcome i)

/-- What an access of a call shows: a compare-and-swap helper only writes over the value to compare
with. -/
def Shown (label : ι × Access) : Prop :=
  ∀ location old new, label.2 = .swapped location old new → (calls label.1).Expects old

variable {add} {calls}

variable {s : State ι} {t : SingleEffect.State ι Location (BitVec 32)}

theorem Refines.outcome (related : Refines calls s t) {i : ι} {thread : Thread}
    {after : Location → BitVec 32} {accesses : List Access} {outcome : Option (BitVec 32)}
    (effect : Outcome add (calls i) s.atomics (t.outcome i) after accesses outcome)
    (stands : Stands (calls i) thread outcome) :
    (∀ access ∈ accesses, Shown calls (i, access)) ∧
      ∃ t', Lts.Run (SingleEffect.Step (jobs add calls)) t
          ((accesses.map fun access => (i, access)).filterMap (effectOf calls)) t' ∧
        Refines calls ⟨after, Function.update s.thread i thread⟩ t' := by
  have others : ∀ {j}, j ≠ i →
      Stands (calls j) (update s.thread i thread j) (t.outcome j) :=
    fun {j} other => by
      rw [update_of_ne other]
      exact related.stands j
  generalize before : t.outcome i = pending at effect
  cases effect with
  | internal none_ =>
    constructor
    · rintro access member location old new rfl
      exact nomatch none_ _ member
    · have silent : (accesses.map fun access => (i, access)).filterMap (effectOf calls) = [] := by
        rw [filterMap_eq_nil_iff]
        rintro label member
        obtain ⟨access, inside, rfl⟩ := mem_map.mp member
        rw [effectOf, none_ access inside]
        rfl
      rw [silent]
      refine ⟨t, .refl t, related.counters, fun j => ?_⟩
      by_cases same : j = i
      · subst same
        dsimp only
        rw [update_self, before]
        exact stands
      · exact others same
  | @effect access _ old read known writes left =>
    constructor
    · intro other member
      rw [mem_singleton] at member
      subst member
      exact writes
    · have label : ([access].map fun access => (i, access)).filterMap (effectOf calls) =
          [(i, t.memory ((jobs add calls).cell i))] := by
        rw [map_singleton, filterMap_cons_some (b := (i, old)) (by
          rw [effectOf, known]
          rfl), filterMap_nil, related.counters]
        exact congrArg (fun value => [(i, value)]) read.symm
      rw [label]
      refine ⟨_, .visible (.take before) (.refl _), ?_, fun j => ?_⟩
      · dsimp only
        rw [related.counters, left]
        change update s.atomics (calls i).location
          ((calls i).update add (s.atomics (calls i).location)) = _
        rw [read]
      · dsimp only
        by_cases same : j = i
        · subst same
          rw [update_self, update_self, related.counters]
          change Stands (calls j) thread (some (s.atomics (calls j).location))
          rw [read]
          exact stands
        · simp only [update_of_ne same]
          exact related.stands j

theorem Refines.step {s' : State ι} {label : Option (ι × Access)} (related : Refines calls s t)
    (step : Step add calls s label s') :
    (∀ entry ∈ label, Shown calls entry) ∧
      ∃ t', Lts.Run (SingleEffect.Step (jobs add calls)) t (label.bind (effectOf calls)).toList t' ∧
        Refines calls s' t' := by
  have next : ∀ {i : ι} {locals : Locals} {code : List MslStatement} (spurious : Bool)
      {thread : Thread} {machine : Machine}, s.thread i = .running locals code →
      (stepThread add spurious code).run ⟨locals, s.atomics, []⟩ = some (thread, machine) →
      (∀ access ∈ machine.accesses, Shown calls (i, access)) ∧
        ∃ t', Lts.Run (SingleEffect.Step (jobs add calls)) t
            ((machine.accesses.map fun access => (i, access)).filterMap (effectOf calls)) t' ∧
          Refines calls ⟨machine.atomics, update s.thread i thread⟩ t' := by
    intro i locals code spurious thread machine running result
    have stands := related.stands i
    rw [running] at stands
    obtain ⟨thread', machine', outcome', result', effect, stands'⟩ :=
      stands.step add spurious s.atomics
    obtain ⟨rfl, rfl⟩ := Prod.mk.inj (some.inj (result.symm.trans result'))
    exact related.outcome effect stands'
  cases step with
  | @begin_ i idle =>
    refine ⟨by simp, t, .refl t, related.counters, fun j => ?_⟩
    dsimp only
    by_cases same : j = i
    · subst same
      have stands := related.stands j
      rw [idle] at stands
      generalize t.outcome j = outcome at stands ⊢
      cases stands
      rw [update_self]
      exact stands_start (calls j)
    · rw [update_of_ne same]
      exact related.stands j
  | silent spurious running result quiet =>
    obtain ⟨-, t', run, refines⟩ := next spurious running result
    rw [quiet] at run
    exact ⟨by simp, t', run, refines⟩
  | @access i _ _ spurious _ machine access running result single =>
    obtain ⟨shown, t', run, refines⟩ := next spurious running result
    rw [single] at run shown
    refine ⟨?_, t', ?_, refines⟩
    · rintro entry member
      cases member
      exact shown access mem_cons_self
    · cases kept : effectOf calls (i, access) with
      | none => simpa [kept] using run
      | some effect => simpa [kept] using run

/-- The calls of an order, one after another, account for a state after a trace: for the counters
and for the values returned. A call that has returned is in the order, and one that has not begun
is not. A compare-and-swap that has returned another value than the one to compare with has not
written. -/
structure Linearised (add : BitVec 32 → BitVec 32 → BitVec 32) (calls : ι → Call)
    (atomics : Location → BitVec 32) (trace : List (ι × Access)) (s : State ι) (order : List ι) :
    Prop where
  nodup : order.Nodup
  counters : s.atomics = sequential (jobs add calls) atomics order
  begun : ∀ i ∈ order, s.thread i ≠ .idle
  returned : ∀ i value, s.thread i = .finished value →
    ∃ before after, order = before ++ i :: after ∧
      value = (calls i).result
        (sequential (jobs add calls) atomics before (calls i).location)
  mismatch : ∀ i addressSpace location compare desired old,
    calls i = .cas addressSpace location compare desired → s.thread i = .finished (.uint old) →
      old ≠ compare → ∀ target seen new, (i, .swapped target seen new) ∉ trace

omit [DecidableEq ι] in
theorem orderOf_append (first rest : List (ι × Access)) :
    orderOf calls (first ++ rest) = orderOf calls first ++ orderOf calls rest := by
  rw [orderOf, filterMap_append, map_append]
  rfl

variable {atomics : Location → BitVec 32} {trace : List (ι × Access)}

theorem refines_of_run (run : Lts.Run (Step add calls) (startState atomics) trace s) :
    (∀ entry ∈ trace, Shown calls entry) ∧
      ∃ t, Refines calls s t ∧
        Serial (jobs add calls) atomics (trace.filterMap (effectOf calls)) t := by
  have start : Refines calls (startState atomics)
      { memory := atomics, outcome := fun _ => none } := ⟨rfl, fun _ => .idle⟩
  obtain ⟨shown, t, abstract, refines⟩ := run.project (Refines calls) (effectOf calls)
    (fun _ _ _ _ related step => related.step step) start
  have serial := Serial.start.run abstract
  rw [nil_append] at serial
  exact ⟨shown, t, refines, serial⟩

theorem linearised_of_run (run : Lts.Run (Step add calls) (startState atomics) trace s) :
    Linearised add calls atomics trace s (orderOf calls trace) := by
  obtain ⟨shown, t, refines, serial⟩ := refines_of_run run
  constructor
  · exact serial.nodup
  · exact refines.counters.symm.trans serial.cells
  · intro job member idle
    obtain ⟨⟨i, old⟩, taken, rfl⟩ := mem_map.mp member
    have stands := refines.stands i
    rw [(serial.outcome i old).mpr taken, idle] at stands
    cases stands
  · intro i value ended
    obtain ⟨old, outcome, rfl⟩ := (ended ▸ refines.stands i).of_finished
    obtain ⟨before, after, whole⟩ := append_of_mem ((serial.outcome i old).mp outcome)
    refine ⟨before.map Prod.fst, after.map Prod.fst, ?_, ?_⟩
    · rw [orderOf, whole, map_append, map_cons]
    · exact congrArg (calls i).result (serial.values before i old after whole)
  · intro i addressSpace location compare desired old call ended other target seen new wrote
    obtain ⟨read, outcome, value⟩ := (ended ▸ refines.stands i).of_finished
    have expects := shown _ wrote target seen new rfl
    have effect : (i, seen) ∈ trace.filterMap (effectOf calls) :=
      mem_filterMap.mpr ⟨_, wrote, rfl⟩
    obtain rfl := some.inj (outcome.symm.trans ((serial.outcome i seen).mpr effect))
    rw [call] at expects value
    cases value
    exact other expects

/-- In every run of the calls, the order of their effects accounts for the state; and it keeps the
order of the calls that do not overlap. -/
theorem calls_linearizable (add : BitVec 32 → BitVec 32 → BitVec 32) (calls : ι → Call)
    (atomics : Location → BitVec 32) {first rest : List (ι × Access)} {u s : State ι}
    (run : Lts.Run (Step add calls) (startState atomics) first u)
    (more : Lts.Run (Step add calls) u rest s) :
    Linearised add calls atomics (first ++ rest) s (orderOf calls (first ++ rest)) ∧
      ∀ i j value, u.thread i = .finished value → u.thread j = .idle →
        j ∈ orderOf calls (first ++ rest) →
        ∃ before between after, orderOf calls (first ++ rest) =
          before ++ i :: between ++ j :: after := by
  refine ⟨linearised_of_run (run.trans more), fun i j value ended idle member => ?_⟩
  have early := linearised_of_run run
  obtain ⟨before, middle, whole, -⟩ := early.returned i value ended
  rw [orderOf_append, mem_append] at member
  have later := member.resolve_left fun inside => early.begun j inside idle
  obtain ⟨middle', after, whole'⟩ := append_of_mem later
  refine ⟨before, middle ++ middle', after, ?_⟩
  rw [orderOf_append, whole, whole']
  simp

end Calls

section

variable {ι : Type} [DecidableEq ι] {calls : ι → Call}

/-- The step that a thread can take, in which a compare-and-swap fails spuriously or not. -/
def turn (add : BitVec 32 → BitVec 32 → BitVec 32) (calls : ι → Call) (s : State ι) :
    ι × Bool → Option (Option (ι × Access) × State ι)
  | (i, spurious) =>
  match s.thread i with
  | .idle => some (none, { s with thread := Function.update s.thread i (calls i).start })
  | .finished _ => none
  | .running locals code =>
    match (stepThread add spurious code).run ⟨locals, s.atomics, []⟩ with
    | none => none
    | some (thread, machine) =>
      match machine.accesses with
      | [] => some (none, ⟨machine.atomics, Function.update s.thread i thread⟩)
      | [access] => some (some (i, access), ⟨machine.atomics, Function.update s.thread i thread⟩)
      | _ => none

theorem step_of_turn (s : State ι) (choice : ι × Bool) (label : Option (ι × Access))
    (next : State ι) (taken : turn add calls s choice = some (label, next)) :
    Step add calls s label next := by
  obtain ⟨i, spurious⟩ := choice
  rw [turn] at taken
  split at taken
  next idle =>
    cases taken
    exact .begin_ idle
  next => cases taken
  next running =>
    split at taken
    · cases taken
    next step =>
      split at taken
      next quiet =>
        cases taken
        exact .silent spurious running step quiet
      next single =>
        cases taken
        exact .access spurious running step single
      next => cases taken

end

/-- Two calls for the same old value at the same time, and a third one after the first. -/
def threeCalls : Fin 3 → Call
  | 0 => .cas .device ⟨none, 64⟩ 7 9
  | 1 => .cas .device ⟨none, 64⟩ 7 5
  | 2 => .cas .device ⟨none, 64⟩ 9 3

/-- What a finished call has returned. -/
def Thread.result? : Thread → Option Value
  | .finished value => some value
  | _ => none

theorem Thread.of_result {thread : Thread} {value : Value} (ended : thread.result? = some value) :
    thread = .finished value := by
  cases thread <;> cases ended
  rfl

/-- The call has not been made. -/
def Thread.waits : Thread → Bool
  | .idle => true
  | _ => false

theorem Thread.of_waits {thread : Thread} (waits : thread.waits = true) : thread = .idle := by
  cases thread <;> cases waits
  rfl

/-- The first attempt of call 0 fails spuriously, and call 1 finds what call 0 has stored. -/
def firstTurns : List (Fin 3 × Bool) :=
  [(0, false), (1, false), (1, false), (0, false), (0, true), (0, false), (1, false), (0, false)]

/-- Call 2, and the return of call 1. -/
def laterTurns : List (Fin 3 × Bool) :=
  [(2, false), (2, false), (2, false), (1, false)]

theorem calls_linearizable_overlapping : ∃ u s : State (Fin 3),
    u.thread 0 = .finished (.uint 7) ∧ u.thread 2 = .idle ∧
      s.thread 1 = .finished (.uint 9) ∧ s.atomics ⟨none, 64⟩ = 3 ∧
      Linearised (· + ·) threeCalls (fun _ => 7)
        [(0, .failed ⟨none, 64⟩ 7), (0, .swapped ⟨none, 64⟩ 7 9), (1, .failed ⟨none, 64⟩ 9),
          (2, .swapped ⟨none, 64⟩ 9 3)] s [0, 1, 2] ∧
      ∃ before between after, ([0, 1, 2] : List (Fin 3)) = before ++ 0 :: between ++ 2 :: after := by
  have ran : ∃ first, first ∈ Lts.turns (turn (· + ·) threeCalls) (startState fun _ => 7)
        firstTurns ∧
      (first.1 = [(0, .failed ⟨none, 64⟩ 7), (0, .swapped ⟨none, 64⟩ 7 9),
          (1, .failed ⟨none, 64⟩ 9)] ∧
        (first.2.thread 0).result? = some (.uint 7) ∧ (first.2.thread 2).waits = true) ∧
      ∃ second, second ∈ Lts.turns (turn (· + ·) threeCalls) first.2 laterTurns ∧
        second.1 = [(2, .swapped ⟨none, 64⟩ 9 3)] ∧
        (second.2.thread 1).result? = some (.uint 9) ∧ second.2.atomics ⟨none, 64⟩ = 3 := by
    decide +kernel
  obtain ⟨⟨trace, u⟩, taken, ⟨rfl, ended, idle⟩, ⟨trace', s⟩, more, rfl, later, word⟩ := ran
  have first := Lts.run_of_turns (step_of_turn _) taken
  have both := calls_linearizable (· + ·) threeCalls (fun _ => 7) first
    (Lts.run_of_turns (step_of_turn _) more)
  have ended := Thread.of_result ended
  have idle := Thread.of_waits idle
  exact ⟨u, s, ended, idle, Thread.of_result later, word, both.1,
    both.2 0 2 _ ended idle (by decide)⟩

end CuMetal.Metal.WeakCas
