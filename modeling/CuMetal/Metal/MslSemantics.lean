import CuMetal.Lib.Transition
import CuMetal.Metal.MslValues

/-!
# Running MSL statements

A small-step meaning for the statements of a helper function that threads call concurrently: each
statement, or test of a condition, is one step of its thread, and carries its access to shared
memory as a label. Fences and barriers do not change memory, which every thread sees at once.
-/

namespace CuMetal.Metal

open Option

/-- Shared memory: the `ulong` objects and the atomic counters, by location. -/
structure Memory where
  words : Location → BitVec 64
  atomics : Location → BitVec 32

/-- One access to shared memory, with the values read and written. -/
inductive Access
  | load (location : Location) (value : BitVec 64)
  | store (location : Location) (value : BitVec 64)
  | atomicLoad (location : Location) (value : BitVec 32)
  | atomicStore (location : Location) (value : BitVec 32)
  | atomicExchange (location : Location) (old new : BitVec 32)
  | atomicFetchAdd (location : Location) (old amount : BitVec 32)
  deriving DecidableEq

/-- The `ulong` object that an access reads or writes. -/
def Access.word : Access → Option Location
  | .load location _ | .store location _ => some location
  | _ => none

/-- Memory, and the accesses to it that a step has made. -/
structure Machine where
  memory : Memory
  accesses : List Access

/-- An evaluation, which may access memory; what MSL leaves undefined has no result. -/
abbrev Eval := StateT Machine Option

abbrev Locals := String → Option Value

def Locals.set (locals : Locals) (name : String) (value : Value) : Locals :=
  Function.update locals name (some value)

@[simp] theorem Locals.set_self (locals : Locals) (name : String) (value : Value) :
    locals.set name value name = some value :=
  Function.update_self ..

theorem Locals.set_of_ne (locals : Locals) {name other : String} (value : Value)
    (different : other ≠ name) : locals.set name value other = locals other :=
  Function.update_of_ne different ..

namespace Memory

def setWord (memory : Memory) (location : Location) (value : BitVec 64) : Memory :=
  { memory with words := Function.update memory.words location value }

def setAtomic (memory : Memory) (location : Location) (value : BitVec 32) : Memory :=
  { memory with atomics := Function.update memory.atomics location value }

end Memory

/-! ## Expressions -/

/-- Reads a `ulong` object. -/
def readWord (location : Location) : Eval Value := do
  let machine ← get
  let value := machine.memory.words location
  set { machine with accesses := machine.accesses ++ [.load location value] : Machine }
  pure (.ulong value)

/-- Writes a `ulong` object. -/
def writeWord (location : Location) (value : BitVec 64) : Eval Unit := do
  let machine ← get
  set { machine with memory := machine.memory.setWord location value
                     accesses := machine.accesses ++ [.store location value] : Machine }

/-- Replaces the value of an atomic counter by a function of it, and yields the old value. -/
def updateAtomic (location : Location) (new : BitVec 32 → BitVec 32)
    (access : BitVec 32 → Access) : Eval Value := do
  let machine ← get
  let old := machine.memory.atomics location
  set { machine with memory := machine.memory.setAtomic location (new old)
                     accesses := machine.accesses ++ [access old] : Machine }
  pure (.uint old)

def readAtomic (location : Location) : Eval Value := do
  let machine ← get
  let value := machine.memory.atomics location
  set { machine with accesses := machine.accesses ++ [.atomicLoad location value] : Machine }
  pure (.uint value)

/-- The functions of the Metal library that the helpers call. -/
def callBuiltin (callee : String) (arguments : List Value) : Eval Value :=
  match callee, arguments with
  | "atomic_load_explicit", [.pointer location, .symbol _] => readAtomic location
  | "atomic_store_explicit", [.pointer location, .integer value, .symbol _] => do
    let _ ← updateAtomic location (fun _ => value.converted 32)
      (fun _ => .atomicStore location (value.converted 32))
    pure .void
  | "atomic_exchange_explicit", [.pointer location, .integer value, .symbol _] =>
    updateAtomic location (fun _ => value.converted 32)
      (fun old => .atomicExchange location old (value.converted 32))
  | "atomic_fetch_add_explicit", [.pointer location, .integer value, .symbol _] =>
    updateAtomic location (fun old => old + value.converted 32)
      (fun old => .atomicFetchAdd location old (value.converted 32))
  | "atomic_thread_fence", [.symbol _, .symbol _, .symbol _] => pure .void
  | "threadgroup_barrier", [.symbol _] => pure .void
  | _, _ => failure

def enumerators : List String :=
  ["memory_order_relaxed", "memory_order_seq_cst", "thread_scope_device"]

/-- The value of a name: a variable of the thread, or an enumerator of the Metal library. -/
def namedValue (locals : Locals) (name : String) : Option Value :=
  if enumerators.contains name then some (.symbol name) else locals name

def sizeOfType : MslType → Option Nat
  | .struct "atomic_uint" => some 4
  | .int bits | .uint bits => some (bits / 8)
  | _ => none

def elementAt (type : MslType) : Value → Value → Option Location
  | .pointer base, .integer index => do
    let size ← sizeOfType type
    pure { base with address := base.address + index.converted 64 * BitVec.ofNat 64 size }
  | _, _ => none

def componentOf : Value → String → Option Value
  | .vector [x, _, _], "x" => some (.integer x)
  | .vector [_, y, _], "y" => some (.integer y)
  | .vector [_, _, z], "z" => some (.integer z)
  | _, _ => none

/-- The value of a logical operator that its left operand decides. -/
def shortCircuit : String → Value → Option Value
  | "&&", .bool false => some (.bool false)
  | "||", .bool true => some (.bool true)
  | _, _ => none

/-- The value of a binary operator that needs its right operand; a logical one has its value. -/
def operatorValue (operation : String) (x y : Value) : Option Value :=
  match operation, x, y with
  | "&&", .bool _, .bool value | "||", .bool _, .bool value => some (.bool value)
  | _, _, _ => binaryValue operation x y

variable {operation : String}

@[simp] theorem shortCircuit_of_ne (plain : operation ≠ "&&") (plain' : operation ≠ "||")
    (x : Value) : shortCircuit operation x = none := by
  unfold shortCircuit
  split
  · exact absurd rfl plain
  · exact absurd rfl plain'
  · rfl

@[simp] theorem operatorValue_of_ne (plain : operation ≠ "&&") (plain' : operation ≠ "||")
    (x y : Value) : operatorValue operation x y = binaryValue operation x y := by
  unfold operatorValue
  split
  · exact absurd rfl plain
  · exact absurd rfl plain'
  · rfl

mutual

/-- The value of an expression. -/
def evaluate (locals : Locals) : MslExpression → Eval Value
  | .identifier name _ => liftM (namedValue locals name)
  | .literal spelling _ => liftM (literalValue spelling)
  | .unary "*" operand _ => do
    match ← evaluate locals operand with
    | .pointer location => readWord location
    | _ => failure
  | .unary "&" (.subscript base index type) _ => do
    let base ← evaluate locals base
    let index ← evaluate locals index
    let location ← liftM (elementAt type base index)
    pure (.pointer location)
  | .unary operation operand _ => do
    let value ← evaluate locals operand
    liftM (unaryValue operation value)
  | .binary operation left right _ => do
    let x ← evaluate locals left
    match shortCircuit operation x with
    | some value => pure value
    | none => do
      let y ← evaluate locals right
      liftM (operatorValue operation x y)
  | .call callee arguments _ => do
    let values ← evaluateAll locals arguments
    callBuiltin callee values
  | .cast target operand reinterpret bitcast => do
    let value ← evaluate locals operand
    liftM (if bitcast then asType target value
      else if reinterpret then reinterpretCast target value else convert target value)
  | .subscript _ _ _ => failure
  | .member base member _ => do
    let value ← evaluate locals base
    liftM (componentOf value member)
  | .conditional condition trueValue falseValue _ => do
    match ← evaluate locals condition with
    | .bool true => evaluate locals trueValue
    | .bool false => evaluate locals falseValue
    | _ => failure
  -- no helper function has brace initialisers or vote masks
  | .aggregateInit _ _ | .voteMask _ => failure

def evaluateAll (locals : Locals) : List MslExpression → Eval (List Value)
  | [] => pure []
  | argument :: rest => do
    let value ← evaluate locals argument
    let values ← evaluateAll locals rest
    pure (value :: values)

end

attribute [local simp] evaluate evaluateAll

/-! The compound expressions, from the values of their parts. -/

theorem binaryValue_and (x y : Value) : binaryValue "&&" x y = none := by
  cases x <;> cases y <;> rfl

theorem binaryValue_or (x y : Value) : binaryValue "||" x y = none := by
  cases x <;> cases y <;> rfl

variable {value : Value} {locals : Locals} {type : MslType} {name : String}

theorem plain_of_binaryValue {operation : String} {x y : Value}
    (result : binaryValue operation x y = some value) : operation ≠ "&&" ∧ operation ≠ "||" := by
  constructor
  · rintro rfl
    rw [binaryValue_and] at result
    cases result
  · rintro rfl
    rw [binaryValue_or] at result
    cases result

theorem evaluate_binary (type : MslType) {operation : String}
    {left right : MslExpression} {x y : Value} {first second third : Machine}
    (leftValue : (evaluate locals left).run first = some (x, second))
    (rightValue : (evaluate locals right).run second = some (y, third))
    (result : binaryValue operation x y = some value) :
    (evaluate locals (.binary operation left right type)).run first = some (value, third) := by
  obtain ⟨plain, plain'⟩ := plain_of_binaryValue result
  simp [evaluate, leftValue, plain, plain', rightValue, result]

theorem evaluate_and (type : MslType) {left right : MslExpression} {x y : Bool} {machine : Machine}
    (leftValue : (evaluate locals left).run machine = some (.bool x, machine))
    (rightValue : (evaluate locals right).run machine = some (.bool y, machine)) :
    (evaluate locals (.binary "&&" left right type)).run machine =
      some (.bool (x && y), machine) := by
  cases x
  · simp [evaluate, leftValue, shortCircuit]
  · simp [evaluate, leftValue, shortCircuit, rightValue, operatorValue]

theorem evaluate_conditional {condition trueValue falseValue : MslExpression}
 {holds : Bool} {first second : Machine}
    (test : (evaluate locals condition).run first = some (.bool holds, second)) :
    (evaluate locals (.conditional condition trueValue falseValue type)).run first =
      (evaluate locals (if holds then trueValue else falseValue)).run second := by
  cases holds <;> simp [evaluate, test]

theorem evaluate_identifier
    (bound : locals name = some value) (ordinary : name ∉ enumerators) (machine : Machine) :
    (evaluate locals (.identifier name type)).run machine = some (value, machine) := by
  simp [evaluate, namedValue, ordinary, bound]

theorem evaluate_enumerator (known : name ∈ enumerators) (machine : Machine) :
    (evaluate locals (.identifier name type)).run machine = some (.symbol name, machine) := by
  simp [evaluate, namedValue, known]

/-- An atomic exchange of the counter that a pointer expression designates. -/
theorem evaluate_atomicExchange {pointer operand order : MslExpression}
    {location : Location} {word : BitVec 32} (pointerValue : ∀ machine,
      (evaluate locals pointer).run machine = some (.pointer location, machine))
    (operandValue : ∀ machine, (evaluate locals operand).run machine = some (.uint word, machine))
    (orderValue : ∀ machine, (evaluate locals order).run machine = some (.symbol name, machine))
    (type : MslType) (memory : Memory) :
    (evaluate locals (.call "atomic_exchange_explicit" [pointer, operand, order] type)).run
      ⟨memory, []⟩ =
      some (.uint (memory.atomics location), ⟨memory.setAtomic location word,
        [.atomicExchange location (memory.atomics location) word]⟩) := by
  simp [evaluate, evaluateAll, pointerValue, operandValue, orderValue, callBuiltin, updateAtomic]

/-- A thread: what it has still to run, or the value that it returned. -/
inductive Thread
  | running (locals : Locals) (code : List MslStatement)
  | finished (result : Option Value)

/-- Assigns to a variable, or through a pointer to a `ulong`. -/
def assign (locals : Locals) (target : MslExpression) (value : Value) : Eval Locals :=
  match target with
  | .identifier name type => do
    let value ← liftM (convert type value)
    pure (locals.set name value)
  | .unary "*" pointer type => do
    let location ← evaluate locals pointer
    match location, convert type value with
    | .pointer location, some (.integer ⟨_, 64, bits⟩) => do
      writeWord location bits
      pure locals
    | _, _ => failure
  | _ => failure

/-- The next step of a thread with the given variables and statements to run. -/
def stepThread (locals : Locals) : List MslStatement → Eval Thread
  | [] => pure (.finished none)
  | .variable type name (some initializer) _ :: rest => do
    let value ← evaluate locals initializer
    let value ← liftM (convert type value)
    pure (.running (locals.set name value) rest)
  | .variable _ name none _ :: rest => pure (.running (Function.update locals name none) rest)
  | .assignment target value :: rest => do
    let value ← evaluate locals value
    let locals ← assign locals target value
    pure (.running locals rest)
  | .expression expression :: rest => do
    let _ ← evaluate locals expression
    pure (.running locals rest)
  | .ifStatement condition thenStatements elseStatements :: rest => do
    match ← evaluate locals condition with
    | .bool true => pure (.running locals (thenStatements ++ rest))
    | .bool false => pure (.running locals (elseStatements ++ rest))
    | _ => failure
  | .whileStatement condition statements :: rest => do
    match ← evaluate locals condition with
    | .bool true => pure (.running locals (statements ++ .whileStatement condition statements :: rest))
    | .bool false => pure (.running locals rest)
    | _ => failure
  | .returnStatement none :: _ => pure (.finished none)
  | .returnStatement (some expression) :: _ => do
    let value ← evaluate locals expression
    pure (.finished (some value))

/-! The steps of the statements, from the values of their expressions. -/

section Steps

variable {locals : Locals} {rest : List MslStatement} {expression : MslExpression}
  {value : Value} {first second : Machine}

variable {type : MslType} {holds : Bool} {stored : Value}

section

variable (result : (evaluate locals expression).run first = some (value, second))
include result

theorem stepThread_variable {name : String} {isConst : Bool}
    (converts : convert type value = some stored) :
    (stepThread locals (.variable type name (some expression) isConst :: rest)).run first =
      some (.running (locals.set name stored) rest, second) := by
  simp [stepThread, result, converts]

theorem stepThread_assignVariable {name : String} (converts : convert type value = some stored) :
    (stepThread locals (.assignment (.identifier name type) expression :: rest)).run first =
      some (.running (locals.set name stored) rest, second) := by
  simp [stepThread, result, assign, converts]

theorem stepThread_store {pointer : MslExpression} {location : Location} {signed : Bool}
    {bits : BitVec 64}
    (target : (evaluate locals pointer).run second = some (.pointer location, second))
    (converts : convert type value = some (.integer ⟨signed, 64, bits⟩)) :
    (stepThread locals (.assignment (.unary "*" pointer type) expression :: rest)).run first =
      some (.running locals rest,
        ⟨second.memory.setWord location bits, second.accesses ++ [.store location bits]⟩) := by
  simp [stepThread, result, assign, target, converts, writeWord]

theorem stepThread_expression :
    (stepThread locals (.expression expression :: rest)).run first =
      some (.running locals rest, second) := by
  simp [stepThread, result]

end

theorem stepThread_if {thenStatements elseStatements : List MslStatement}
    (test : (evaluate locals expression).run first = some (.bool holds, second)) :
    (stepThread locals (.ifStatement expression thenStatements elseStatements :: rest)).run first =
      some (.running locals ((if holds then thenStatements else elseStatements) ++ rest),
        second) := by
  cases holds <;> simp [stepThread, test]

theorem stepThread_while {statements : List MslStatement}
    (test : (evaluate locals expression).run first = some (.bool holds, second)) :
    (stepThread locals (.whileStatement expression statements :: rest)).run first =
      some (.running locals
        (if holds then statements ++ .whileStatement expression statements :: rest else rest),
        second) := by
  cases holds <;> simp [stepThread, test]

theorem stepThread_return
    (result : (evaluate locals expression).run first = some (value, second)) :
    (stepThread locals (.returnStatement (some expression) :: rest)).run first =
      some (.finished (some value), second) := by
  simp [stepThread, result]

end Steps

/-- A thread that calls a function with the given arguments. -/
def MslFunction.start (function : MslFunction) (arguments : List Value) : Thread :=
  .running
    ((function.parameters.zip arguments).foldl
      (fun locals argument => locals.set argument.1.name argument.2) (fun _ => none))
    function.statements

variable {ι : Type} [DecidableEq ι]

/-- Shared memory and the threads. -/
structure State (ι : Type) where
  memory : Memory
  thread : ι → Thread

/-- A step of one thread, labelled by its access to shared memory if it makes one. -/
inductive Step : State ι → Option (ι × Access) → State ι → Prop
  | silent {s : State ι} {i : ι} {locals : Locals} {code : List MslStatement} {thread : Thread}
      {memory : Memory} :
      s.thread i = .running locals code →
      (stepThread locals code).run ⟨s.memory, []⟩ = some (thread, ⟨memory, []⟩) →
      Step s none ⟨memory, Function.update s.thread i thread⟩
  | access {s : State ι} {i : ι} {locals : Locals} {code : List MslStatement} {thread : Thread}
      {memory : Memory} {access : Access} :
      s.thread i = .running locals code →
      (stepThread locals code).run ⟨s.memory, []⟩ = some (thread, ⟨memory, [access]⟩) →
      Step s (some (i, access)) ⟨memory, Function.update s.thread i thread⟩

/-- The step of one thread, if it can take one and the step makes at most one access. -/
def State.stepOf (s : State ι) (i : ι) : Option (Option (ι × Access) × State ι) :=
  match s.thread i with
  | .finished _ => none
  | .running locals code =>
    match (stepThread locals code).run ⟨s.memory, []⟩ with
    | some (thread, ⟨memory, []⟩) => some (none, ⟨memory, Function.update s.thread i thread⟩)
    | some (thread, ⟨memory, [access]⟩) =>
      some (some (i, access), ⟨memory, Function.update s.thread i thread⟩)
    | _ => none

theorem State.step_of_stepOf {s s' : State ι} {i : ι} {label : Option (ι × Access)}
    (result : s.stepOf i = some (label, s')) : Step s label s' := by
  unfold State.stepOf at result
  split at result
  · nomatch result
  next locals code running =>
    split at result
    next thread memory step =>
      obtain ⟨rfl, rfl⟩ := Prod.mk.inj (some.inj result)
      exact .silent running step
    next thread memory access step =>
      obtain ⟨rfl, rfl⟩ := Prod.mk.inj (some.inj result)
      exact .access running step
    · nomatch result

/-- The run that a schedule, a list of the threads to step, gives. -/
def State.runSchedule (s : State ι) : List ι → Option (List (ι × Access) × State ι)
  | [] => some ([], s)
  | i :: rest => do
    let (label, next) ← s.stepOf i
    let (trace, last) ← next.runSchedule rest
    pure (label.toList ++ trace, last)

theorem State.run_of_runSchedule {schedule : List ι} {s s' : State ι}
    {trace : List (ι × Access)} (result : s.runSchedule schedule = some (trace, s')) :
    Lts.Run Step s trace s' := by
  induction schedule generalizing s trace with
  | nil =>
    obtain ⟨rfl, rfl⟩ := Prod.mk.inj (some.inj result)
    exact .refl _
  | cons i rest ih =>
    simp only [runSchedule, bind_eq_bind, bind_eq_some_iff, Prod.exists] at result
    obtain ⟨label, next, step, later, last, run, equal⟩ := result
    obtain ⟨rfl, rfl⟩ := Prod.mk.inj (some.inj equal)
    exact (Lts.Run.one (State.step_of_stepOf step)).trans (ih run)

end CuMetal.Metal
