import CuMetal.Lib.SingleEffect
import CuMetal.Metal.MslSemantics

/-!
# Atomics built on a weak compare-and-swap

`make_atomic_cas_u32_helper` and `make_threadgroup_float_add_helper`
(`lower_to_msl.cpp:41-135`), and what their statements mean when threads run them together. A weak
compare-and-swap may fail although the counter holds what is expected; floats are their bit
patterns.
-/

namespace CuMetal.Metal

namespace WeakCas

/-- `atomic_uint`. -/
def atomicUint : MslType := .struct "atomic_uint"
/-- `memory_order`. -/
def memoryOrder : MslType := .struct "memory_order"
/-- The type of `pointer`. -/
def atomicPointer (addressSpace : MslAddressSpace) : MslType := .pointer atomicUint addressSpace

/-- The parameter `pointer`. -/
def pointer (addressSpace : MslAddressSpace) : MslExpression :=
  .identifier "pointer" (atomicPointer addressSpace)

/-- The parameter `compare`. -/
def compare : MslExpression := .identifier "compare" (.uint 32)
/-- The variable `expected`. -/
def expected : MslExpression := .identifier "expected" (.uint 32)
/-- The parameter `value`. -/
def value : MslExpression := .identifier "value" .float
/-- `memory_order_relaxed`. -/
def relaxed : MslExpression := .identifier "memory_order_relaxed" memoryOrder

/-- `exchanged` (`58-61`, `115-118`). -/
def exchanged (addressSpace : MslAddressSpace) (desired : MslExpression) : MslExpression :=
  .call "atomic_compare_exchange_weak_explicit"
    [pointer addressSpace, .unary "&" expected (.pointer (.uint 32) .thread), desired, relaxed,
      relaxed]
    .boolean

/-- `retry` (`62-65`). -/
def retry (addressSpace : MslAddressSpace) : MslExpression :=
  .binary "&&"
    (.unary "!" (exchanged addressSpace (.identifier "desired" (.uint 32))) .boolean)
    (.binary "==" expected compare .boolean) .boolean

/-- `desired` (`112-114`). -/
def sum : MslExpression :=
  .cast (.uint 32) (.binary "+" (.cast .float expected false true) value .float) false true

end WeakCas

open WeakCas in
/-- `make_atomic_cas_u32_helper` (`41-81`). -/
def makeAtomicCasU32Helper (addressSpace : MslAddressSpace) : MslFunction where
  name := "cm_atomic_cas_" ++ (if addressSpace = .threadgroup then "threadgroup" else "device") ++
    "_u32"
  returnType := .uint 32
  parameters :=
    [⟨atomicPointer addressSpace, "pointer"⟩, ⟨.uint 32, "compare"⟩, ⟨.uint 32, "desired"⟩]
  statements :=
    [.variable (.uint 32) "expected" (some compare) false,
      .whileStatement (retry addressSpace) [],
      .returnStatement (some expected)]

open WeakCas in
/-- `make_threadgroup_float_add_helper` (`93-135`). -/
def makeThreadgroupFloatAddHelper : MslFunction where
  name := "cm_atomic_fadd_threadgroup"
  returnType := .float
  parameters := [⟨atomicPointer .threadgroup, "pointer"⟩, ⟨.float, "value"⟩]
  statements :=
    [.variable (.uint 32) "expected"
        (some (.call "atomic_load_explicit" [pointer .threadgroup, relaxed] (.uint 32))) false,
      .whileStatement (.unary "!" (exchanged .threadgroup sum) .boolean) [],
      .returnStatement (some (.cast .float expected false true))]

namespace WeakCas

/-- The values of the expressions. -/
inductive Value
  | bool (value : Bool)
  | uint (bits : BitVec 32)
  | float (bits : BitVec 32)
  | pointer (location : Location)
  | symbol (name : String)
  deriving DecidableEq

/-- One access to an atomic counter. -/
inductive Access
  | load (location : Location) (seen : BitVec 32)
  | swapped (location : Location) (old new : BitVec 32)
  | failed (location : Location) (seen : BitVec 32)
  deriving DecidableEq

/-- The variables of a thread. -/
abbrev Locals := String → Option Value

/-- The variables of a thread, the atomic counters, and the accesses of a step. -/
structure Machine where
  locals : Locals
  atomics : Location → BitVec 32
  accesses : List Access

/-- An evaluation; what MSL leaves undefined has no result. -/
abbrev Eval := StateT Machine Option

/-- The value of a variable or an enumerator. -/
def readVariable (name : String) : Eval Value := do
  let machine ← get
  liftM (if enumerators.contains name then some (.symbol name) else machine.locals name)

/-- `atomic_load_explicit`. -/
def loadAtomic (location : Location) : Eval Value := do
  let machine ← get
  let seen := machine.atomics location
  set { machine with accesses := machine.accesses ++ [.load location seen] : Machine }
  pure (.uint seen)

/-- `atomic_compare_exchange_weak_explicit`, with the variable that `expected` points to: it fails
when the counter differs from the variable, or spuriously, and then stores what it has seen. -/
def compareExchangeWeak (spurious : Bool) (location : Location) (variable_ : String)
    (desired : BitVec 32) : Eval Value := do
  let machine ← get
  match machine.locals variable_ with
  | some (.uint expected) =>
    let seen := machine.atomics location
    if seen = expected ∧ spurious = false then
      set { machine with
        atomics := Function.update machine.atomics location desired
        accesses := machine.accesses ++ [.swapped location seen desired] : Machine }
      pure (.bool true)
    else
      set { machine with
        locals := Function.update machine.locals variable_ (some (.uint seen))
        accesses := machine.accesses ++ [.failed location seen] : Machine }
      pure (.bool false)
  | _ => failure

/-- `as_type`. -/
def asType : MslType → Value → Option Value
  | .float, .uint bits => some (.float bits)
  | .uint 32, .float bits => some (.uint bits)
  | _, _ => none

/-- The value of an expression. The sum of two floats is a function of their bits, and `spurious`
is how a compare-and-swap fails. -/
def evaluate (add : BitVec 32 → BitVec 32 → BitVec 32) (spurious : Bool) :
    MslExpression → Eval Value
  | .identifier name _ => readVariable name
  | .unary "!" operand _ => do
    match ← evaluate add spurious operand with
    | .bool value => pure (.bool !value)
    | _ => failure
  | .binary "&&" left right _ => do
    match ← evaluate add spurious left with
    | .bool false => pure (.bool false)
    | .bool true => do
      match ← evaluate add spurious right with
      | .bool value => pure (.bool value)
      | _ => failure
    | _ => failure
  | .binary "==" left right _ => do
    let x ← evaluate add spurious left
    let y ← evaluate add spurious right
    match x, y with
    | .uint x, .uint y => pure (.bool (x == y))
    | _, _ => failure
  | .binary "+" left right _ => do
    let x ← evaluate add spurious left
    let y ← evaluate add spurious right
    match x, y with
    | .float x, .float y => pure (.float (add x y))
    | _, _ => failure
  | .cast target operand false true => do
    let value ← evaluate add spurious operand
    liftM (asType target value)
  | .call "atomic_load_explicit" [pointer, order] _ => do
    let target ← evaluate add spurious pointer
    let _ ← evaluate add spurious order
    match target with
    | .pointer location => loadAtomic location
    | _ => failure
  | .call "atomic_compare_exchange_weak_explicit"
      [pointer, .unary "&" (.identifier name _) _, desired, success, miss] _ => do
      let target ← evaluate add spurious pointer
      let new ← evaluate add spurious desired
      let _ ← evaluate add spurious success
      let _ ← evaluate add spurious miss
      match target, new with
      | .pointer location, .uint bits => compareExchangeWeak spurious location name bits
      | _, _ => failure
  | _ => failure

/-- A thread: it has not made its call, it has statements to run, or the call has returned. -/
inductive Thread
  | idle
  | running (locals : Locals) (code : List MslStatement)
  | finished (result : Value)

/-- A value can be stored in a variable of the type. -/
def hasType : MslType → Value → Bool
  | .uint 32, .uint _ | .float, .float _ => true
  | _, _ => false

/-- The next step of a running thread: a declaration, a test of a loop or a return. -/
def stepThread (add : BitVec 32 → BitVec 32 → BitVec 32) (spurious : Bool) :
    List MslStatement → Eval Thread
  | .variable type name (some initializer) _ :: rest => do
    let value ← evaluate add spurious initializer
    let machine ← get
    if hasType type value then
      pure (.running (Function.update machine.locals name (some value)) rest)
    else failure
  | .whileStatement condition statements :: rest => do
    let test ← evaluate add spurious condition
    let machine ← get
    match test with
    | .bool true =>
      pure (.running machine.locals
        (statements ++ .whileStatement condition statements :: rest))
    | .bool false => pure (.running machine.locals rest)
    | _ => failure
  | .returnStatement (some expression) :: _ => do
    let value ← evaluate add spurious expression
    pure (.finished value)
  | _ => failure

attribute [grind =] evaluate stepThread

/-- A call of a helper. -/
inductive Call
  | cas (addressSpace : MslAddressSpace) (location : Location) (compare desired : BitVec 32)
  | floatAdd (location : Location) (value : BitVec 32)

namespace Call

/-- The counter that the call works on. -/
def location : Call → Location
  | .cas _ location _ _ => location
  | .floatAdd location _ => location

/-- The helper that is called. -/
def helper : Call → MslFunction
  | .cas addressSpace .. => makeAtomicCasU32Helper addressSpace
  | .floatAdd .. => makeThreadgroupFloatAddHelper

/-- The values of the parameters. -/
def arguments : Call → List Value
  | .cas _ location compare desired => [.pointer location, .uint compare, .uint desired]
  | .floatAdd location value => [.pointer location, .float value]

/-- The helper with the names of its arguments bound. -/
def start (call : Call) : Thread :=
  .running
    ((call.helper.parameters.zip call.arguments).foldl
      (fun locals argument => Function.update locals argument.1.name (some argument.2))
      (fun _ => none))
    call.helper.statements

/-- What the call leaves in the counter. -/
def update (add : BitVec 32 → BitVec 32 → BitVec 32) (call : Call) (old : BitVec 32) :
    BitVec 32 :=
  match call with
  | .cas _ _ compare desired => if old = compare then desired else old
  | .floatAdd _ value => add old value

/-- What the call returns. -/
def result (call : Call) (old : BitVec 32) : Value :=
  match call with
  | .cas .. => .uint old
  | .floatAdd .. => .float old

end Call

variable {ι : Type} [DecidableEq ι]

/-- The atomic counters and the threads. -/
structure State (ι : Type) where
  atomics : Location → BitVec 32
  thread : ι → Thread

/-- A thread begins its call, or takes its next step; a label is an access of a thread. -/
inductive Step (add : BitVec 32 → BitVec 32 → BitVec 32) (calls : ι → Call) :
    State ι → Option (ι × Access) → State ι → Prop
  | begin_ {s : State ι} {i : ι} (idle : s.thread i = .idle) :
      Step add calls s none { s with thread := Function.update s.thread i (calls i).start }
  | silent {s : State ι} {i : ι} {locals : Locals} {code : List MslStatement} (spurious : Bool)
      {thread : Thread} {machine : Machine} (running : s.thread i = .running locals code)
      (step : (stepThread add spurious code).run ⟨locals, s.atomics, []⟩ = some (thread, machine))
      (quiet : machine.accesses = []) :
      Step add calls s none ⟨machine.atomics, Function.update s.thread i thread⟩
  | access {s : State ι} {i : ι} {locals : Locals} {code : List MslStatement} (spurious : Bool)
      {thread : Thread} {machine : Machine} {access : Access}
      (running : s.thread i = .running locals code)
      (step : (stepThread add spurious code).run ⟨locals, s.atomics, []⟩ = some (thread, machine))
      (single : machine.accesses = [access]) :
      Step add calls s (some (i, access)) ⟨machine.atomics, Function.update s.thread i thread⟩

/-- No call has been made. -/
def startState (atomics : Location → BitVec 32) : State ι where
  atomics := atomics
  thread := fun _ => .idle

end WeakCas

end CuMetal.Metal
