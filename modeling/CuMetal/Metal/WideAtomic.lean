import CuMetal.Lib.LockedUpdate
import CuMetal.Metal.MslSemantics

/-!
# Lock-backed 64-bit atomics

`make_wide_atomic_u64_helper` (`lower_to_msl.cpp:275-413`): the helper that updates a 64-bit
payload under a lock of the lock bank that the payload's address selects.
-/

namespace CuMetal.Metal

/-- `wide_atomic_helper_name` (`lower_to_msl.cpp:275-281`). -/
def wideAtomicHelperName (operation : String) (isSigned : Bool) (addressSpace : MslAddressSpace) :
    String :=
  "cm_wide_atomic_" ++ operation ++ (if isSigned then "_signed_" else "_") ++
    (if addressSpace = .threadgroup then "threadgroup" else "device") ++ "_u64"

namespace WideAtomic

/-- `ulong`. -/
def u64 : MslType := .uint 64
/-- `long`. -/
def s64 : MslType := .sint 64
/-- `atomic_uint`. -/
def atomicUint : MslType := .struct "atomic_uint"
/-- `memory_order`. -/
def memoryOrder : MslType := .struct "memory_order"
/-- `thread_scope`. -/
def threadScope : MslType := .struct "thread_scope"
/-- The type of `payload`. -/
def payloadPointer (addressSpace : MslAddressSpace) : MslType := .pointer u64 addressSpace
/-- The type of `lock_bank`. -/
def lockBankPointer : MslType := .pointer atomicUint .device

/-- The parameter `payload`. -/
def payload (addressSpace : MslAddressSpace) : MslExpression :=
  .identifier "payload" (payloadPointer addressSpace)

/-- The parameter `operand`. -/
def operand : MslExpression := .identifier "operand" u64
/-- The parameter `compare`. -/
def compare : MslExpression := .identifier "compare" u64
/-- The parameter `lock_bank`. -/
def lockBank : MslExpression := .identifier "lock_bank" lockBankPointer
/-- `memory_order_relaxed`. -/
def relaxed : MslExpression := .identifier "memory_order_relaxed" memoryOrder

/-- The address of the payload as a number. -/
def address (addressSpace : MslAddressSpace) : MslExpression :=
  .cast u64 (payload addressSpace) true false

/-- The index of its 64-bit word. -/
def word (addressSpace : MslAddressSpace) : MslExpression :=
  .binary ">>" (address addressSpace) (.literal "3u" (.uint 32)) u64

/-- The low half of the index. -/
def word32 (addressSpace : MslAddressSpace) : MslExpression :=
  .convertTo (.uint 32) (word addressSpace)

/-- The index, multiplied to spread it. -/
def mixed (addressSpace : MslAddressSpace) : MslExpression :=
  .binary "*" (word32 addressSpace) (.literal "2654435769u" (.uint 32)) (.uint 32)

/-- The lock for the payload: one of 1024. -/
def slot (addressSpace : MslAddressSpace) : MslExpression :=
  .binary ">>" (mixed addressSpace) (.literal "22u" (.uint 32)) (.uint 32)

/-- The lock, and -/
def lockValue (addressSpace : MslAddressSpace) : MslExpression :=
  .subscript lockBank (slot addressSpace) atomicUint

/-- its address. -/
def lock (addressSpace : MslAddressSpace) : MslExpression :=
  .unary "&" (lockValue addressSpace) (.pointer atomicUint .device)

/-- What the lock held. -/
def got : MslExpression := .identifier "got" (.uint 32)
/-- The payload before the update. -/
def old : MslExpression := .identifier "old" u64
/-- The value that is returned. -/
def result : MslExpression := .identifier "result" u64
/-- Whether the update is made. -/
def done : MslExpression := .identifier "done" .boolean

/-- The fence on both sides of the update. -/
def fence : MslStatement :=
  .expression (.call "atomic_thread_fence"
    [.literal "mem_flags::mem_device" (.uint 32),
      .identifier "memory_order_seq_cst" memoryOrder,
      .identifier "thread_scope_device" threadScope] .void)

/-- `operators` (`lower_to_msl.cpp:361-363`). -/
def operators : String → Option String
  | "add" => some "+"
  | "and" => some "&"
  | "or" => some "|"
  | "xor" => some "^"
  | _ => none

/-- `updated` (`lower_to_msl.cpp:339-369`). -/
def updated (operation : String) (isSigned : Bool) : MslExpression :=
  if operation = "exch" ∨ operation = "xchg" then operand
  else if operation = "cas" then
    .conditional (.binary "==" old compare .boolean) operand old u64
  else if operation = "min" ∨ operation = "max" then
    let comparedOld := if isSigned then .cast s64 old false true else old
    let comparedOperand := if isSigned then .cast s64 operand false true else operand
    let predicate := if operation = "min" then "<" else ">"
    .conditional (.binary predicate comparedOld comparedOperand .boolean) old operand u64
  else
    match operators operation with
    | none => old
    | some operator => .binary operator old operand u64

/-- `critical` (`lower_to_msl.cpp:371-384`). -/
def critical (operation : String) (isSigned : Bool) (addressSpace : MslAddressSpace) :
    List MslStatement :=
  [fence,
    .variable u64 "old" (some (.unary "*" (payload addressSpace) u64)) true,
    .assignment (.unary "*" (payload addressSpace) u64) (updated operation isSigned),
    fence,
    .expression (.call "atomic_exchange_explicit"
      [lock addressSpace, .literal "0u" (.uint 32), relaxed] (.uint 32)),
    .assignment result old,
    .assignment done (.literal "true" .boolean)]

/-- `retry` (`lower_to_msl.cpp:386-396`). -/
def retry (operation : String) (isSigned : Bool) (addressSpace : MslAddressSpace) :
    List MslStatement :=
  [.variable (.uint 32) "got"
      (some (.call "atomic_exchange_explicit"
        [lock addressSpace, .literal "1u" (.uint 32), relaxed] (.uint 32))) true,
    .ifStatement (.binary "==" got (.literal "0u" (.uint 32)) .boolean)
      (critical operation isSigned addressSpace) []]

/-- The loop that takes the lock (`lower_to_msl.cpp:410-411`). -/
def acquireLoop (operation : String) (isSigned : Bool) (addressSpace : MslAddressSpace) : MslStatement :=
  .whileStatement (.unary "!" done .boolean) (retry operation isSigned addressSpace)

end WideAtomic

open WideAtomic in
/-- `make_wide_atomic_u64_helper` (`lower_to_msl.cpp:283-413`). -/
def makeWideAtomicU64Helper (operation : String) (isSigned : Bool)
    (addressSpace : MslAddressSpace) : MslFunction where
  name := wideAtomicHelperName operation isSigned addressSpace
  returnType := u64
  parameters :=
    [⟨payloadPointer addressSpace, "payload"⟩, ⟨u64, "operand"⟩, ⟨u64, "compare"⟩,
      ⟨lockBankPointer, "lock_bank"⟩]
  statements :=
    [.variable u64 "result" (some (.literal "0ul" u64)) false,
      .variable .boolean "done" (some (.literal "false" .boolean)) false,
      acquireLoop operation isSigned addressSpace,
      .returnStatement (some result)]

/-- The operations that the lowerer backs by a lock (`lower_to_msl.cpp:3902-3905`). -/
inductive WideAtomicOperation
  | add | and | or | xor | min | max | exch | xchg | cas
  deriving DecidableEq, Repr

/-- The name of an operation in the attributes. -/
def WideAtomicOperation.name : WideAtomicOperation → String
  | .add => "add"
  | .and => "and"
  | .or => "or"
  | .xor => "xor"
  | .min => "min"
  | .max => "max"
  | .exch => "exch"
  | .xchg => "xchg"
  | .cas => "cas"

/-- A word as the number that a minimum or maximum compares. -/
def numberOf (isSigned : Bool) (word : BitVec 64) : Int :=
  if isSigned then word.toInt else word.toNat

/-- The value that an atomic operation leaves in its payload. -/
def WideAtomicOperation.update (isSigned : Bool) (operand compare old : BitVec 64) :
    WideAtomicOperation → BitVec 64
  | .add => old + operand
  | .and => old &&& operand
  | .or => old ||| operand
  | .xor => old ^^^ operand
  | .min => BitVec.ofInt 64 (Min.min (numberOf isSigned old) (numberOf isSigned operand))
  | .max => BitVec.ofInt 64 (Max.max (numberOf isSigned old) (numberOf isSigned operand))
  | .exch | .xchg => operand
  | .cas => if old = compare then operand else old

/-- A call of a helper. The lock bank is one device buffer for every call. -/
structure Invocation where
  operation : WideAtomicOperation
  isSigned : Bool
  addressSpace : MslAddressSpace
  payload : Location
  operand : BitVec 64
  compare : BitVec 64

namespace Invocation

variable (invocation : Invocation) (lockBank : Location)

/-- The value that the call leaves in its payload. -/
def update (old : BitVec 64) : BitVec 64 :=
  invocation.operation.update invocation.isSigned invocation.operand invocation.compare old

/-- The helper that is called. -/
def helper : MslFunction :=
  makeWideAtomicU64Helper invocation.operation.name invocation.isSigned invocation.addressSpace

/-- The call, before its first statement. -/
def start : Thread :=
  invocation.helper.start
    [.pointer invocation.payload, .ulong invocation.operand, .ulong invocation.compare,
      .pointer lockBank]

end Invocation

end CuMetal.Metal
