import CuMetal.Metal.WideAtomic

/-!
# The steps of a lock-backed atomic

What every expression of the helper evaluates to, and what every statement of it does to shared
memory, for a thread that stands before that statement.
-/

namespace CuMetal.Metal

open WideAtomicOperation

open LockedUpdate (Phase)
open WideAtomic

/-- The slot of the lock bank that a payload address selects. -/
def lockSlot (address : BitVec 64) : BitVec 32 :=
  ((address >>> 3).setWidth 32 * 2654435769#32) >>> 22

def lockOf (lockBank payload : Location) : Location :=
  { lockBank with address := lockBank.address + (lockSlot payload.address).setWidth 64 * 4#64 }

/-- `kAtomicLockBankSlots` (`lower_to_llvm.h:105`). -/
def atomicLockBankSlots : Nat := 4096

def InBank (lockBank location : Location) : Prop :=
  location.threadgroup = lockBank.threadgroup ∧
    (location.address - lockBank.address).toNat < 4 * atomicLockBankSlots

instance (lockBank location : Location) : Decidable (InBank lockBank location) :=
  inferInstanceAs (Decidable (_ ∧ _))

theorem lockSlot_lt (address : BitVec 64) : (lockSlot address).toNat < 1024 := by
  simp only [lockSlot, BitVec.toNat_ushiftRight, Nat.shiftRight_eq_div_pow]
  have bound := ((address >>> 3).setWidth 32 * 2654435769#32).isLt
  omega

theorem lockOf_inBank (lockBank payload : Location) : InBank lockBank (lockOf lockBank payload) := by
  have bound := lockSlot_lt payload.address
  have offset : (lockOf lockBank payload).address - lockBank.address =
      (lockSlot payload.address).setWidth 64 * 4#64 := by
    rw [lockOf, BitVec.add_comm, BitVec.add_sub_cancel]
  have memory : ∀ (threadgroup : Option Nat) (address : BitVec 64),
      (lockOf ⟨threadgroup, address⟩ payload).threadgroup = threadgroup := fun _ _ => rfl
  constructor
  · exact memory lockBank.threadgroup lockBank.address
  · rw [offset, BitVec.toNat_mul, BitVec.toNat_setWidth, BitVec.toNat_ofNat, atomicLockBankSlots]
    omega

/-- A thread's variables hold the arguments of its call. -/
structure Invocation.Bound (invocation : Invocation) (lockBank : Location) (locals : Locals) :
    Prop where
  payload : locals "payload" = some (.pointer invocation.payload)
  operand : locals "operand" = some (.ulong invocation.operand)
  compare : locals "compare" = some (.ulong invocation.compare)
  lockBank : locals "lock_bank" = some (.pointer lockBank)

/-- The names of the parameters, which no statement of the helper assigns. -/
def parameterNames : List String := ["payload", "operand", "compare", "lock_bank"]

variable {invocation : Invocation} {lockBank : Location} {locals : Locals}

theorem Invocation.Bound.set (bound : invocation.Bound lockBank locals) {name : String}
    (value : Value) (other : name ∉ parameterNames) :
    invocation.Bound lockBank (locals.set name value) := by
  simp only [parameterNames, List.mem_cons, List.not_mem_nil, or_false, not_or] at other
  obtain ⟨payload, operand, compare, bank⟩ := other
  constructor
  · rw [Locals.set_of_ne _ _ (Ne.symm payload), bound.payload]
  · rw [Locals.set_of_ne _ _ (Ne.symm operand), bound.operand]
  · rw [Locals.set_of_ne _ _ (Ne.symm compare), bound.compare]
  · rw [Locals.set_of_ne _ _ (Ne.symm bank), bound.lockBank]

theorem stepThread_fence (locals : Locals) (rest : List MslStatement) (machine : Machine) :
    (stepThread locals (fence :: rest)).run machine = some (.running locals rest, machine) := by
  have flags : literalValue "mem_flags::mem_device" = some (.symbol "mem_flags::mem_device") := by
    decide
  simp [fence, stepThread, evaluate, evaluateAll, namedValue, enumerators, flags, callBuiltin]

theorem evaluate_payload (bound : invocation.Bound lockBank locals)
    (space : MslAddressSpace) (machine : Machine) :
    (evaluate locals (payload space)).run machine = some (.pointer invocation.payload, machine) := by
  simp [payload, evaluate, namedValue, enumerators, bound.payload]

theorem evaluate_slot (bound : invocation.Bound lockBank locals) (space : MslAddressSpace)
    (machine : Machine) :
    (evaluate locals (slot space)).run machine =
      some (.uint (lockSlot invocation.payload.address), machine) := by
  have three : literalValue "3u" = some (.uint 3#32) := by decide
  have factor : literalValue "2654435769u" = some (.uint 2654435769#32) := by decide
  have places : literalValue "22u" = some (.uint 22#32) := by decide
  have word : binaryValue ">>" (.ulong invocation.payload.address) (.uint 3#32) =
      some (.ulong (invocation.payload.address >>> 3)) :=
    binaryValue_shift (by simp) (by simp) rfl
  have mixed : ∀ x : BitVec 32, binaryValue "*" (.uint x) (.uint 2654435769#32) =
      some (.uint (x * 2654435769#32)) := fun x => binaryValue_arithmetic (by decide) rfl
  have top : ∀ x : BitVec 32, binaryValue ">>" (.uint x) (.uint 22#32) = some (.uint (x >>> 22)) :=
    fun x => binaryValue_shift (by simp) (by simp) rfl
  have narrow : ∀ x : BitVec 64, convert (.uint 32) (.ulong x) = some (.uint (x.setWidth 32)) :=
    fun x => rfl
  simp [slot, WideAtomic.mixed, word32, WideAtomic.word, address, evaluate,
    evaluate_payload bound, three, factor, places, reinterpretCast, u64, word, mixed, top, narrow,
    lockSlot]

theorem evaluate_lock (bound : invocation.Bound lockBank locals) (space : MslAddressSpace)
    (machine : Machine) :
    (evaluate locals (lock space)).run machine =
      some (.pointer (lockOf lockBank invocation.payload), machine) := by
  simp [lock, lockValue, WideAtomic.lockBank, evaluate, namedValue, enumerators, bound.lockBank,
    evaluate_slot bound, elementAt, atomicUint, sizeOfType, lockOf, IntegerValue.converted]

theorem ofInt_numberOf (isSigned : Bool) (word : BitVec 64) :
    BitVec.ofInt 64 (numberOf isSigned word) = word := by
  cases isSigned <;> simp [numberOf]

theorem comparison_lt (isSigned : Bool) (x y : BitVec 64) :
    comparison "<" isSigned x y = some (decide (numberOf isSigned x < numberOf isSigned y)) := by
  cases isSigned <;> simp [comparison, numberOf, BitVec.slt, BitVec.ult]

theorem comparison_gt (isSigned : Bool) (x y : BitVec 64) :
    comparison ">" isSigned x y = some (decide (numberOf isSigned y < numberOf isSigned x)) := by
  cases isSigned <;> simp [comparison, numberOf, BitVec.slt, BitVec.ult]

/-- The operand of a comparison, reinterpreted where the atomic is signed. -/
theorem evaluate_compared {expression : MslExpression} {word : BitVec 64} {machine : Machine}
    (value : (evaluate locals expression).run machine = some (.ulong word, machine))
    (isSigned : Bool) :
    (evaluate locals (if isSigned then .cast s64 expression false true else expression)).run
      machine = some (.integer ⟨isSigned, 64, word⟩, machine) := by
  cases isSigned
  · exact value
  · simp [evaluate, value, asType, s64, IntegerValue.converted]

theorem evaluate_updated (bound : invocation.Bound lockBank locals) {word : BitVec 64}
    (read : locals "old" = some (.ulong word)) (machine : Machine) :
    (evaluate locals (updated invocation.operation.name invocation.isSigned)).run machine =
      some (.ulong (invocation.update word), machine) := by
  have operand_value : (evaluate locals operand).run machine =
      some (.ulong invocation.operand, machine) :=
    evaluate_identifier bound.operand (by decide) machine
  have old_value : (evaluate locals old).run machine = some (.ulong word, machine) :=
    evaluate_identifier read (by decide) machine
  have compare_value : (evaluate locals compare).run machine =
      some (.ulong invocation.compare, machine) :=
    evaluate_identifier bound.compare (by decide) machine
  have arithmetic_value : ∀ {operator : String} {bits : BitVec 64},
      arithmetic operator false word invocation.operand = some bits →
      (evaluate locals (.binary operator old operand u64)).run machine =
        some (.ulong bits, machine) := fun defined =>
    evaluate_binary u64 old_value operand_value (binaryValue_arithmetic (by decide) defined)
  have selected : ∀ {predicate : String} {holds : Bool},
      comparison predicate invocation.isSigned word invocation.operand = some holds →
      (evaluate locals (.conditional
        (.binary predicate
          (if invocation.isSigned then .cast s64 old false true else old)
          (if invocation.isSigned then .cast s64 operand false true else operand) .boolean)
        old operand u64)).run machine =
        some (.ulong (if holds then word else invocation.operand), machine) := by
    intro predicate holds defined
    have test := evaluate_binary .boolean (evaluate_compared old_value invocation.isSigned)
      (evaluate_compared operand_value invocation.isSigned)
      (binaryValue_comparison (by decide) defined)
    rw [evaluate_conditional test]
    cases holds
    · exact operand_value
    · exact old_value
  cases operation : invocation.operation with
  | exch | xchg =>
    simpa [updated, name, Invocation.update, operation,
      update] using operand_value
  | add | and | or | xor =>
    simpa [updated, name, operators, Invocation.update, operation,
      update] using arithmetic_value rfl
  | cas =>
    have test := evaluate_binary .boolean old_value compare_value
      (binaryValue_comparison (by decide) (show comparison "==" false _ _ = _ from rfl))
    simp only [updated, name, String.reduceEq, or_self, if_false, if_true,
      evaluate_conditional test, Invocation.update, operation, update]
    by_cases same : word = invocation.compare
    · simpa [same] using operand_value
    · simpa [same] using old_value
  | min =>
    have value := selected (comparison_lt invocation.isSigned word invocation.operand)
    have least : (if decide (numberOf invocation.isSigned word <
          numberOf invocation.isSigned invocation.operand) then word else invocation.operand) =
        invocation.update word := by
      simp only [Invocation.update, operation, update, decide_eq_true_eq]
      split
      · rw [min_eq_left (by omega), ofInt_numberOf]
      · rw [min_eq_right (by omega), ofInt_numberOf]
    rw [← least]
    simpa [updated, name] using value
  | max =>
    have value := selected (comparison_gt invocation.isSigned word invocation.operand)
    have greatest : (if decide (numberOf invocation.isSigned invocation.operand <
          numberOf invocation.isSigned word) then word else invocation.operand) =
        invocation.update word := by
      simp only [Invocation.update, operation, update, decide_eq_true_eq]
      split
      · rw [max_eq_left (by omega), ofInt_numberOf]
      · rw [max_eq_right (by omega), ofInt_numberOf]
    rw [← greatest]
    simpa [updated, name] using value

end CuMetal.Metal
