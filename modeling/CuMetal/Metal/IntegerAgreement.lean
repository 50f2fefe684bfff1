import CuMetal.Ir.NvvmIntegers
import CuMetal.Metal.LowerIntegers
import CuMetal.Metal.MslIntegers
import CuMetal.Metal.MslSemantics
import Mathlib.Data.List.TakeWhile

/-!
# LLVM integers in MSL

The MSL that the lowerer makes of a sequence of LLVM integer instructions computes what LLVM
computes, as long as the operands of each instruction keep their meaning in MSL.
-/

namespace CuMetal.Metal

open BitVec Option

open Ir (IntegerType IntegerOperand BinaryOpcode IntegerPredicate IntegerInstruction NvvmValue
  NvvmValues ValueId constantSpelling runNvvm importInstruction)
open IntegerValue

/-- The integer that a decimal literal denotes, with its sign. -/
def literalInteger (n : Int) : IntegerValue :=
  if -2 ^ 31 < n ∧ n < 2 ^ 31 then ⟨true, 32, BitVec.ofInt 32 n⟩
  else if -2 ^ 63 < n ∧ n < 2 ^ 63 then ⟨true, 64, BitVec.ofInt 64 n⟩
  else ⟨false, 64, BitVec.ofInt 64 n⟩

theorem numberValue_toDigits (m : Nat) : numberValue (Nat.toDigits 10 m) = integerLiteral m [] := by
  have digits : ∀ c ∈ Nat.toDigits 10 m, c.isDigit = true := fun c mem =>
    Nat.isDigit_of_mem_toDigits (by decide) (by decide) mem
  rw [numberValue, List.takeWhile_eq_self_iff.mpr digits, List.dropWhile_eq_nil_iff.mpr digits,
    Nat.ofDigitChars_toDigits (by decide) (by decide)]

theorem ne_keyword {spelling : String} {first : Char} {rest : List Char}
    (letters : spelling.toList = first :: rest) (plain : first ≠ 't' ∧ first ≠ 'f') :
    spelling ≠ "true" ∧ spelling ≠ "false" := by
  constructor
  · rintro rfl
    cases letters
    exact plain.1 rfl
  · rintro rfl
    cases letters
    exact plain.2 rfl

theorem literalValue_nat (m : Nat) : literalValue (toString m) = integerLiteral m [] := by
  have letters : (toString m).toList = Nat.toDigits 10 m := Nat.toList_repr
  cases split : Nat.toDigits 10 m with
  | nil => exact absurd split Nat.toDigits_ne_nil
  | cons first rest =>
    have digit : first.isDigit = true :=
      Nat.isDigit_of_mem_toDigits (n := m) (b := 10) (by decide) (by decide) (by simp [split])
    have plain : first ≠ 't' ∧ first ≠ 'f' ∧ first ≠ '-' := by
      refine ⟨?_, ?_, ?_⟩ <;> (rintro rfl; revert digit; decide)
    have keyword := ne_keyword (letters.trans split) ⟨plain.1, plain.2.1⟩
    unfold literalValue
    rw [if_neg keyword.1, if_neg keyword.2, letters, split]
    split
    · next same =>
        cases same
        exact absurd rfl plain.2.2
    · rw [if_neg (by simp [digit]), ← split, numberValue_toDigits]

theorem literalValue_neg (m : Nat) :
    literalValue ("-" ++ toString m) = (integerLiteral m []).bind (unaryValue "-") := by
  have letters : ("-" ++ toString m).toList = '-' :: Nat.toDigits 10 m := by simp
  have keyword := ne_keyword letters (by decide)
  unfold literalValue
  rw [if_neg keyword.1, if_neg keyword.2, letters]
  simp only [numberValue_toDigits]

theorem unaryValue_neg {c : Nat} (wide : 32 ≤ c) {signed : Bool} {bits : BitVec c}
    (fits : (signed && bits.negOverflow) = false) :
    unaryValue "-" (.integer ⟨signed, c, bits⟩) = some (.integer ⟨signed, c, -bits⟩) := by
  have negated : ∀ x : IntegerValue, x = ⟨signed, c, bits⟩ →
      (if (x.signed && x.bits.negOverflow) = true then none
        else some (Value.integer { x with bits := -x.bits })) =
      some (.integer ⟨signed, c, -bits⟩) := by
    rintro _ rfl
    simp [fits]
  exact negated _ (promoted_of_wide wide bits)

theorem negOverflow_ofNat {c m : Nat} (wide : 0 < c) (small : (m : Int) < 2 ^ (c - 1)) :
    (BitVec.ofNat c m).negOverflow = false := by
  have power : (0 : Int) < 2 ^ (c - 1) := by positivity
  have number : (BitVec.ofNat c m).toInt = m := by
    rw [← ofInt_natCast]
    exact toInt_ofInt_eq_self wide (by omega) small
  simp only [negOverflow, number, beq_eq_false_iff_ne]
  omega

theorem literalValue_int {n : Int} (low : -2 ^ 63 ≤ n) (high : n < 2 ^ 63) :
    literalValue (toString n) = some (.integer (literalInteger n)) := by
  cases n with
  | ofNat m =>
    change literalValue (toString m) = _
    rw [literalValue_nat]
    unfold integerLiteral literalInteger
    simp only [Int.ofNat_eq_natCast] at low high ⊢
    by_cases small : m < 2 ^ 31
    · rw [if_pos small, if_pos (by omega), ofInt_natCast]
    · rw [if_neg small, if_pos (by omega), if_neg (by omega), if_pos (by omega),
        ofInt_natCast]
  | negSucc m =>
    change literalValue ("-" ++ toString (m + 1)) = _
    rw [literalValue_neg]
    rw [Int.negSucc_eq] at low high ⊢
    unfold integerLiteral literalInteger
    have negated : ∀ c : Nat, BitVec.ofInt c (-(m + 1 : Int)) = -BitVec.ofNat c (m + 1) :=
      fun c => ofInt_neg.trans rfl
    simp only [negated]
    by_cases small : m + 1 < 2 ^ 31
    · have here : -2 ^ 31 < -(m + 1 : Int) ∧ -(m + 1 : Int) < 2 ^ 31 := by omega
      rw [if_pos small, if_pos here, bind_some, unaryValue_neg le_rfl]
      rw [negOverflow_ofNat (by decide) (by push_cast; omega), Bool.and_false]
    · have notHere : ¬ (-2 ^ 31 < -(m + 1 : Int) ∧ -(m + 1 : Int) < 2 ^ 31) := by omega
      by_cases medium : m + 1 < 2 ^ 63
      · have here : -2 ^ 63 < -(m + 1 : Int) ∧ -(m + 1 : Int) < 2 ^ 63 := by omega
        rw [if_neg small, if_pos medium, if_neg notHere, if_pos here, bind_some,
          unaryValue_neg (by decide)]
        rw [negOverflow_ofNat (by decide) (by push_cast; omega), Bool.and_false]
      · have notThere : ¬ (-2 ^ 63 < -(m + 1 : Int) ∧ -(m + 1 : Int) < 2 ^ 63) := by omega
        rw [if_neg small, if_neg medium, if_pos (by omega), if_neg notHere, if_neg notThere,
          bind_some, unaryValue_neg (by decide)]
        rfl

/-! ## Operands -/

/-- What an unsigned container, or a truth value for `i1`, holds. -/
def container (type : IntegerType) (bits : BitVec type.bits) : Value :=
  if type = .i1 then .bool (bits = 1) else .integer ⟨false, type.bits, bits⟩

def operandValue {type : IntegerType} (operand : IntegerOperand type) (bits : BitVec type.bits) :
    Value :=
  match operand with
  | .value _ => container type bits
  | .constant _ => if type = .i1 then .bool (bits = 1) else .integer (literalInteger bits.toInt)

/-- The promoted integer of an operand in MSL: an unsigned container, or a signed literal. -/
def operandInteger {type : IntegerType} (operand : IntegerOperand type) (bits : BitVec type.bits) :
    IntegerValue :=
  if type = .i1 then ⟨true, 32, if bits = 1 then 1 else 0⟩
  else
    match operand with
    | .value _ => IntegerValue.promoted ⟨false, type.bits, bits⟩
    | .constant _ => literalInteger bits.toInt

theorem IntegerType.bits_le (type : IntegerType) : 1 ≤ type.bits ∧ type.bits ≤ 64 := by
  cases type <;> decide

theorem toInt_range (type : IntegerType) (bits : BitVec type.bits) :
    -2 ^ 63 ≤ bits.toInt ∧ bits.toInt < 2 ^ 63 := by
  have power : (2 : Int) ^ (type.bits - 1) ≤ 2 ^ 63 :=
    pow_le_pow_right₀ (by decide) (by have := (IntegerType.bits_le type).2; omega)
  have low := bits.le_toInt
  have high := toInt_lt (x := bits)
  constructor <;> linarith

variable {type : IntegerType}

/-- A literal stands for its number, or for the same number modulo 2^64. -/
theorem literalInteger_reads (wide : type ≠ .i1) (bits : BitVec type.bits) :
    Reads (literalInteger bits.toInt) bits := by
  obtain ⟨low, high⟩ := toInt_range type bits
  have below : bits.toInt < 2 ^ type.bits :=
    lt_of_lt_of_le toInt_lt (pow_le_pow_right₀ (by decide) (by omega))
  unfold literalInteger
  split
  · next small =>
      have number := @toInt_ofInt 32 _ (by decide) small.1.le small.2
      exact ⟨le_rfl, by simp, by rw [number, BitVec.ofInt_toInt], by rw [number]; exact bits.le_toInt,
        by rw [number]; exact below⟩
  · split
    · next medium =>
        have number := @toInt_ofInt 64 _ (by decide) medium.1.le medium.2
        exact ⟨Nat.le_of_lt (by decide : 32 < 64), by simp, by rw [number, BitVec.ofInt_toInt],
          by rw [number]; exact bits.le_toInt, by rw [number]; exact below⟩
    · next large =>
        have last : bits.toInt = -2 ^ 63 := by omega
        have widest : type = .i64 := by
          have least := bits.le_toInt
          rw [last] at least
          cases type with
          | i64 => rfl
          | i1 | i8 | i16 | i32 => exact absurd least (by decide)
        subst widest
        have same : bits = BitVec.ofInt 64 (-2 ^ 63) := by
          rw [← last]
          exact BitVec.ofInt_toInt.symm
        have number : (⟨false, 64, BitVec.ofInt 64 (-2 ^ 63)⟩ : IntegerValue).toInt = 2 ^ 63 := by
          decide
        rw [last]
        refine ⟨le_of_lt (by decide : 32 < 64), fun _ => rfl, ?_, ?_, ?_⟩
        · rw [number, same]
          exact (by decide : BitVec.ofInt 64 (2 ^ 63) = BitVec.ofInt 64 (-2 ^ 63))
        · rw [number]
          decide
        · rw [number]
          decide

theorem container_reads (wide : type ≠ .i1) (bits : BitVec type.bits) :
    Reads (promoted ⟨false, type.bits, bits⟩) bits := by
  have number : (promoted ⟨false, type.bits, bits⟩).toInt = bits.toNat :=
    toInt_promoted _
  have power : (0 : Int) < 2 ^ (type.bits - 1) := by positivity
  refine ⟨width_promoted _, ?_, ?_, ?_, ?_⟩
  · cases type with
    | i1 => exact absurd rfl wide
    | i8 | i16 => intro unsigned; cases unsigned
    | i32 | i64 => exact fun _ => rfl
  · rw [number, ofInt_natCast, ofNat_toNat, setWidth_eq]
  · rw [number]
    have := Int.natCast_nonneg bits.toNat
    linarith
  · rw [number]
    exact_mod_cast bits.isLt

theorem single_reads (bits : BitVec 1) :
    Reads ⟨true, 32, if bits = 1 then 1 else 0⟩ bits := by
  have all : ∀ bits : BitVec 1, BitVec.ofInt 1
      (⟨true, 32, if bits = 1 then 1 else 0⟩ : IntegerValue).toInt = bits ∧
      -2 ^ 0 ≤ (⟨true, 32, if bits = 1 then 1 else 0⟩ : IntegerValue).toInt ∧
      (⟨true, 32, if bits = 1 then 1 else 0⟩ : IntegerValue).toInt < 2 ^ 1 := by decide
  exact ⟨le_rfl, by simp, (all bits).1, (all bits).2.1, (all bits).2.2⟩

theorem operandInteger_reads (operand : IntegerOperand type)
    (bits : BitVec type.bits) : Reads (operandInteger operand bits) bits := by
  unfold operandInteger
  by_cases single : type = .i1
  · subst single
    exact single_reads bits
  · rw [if_neg single]
    cases operand with
    | value _ => exact container_reads single bits
    | constant _ => exact literalInteger_reads single bits

theorem operandValue_asInteger (operand : IntegerOperand type)
    (bits : BitVec type.bits) : ∃ x, (operandValue operand bits).asInteger = some x ∧
      x.promoted = operandInteger operand bits ∧
      (type ≠ .i1 → operandValue operand bits = .integer x ∧
        BitVec.ofInt type.bits x.toInt = bits ∧ (x.bits = 0 ↔ bits = 0)) := by
  unfold operandValue operandInteger container
  by_cases single : type = .i1
  · simp only [if_pos single]
    cases operand <;>
      exact ⟨_, rfl, by by_cases one : bits = 1 <;> simp [one] <;> rfl, fun wide => absurd single wide⟩
  · simp only [if_neg single]
    cases operand with
    | value id =>
      refine ⟨_, rfl, rfl, fun _ => ⟨rfl, ?_, Iff.rfl⟩⟩
      rw [← converted_eq_ofInt]
      exact converted_self bits
    | constant value =>
      have reads := literalInteger_reads single bits
      refine ⟨_, rfl, promoted_of_wide reads.wide _, fun _ => ⟨rfl, reads.low, ?_⟩⟩
      rw [bits_eq_zero_iff]
      constructor
      · intro zero
        rw [← reads.low, zero]
        rfl
      · rintro rfl
        rw [show (0 : BitVec type.bits).toInt = 0 from toInt_zero]
        decide

/-- A binary instruction whose operands `x` and `y` keep their meaning in MSL. An `i1` sum is one of
truth values; a sum, difference or product at a signed common type fits it; a division and a shift
to the right see no negative literal, and a shifted literal has room for the result. -/
def BinaryOpcode.Keeps (opcode : BinaryOpcode) {type : IntegerType}
    (left right : IntegerOperand type) (x y : BitVec type.bits) : Prop :=
  let l := operandInteger left x
  let r := operandInteger right y
  match opcode with
  | .add =>
    ¬ (type = .i1 ∧ x = 1 ∧ y = 1) ∧
      (l.commonSigned r = true → Fits (l.commonWidth r) (l.toInt + r.toInt))
  | .sub => l.commonSigned r = true → Fits (l.commonWidth r) (l.toInt - r.toInt)
  | .mul => l.commonSigned r = true → Fits (l.commonWidth r) (l.toInt * r.toInt)
  | .udiv | .urem => l.commonSigned r = true → 0 ≤ l.toInt ∧ 0 ≤ r.toInt
  | .shl =>
    y.toNat < l.width ∧ (type.bits ≤ l.width ∨ Fits l.width (l.toInt * 2 ^ y.toNat))
  | .lshr => y.toNat = 0 ∨ y.toNat < l.width ∧ 0 ≤ l.toInt
  | .and | .or | .xor | .sdiv | .srem | .ashr => True

/-- A comparison whose operands keep their meaning in MSL: signed `i1` operands are equal, and an
unsigned comparison at a signed common type has operands of one sign. -/
def IntegerPredicate.Keeps (predicate : IntegerPredicate) {type : IntegerType}
    (left right : IntegerOperand type) (x y : BitVec type.bits) : Prop :=
  let l := operandInteger left x
  let r := operandInteger right y
  match predicate with
  | .sgt | .sge | .slt | .sle => type = .i1 → x = y
  | .eq | .ne | .ugt | .uge | .ult | .ule =>
    l.commonSigned r = true → (0 ≤ l.toInt ↔ 0 ≤ r.toInt)

/-- An instruction whose operands keep their meaning in MSL. No cast leaves an attribute: a
truncation to `i1` is of 0 or an odd number, an extension is of an operand that stands for the same
number in MSL. -/
def IntegerInstruction.Keeps (values : NvvmValues) : IntegerInstruction → Prop
  | .binary opcode _ left right => ∀ x y, left.read values = some x →
      right.read values = some y → BinaryOpcode.Keeps opcode left right x y
  | .icmp predicate _ left right => ∀ x y, left.read values = some x →
      right.read values = some y → IntegerPredicate.Keeps predicate left right x y
  | .select .. => True
  | .trunc _ target _ operand => ∀ x, operand.read values = some x →
      target = .i1 → x = 0 ∨ x.getLsbD 0 = true
  | .zext _ _ _ operand => ∀ x, operand.read values = some x →
      (operandInteger operand x).toInt = x.toNat
  | .sext _ _ _ operand => ∀ x, operand.read values = some x →
      (operandInteger operand x).toInt = x.toInt

/-- A sequence of which every instruction keeps its meaning where it stands. -/
def KeepsAll : NvvmValues → List (ValueId × IntegerInstruction) → Prop
  | _, [] => True
  | values, (result, instruction) :: rest =>
    IntegerInstruction.Keeps values instruction ∧
      ∀ after, instruction.step values result = some after → KeepsAll after rest

/-! ## One instruction -/

theorem convert_integer (wide : type ≠ .i1) (x : IntegerValue) :
    convert (lowerType (.integer type.bits)) (.integer x) =
      some (container type (x.converted type.bits)) := by
  cases type with
  | i1 => exact absurd rfl wide
  | i8 | i16 | i32 | i64 => rfl

theorem convert_bool (value : Bool) :
    convert (lowerType (.integer IntegerType.i1.bits)) (.bool value) =
      some (container .i1 (BitVec.ofBool value)) := by
  cases value <;> rfl

theorem convert_operandValue (operand : IntegerOperand type) (bits : BitVec type.bits) :
    convert (lowerType (.integer type.bits)) (operandValue operand bits) =
      some (container type bits) := by
  by_cases single : type = .i1
  · subst single
    cases operand <;> rfl
  · obtain ⟨x, _, _, facts⟩ := operandValue_asInteger operand bits
    obtain ⟨same, low, _⟩ := facts single
    rw [same, convert_integer single, converted_eq_ofInt, low]

variable {source : IntegerType}

theorem convert_number {target : IntegerType} (wide : target ≠ .i1)
    (operand : IntegerOperand source) (bits : BitVec source.bits) :
    convert (lowerType (.integer target.bits)) (operandValue operand bits) =
      some (container target (BitVec.ofInt target.bits (operandInteger operand bits).toInt)) := by
  by_cases single : source = .i1
  · subst single
    have truth : operandValue operand bits = .bool (bits = 1) := by cases operand <;> rfl
    have number : operandInteger operand bits = ⟨true, 32, if bits = 1 then 1 else 0⟩ := by
      cases operand <;> rfl
    have all : ∀ bits : BitVec 1, convert (lowerType (.integer target.bits)) (.bool (bits = 1)) =
        some (container target (BitVec.ofInt target.bits
          (⟨true, 32, if bits = 1 then 1 else 0⟩ : IntegerValue).toInt)) := by
      cases target with
      | i1 => exact absurd rfl wide
      | i8 | i16 | i32 | i64 => decide
    rw [truth, number]
    exact all bits
  · obtain ⟨x, _, promoted, facts⟩ := operandValue_asInteger operand bits
    rw [(facts single).1, convert_integer wide, converted_eq_ofInt, ← promoted, toInt_promoted]

theorem convert_truth (wide : source ≠ .i1) (operand : IntegerOperand source)
    (bits : BitVec source.bits) :
    convert (lowerType (.integer IntegerType.i1.bits)) (operandValue operand bits) =
      some (.bool (bits ≠ 0)) := by
  obtain ⟨x, _, _, facts⟩ := operandValue_asInteger operand bits
  obtain ⟨same, _, zero⟩ := facts wide
  rw [same]
  change some (Value.bool (x.bits != 0)) = _
  by_cases here : bits = 0
  · rw [zero.mpr here, here]
    simp
  · have there : x.bits ≠ 0 := fun empty => here (zero.mp empty)
    rw [bne_iff_ne.mpr there, decide_eq_true here]

theorem convert_signed (wide : type ≠ .i1) (operand : IntegerOperand type)
    (bits : BitVec type.bits) :
    convert (.sint type.bits) (operandValue operand bits) =
      some (.integer ⟨true, type.bits, bits⟩) := by
  obtain ⟨x, _, _, facts⟩ := operandValue_asInteger operand bits
  obtain ⟨same, low, _⟩ := facts wide
  have converted : x.converted type.bits = bits := by rw [converted_eq_ofInt, low]
  rw [same]
  cases type with
  | i1 => exact absurd rfl wide
  | i8 | i16 | i32 | i64 => exact congrArg (fun b => some (Value.integer ⟨true, _, b⟩)) converted

theorem signed_reads (type : IntegerType) (bits : BitVec type.bits) :
    SignedReads (promoted ⟨true, type.bits, bits⟩) bits where
  wide := width_promoted _
  signed := by
    unfold promoted
    split <;> rfl
  widened := by
    unfold promoted
    split
    · next narrow => exact le_of_lt narrow
    · exact le_rfl
  number := toInt_promoted _

theorem binaryValue_operands (operation : String)
    (left right : IntegerOperand type) (x y : BitVec type.bits) :
    binaryValue operation (operandValue left x) (operandValue right y) =
      integerBinary operation (operandInteger left x) (operandInteger right y) := by
  obtain ⟨l, leftInteger, leftPromoted, _⟩ := operandValue_asInteger left x
  obtain ⟨r, rightInteger, rightPromoted, _⟩ := operandValue_asInteger right y
  rw [binaryValue, leftInteger, rightInteger, ← leftPromoted, ← rightPromoted]
  change integerBinary operation l r = _
  unfold integerBinary
  rw [promoted_promoted, promoted_promoted]

/-- The value of a binary instruction as an MSL expression: signed instructions cast their operands
first. -/
def binaryResult (opcode : BinaryOpcode) {type : IntegerType} (left right : Value) :
    Option Value :=
  if opcode = .sdiv ∨ opcode = .srem ∨ opcode = .ashr then do
    let x ← convert (.sint type.bits) left
    let y ← convert (.sint type.bits) right
    binaryValue (binarySpelling (Ir.binaryOpcode opcode)) x y
  else binaryValue (binarySpelling (Ir.binaryOpcode opcode)) left right

variable {left right : IntegerOperand type} {operation : String}

theorem signed_value (wide : type ≠ .i1) {x y : BitVec type.bits} {bits : BitVec type.bits}
    (value : ∃ v, integerBinary operation (promoted ⟨true, type.bits, x⟩)
      (promoted ⟨true, type.bits, y⟩) = some (.integer v) ∧ v.converted type.bits =
      bits) :
    ∃ v, (do
      let l ← convert (.sint type.bits) (operandValue left x)
      let r ← convert (.sint type.bits) (operandValue right y)
      binaryValue operation l r) = some v ∧
      convert (lowerType (.integer type.bits)) v = some (container type bits) := by
  obtain ⟨v, result, converted⟩ := value
  refine ⟨.integer v, ?_, by rw [convert_integer wide, converted]⟩
  rw [convert_signed wide, convert_signed wide]
  change integerBinary operation ⟨true, type.bits, x⟩ ⟨true, type.bits, y⟩ = _
  rw [← result]
  unfold integerBinary
  rw [promoted_promoted, promoted_promoted]

theorem binaryResult_single (opcode : BinaryOpcode) (left right : IntegerOperand .i1)
    (x y bits : BitVec IntegerType.i1.bits) (defined : opcode.evaluate x y = some bits)
    (keeps : BinaryOpcode.Keeps opcode left right x y) :
    ∃ v, @binaryResult opcode .i1 (operandValue left x) (operandValue right y) = some v ∧
      convert (lowerType (.integer IntegerType.i1.bits)) v = some (container .i1 bits) := by
  have leftValue : operandValue left x = .bool (x = 1) := by cases left <;> rfl
  have rightValue : operandValue right y = .bool (y = 1) := by cases right <;> rfl
  have sum : ¬ (opcode = .add ∧ x = 1 ∧ y = 1) := by
    rintro ⟨rfl, one, one'⟩
    exact keeps.1 ⟨rfl, one, one'⟩
  rw [leftValue, rightValue]
  have all : ∀ opcode : BinaryOpcode, ∀ x y : BitVec 1, ¬ (opcode = .add ∧ x = 1 ∧ y = 1) →
      ∀ bits, opcode.evaluate x y = some bits →
      (@binaryResult opcode .i1 (.bool (x = 1)) (.bool (y = 1))).bind
        (convert (lowerType (.integer 1))) = some (container .i1 bits) := by
    intro opcode
    cases opcode <;> decide
  obtain ⟨v, result, converted⟩ := bind_eq_some_iff.mp (all opcode x y sum bits defined)
  exact ⟨v, result, converted⟩

theorem plain_value (wide : type ≠ .i1) {x y bits : BitVec type.bits}
    (value : ∃ v, integerBinary operation (operandInteger left x) (operandInteger right y) = some
      (.integer v) ∧ v.converted type.bits = bits) :
    ∃ v, binaryValue operation (operandValue left x) (operandValue right y) = some v ∧
      convert (lowerType (.integer type.bits)) v = some (container type bits) := by
  obtain ⟨v, result, converted⟩ := value
  exact ⟨.integer v, by rw [binaryValue_operands, result],
    by rw [convert_integer wide, converted]⟩

theorem binaryResult_wide (wide : type ≠ .i1) (opcode : BinaryOpcode)
    (left right : IntegerOperand type) (x y bits : BitVec type.bits)
    (defined : opcode.evaluate x y = some bits) (keeps : BinaryOpcode.Keeps opcode left right x y) :
    ∃ v, @binaryResult opcode type (operandValue left x) (operandValue right y) = some v ∧
      convert (lowerType (.integer type.bits)) v = some (container type bits) := by
  have l := operandInteger_reads left x
  have r := operandInteger_reads right y
  have l' := signed_reads type x
  have r' := signed_reads type y
  cases opcode with
  | add =>
    cases defined
    exact plain_value wide (ringOperator_add.value l r keeps.2)
  | sub =>
    cases defined
    exact plain_value wide (ringOperator_sub.value l r keeps)
  | mul =>
    cases defined
    exact plain_value wide (ringOperator_mul.value l r keeps)
  | udiv =>
    obtain ⟨nonzero, same⟩ := ite_none_left_eq_some.mp defined
    cases same
    exact plain_value wide (divisionOperator_div.unsigned_value l r nonzero keeps)
  | urem =>
    obtain ⟨nonzero, same⟩ := ite_none_left_eq_some.mp defined
    cases same
    exact plain_value wide (divisionOperator_rem.unsigned_value l r nonzero keeps)
  | sdiv =>
    obtain ⟨divides, same⟩ := ite_none_left_eq_some.mp defined
    cases same
    obtain ⟨nonzero, fits⟩ := not_or.mp divides
    exact signed_value wide
      (divisionOperator_div.signed_value l' r' nonzero (Bool.eq_false_of_not_eq_true fits))
  | srem =>
    obtain ⟨divides, same⟩ := ite_none_left_eq_some.mp defined
    cases same
    obtain ⟨nonzero, fits⟩ := not_or.mp divides
    exact signed_value wide
      (divisionOperator_rem.signed_value l' r' nonzero (Bool.eq_false_of_not_eq_true fits))
  | and =>
    cases defined
    exact plain_value wide (bitOperator_and.result l r)
  | or =>
    cases defined
    exact plain_value wide (bitOperator_or.result l r)
  | xor =>
    cases defined
    exact plain_value wide (bitOperator_xor.result l r)
  | shl =>
    obtain ⟨inside, same⟩ := ite_none_left_eq_some.mp defined
    cases same
    exact plain_value wide (shl_value l r (Nat.lt_of_not_le inside) keeps.1 keeps.2)
  | lshr =>
    obtain ⟨inside, same⟩ := ite_none_left_eq_some.mp defined
    cases same
    exact plain_value wide (lshr_value l r (Nat.lt_of_not_le inside) keeps)
  | ashr =>
    obtain ⟨inside, same⟩ := ite_none_left_eq_some.mp defined
    cases same
    exact signed_value wide (ashr_value l' r' (Nat.lt_of_not_le inside))

def comparesSigned (predicate : IntegerPredicate) : Prop :=
  predicate = .sgt ∨ predicate = .sge ∨ predicate = .slt ∨ predicate = .sle

instance (predicate : IntegerPredicate) : Decidable (comparesSigned predicate) :=
  inferInstanceAs (Decidable (_ ∨ _))

theorem predicate_operator (predicate : IntegerPredicate) :
    ∃ onInt, ComparisonOperator
        (compareSpelling (importInstruction 0 (.icmp predicate .i1 (.value 0) (.value 0)))) onInt ∧
      (∀ {width : Nat} (x y : BitVec width), predicate.evaluate x y =
        if comparesSigned predicate then onInt x.toInt y.toInt else onInt x.toNat y.toNat) := by
  cases predicate with
  | eq => exact ⟨_, comparisonOperator_eq, fun x y => by
    simp [IntegerPredicate.evaluate, comparesSigned, toNat_inj]⟩
  | ne => exact ⟨_, comparisonOperator_ne, fun x y => by
    simp [IntegerPredicate.evaluate, comparesSigned, toNat_inj]⟩
  | ugt => exact ⟨_, comparisonOperator_gt, fun x y => by
    simp [IntegerPredicate.evaluate, comparesSigned]⟩
  | uge => exact ⟨_, comparisonOperator_ge, fun x y => by
    simp [IntegerPredicate.evaluate, comparesSigned]⟩
  | ult => exact ⟨_, comparisonOperator_lt, fun x y => by
    simp [IntegerPredicate.evaluate, comparesSigned]⟩
  | ule => exact ⟨_, comparisonOperator_le, fun x y => by
    simp [IntegerPredicate.evaluate, comparesSigned]⟩
  | sgt => exact ⟨_, comparisonOperator_gt, fun x y => by
    simp [IntegerPredicate.evaluate, comparesSigned]⟩
  | sge => exact ⟨_, comparisonOperator_ge, fun x y => by
    simp [IntegerPredicate.evaluate, comparesSigned]⟩
  | slt => exact ⟨_, comparisonOperator_lt, fun x y => by
    simp [IntegerPredicate.evaluate, comparesSigned]⟩
  | sle => exact ⟨_, comparisonOperator_le, fun x y => by
    simp [IntegerPredicate.evaluate, comparesSigned]⟩

end CuMetal.Metal
