import CuMetal.Ir.Syntax
import Mathlib.Logic.Function.Basic

/-!
# LLVM integer instructions

The integer instructions that `import_instruction` takes in, what LLVM computes with them, and the
operations that the importer makes of them (`compiler/ir/src/nvvm_importer.cpp`). Flags such as
`nsw` are left out: they only make fewer results defined.
-/

namespace CuMetal.Ir

/-- The integer types of LLVM that are modelled. -/
inductive IntegerType
  | i1
  | i8
  | i16
  | i32
  | i64
  deriving DecidableEq, Repr

def IntegerType.bits : IntegerType → Nat
  | .i1 => 1
  | .i8 => 8
  | .i16 => 16
  | .i32 => 32
  | .i64 => 64

/-- An operand: an SSA value, by the number that the importer gives it, or a constant. -/
inductive IntegerOperand (type : IntegerType)
  | value (id : ValueId)
  | constant (bits : BitVec type.bits)

/-- The binary operators. -/
inductive BinaryOpcode
  | add | sub | mul | udiv | sdiv | urem | srem | and | or | xor | shl | lshr | ashr
  deriving DecidableEq, Repr

/-- `llvm::CmpInst::Predicate`, of integers. -/
inductive IntegerPredicate
  | eq | ne | ugt | uge | ult | ule | sgt | sge | slt | sle
  deriving DecidableEq, Repr

/-- An integer instruction. -/
inductive IntegerInstruction
  | binary (opcode : BinaryOpcode) (type : IntegerType) (left right : IntegerOperand type)
  | icmp (predicate : IntegerPredicate) (type : IntegerType) (left right : IntegerOperand type)
  | select (type : IntegerType) (condition : IntegerOperand .i1)
      (trueValue falseValue : IntegerOperand type)
  | trunc (source target : IntegerType) (narrower : target.bits < source.bits)
      (operand : IntegerOperand source)
  | zext (source target : IntegerType) (wider : source.bits < target.bits)
      (operand : IntegerOperand source)
  | sext (source target : IntegerType) (wider : source.bits < target.bits)
      (operand : IntegerOperand source)

/-- The type of an instruction's value. -/
def IntegerInstruction.type : IntegerInstruction → IntegerType
  | .binary _ type _ _ => type
  | .icmp .. => .i1
  | .select type _ _ _ => type
  | .trunc _ target _ _ => target
  | .zext _ target _ _ => target
  | .sext _ target _ _ => target

/-- A value of an integer type. -/
structure NvvmValue where
  type : IntegerType
  bits : BitVec type.bits

abbrev NvvmValues := ValueId → Option NvvmValue

/-- The bits of an operand; a value of another type is no operand. -/
def IntegerOperand.read (values : NvvmValues) {type : IntegerType} :
    IntegerOperand type → Option (BitVec type.bits)
  | .constant bits => some bits
  | .value id =>
    (values id).bind fun value =>
      if value.type = type then some (value.bits.setWidth type.bits) else none

/-- The value of a binary operator, where LLVM defines it. -/
def BinaryOpcode.evaluate (opcode : BinaryOpcode) {width : Nat} (x y : BitVec width) :
    Option (BitVec width) :=
  match opcode with
  | .add => some (x + y)
  | .sub => some (x - y)
  | .mul => some (x * y)
  | .udiv => if y = 0 then none else some (x / y)
  | .sdiv => if y = 0 ∨ x.sdivOverflow y = true then none else some (x.sdiv y)
  | .urem => if y = 0 then none else some (x % y)
  | .srem => if y = 0 ∨ x.sdivOverflow y = true then none else some (x.srem y)
  | .and => some (x &&& y)
  | .or => some (x ||| y)
  | .xor => some (x ^^^ y)
  | .shl => if width ≤ y.toNat then none else some (x <<< y.toNat)
  | .lshr => if width ≤ y.toNat then none else some (x >>> y.toNat)
  | .ashr => if width ≤ y.toNat then none else some (x.sshiftRight y.toNat)

/-- The value of a comparison. -/
def IntegerPredicate.evaluate (predicate : IntegerPredicate) {width : Nat} (x y : BitVec width) :
    Bool :=
  match predicate with
  | .eq => x = y
  | .ne => x ≠ y
  | .ugt => y.toNat < x.toNat
  | .uge => y.toNat ≤ x.toNat
  | .ult => x.toNat < y.toNat
  | .ule => x.toNat ≤ y.toNat
  | .sgt => y.toInt < x.toInt
  | .sge => y.toInt ≤ x.toInt
  | .slt => x.toInt < y.toInt
  | .sle => x.toInt ≤ y.toInt

/-- The value of an instruction, where LLVM defines it. -/
def IntegerInstruction.evaluate (values : NvvmValues) :
    (instruction : IntegerInstruction) → Option (BitVec instruction.type.bits)
  | .binary opcode _ left right => do
    let x ← left.read values
    let y ← right.read values
    opcode.evaluate x y
  | .icmp predicate _ left right => do
    let x ← left.read values
    let y ← right.read values
    pure (BitVec.ofBool (predicate.evaluate x y))
  | .select _ condition trueValue falseValue => do
    let chosen ← condition.read values
    let x ← trueValue.read values
    let y ← falseValue.read values
    pure (if chosen = 1 then x else y)
  | .trunc _ target _ operand => do
    let x ← operand.read values
    pure (x.setWidth target.bits)
  | .zext _ target _ operand => do
    let x ← operand.read values
    pure (x.setWidth target.bits)
  | .sext _ target _ operand => do
    let x ← operand.read values
    pure (x.signExtend target.bits)

def IntegerInstruction.step (values : NvvmValues) (result : ValueId)
    (instruction : IntegerInstruction) : Option NvvmValues :=
  (instruction.evaluate values).map fun bits =>
    Function.update values result (some ⟨instruction.type, bits⟩)

/-- The values after a sequence of instructions, each with the number of its value. -/
def runNvvm (values : NvvmValues) : List (ValueId × IntegerInstruction) → Option NvvmValues
  | [] => some values
  | (result, instruction) :: rest =>
    (instruction.step values result).bind fun values => runNvvm values rest

/-- `constant_spelling` of an integer (`283-299`): LLVM prints it as a signed decimal number, or as
a truth value. -/
def constantSpelling {type : IntegerType} (bits : BitVec type.bits) : String :=
  if type = .i1 then if bits = 1 then "true" else "false" else toString bits.toInt

/-- `import_operand` (`567-617`). -/
def IntegerOperand.imported {type : IntegerType} : IntegerOperand type → Operand
  | .value id => .valueRef id (.integer type.bits)
  | .constant bits =>
    { kind := .immediate, text := constantSpelling bits, type := .integer type.bits }

/-- `comparison_predicate` (`414-445`). -/
def comparisonPredicate : IntegerPredicate → String
  | .eq => "eq"
  | .ne => "ne"
  | .slt => "slt"
  | .ult => "lt"
  | .sle => "sle"
  | .ule => "le"
  | .sgt => "sgt"
  | .ugt => "gt"
  | .sge => "sge"
  | .uge => "ge"

/-- `binary_opcode` (`447-468`). -/
def binaryOpcode : BinaryOpcode → OpCode
  | .add => .add
  | .sub => .sub
  | .mul => .mul
  | .udiv | .sdiv => .div
  | .urem | .srem => .remainder
  | .and => .bitAnd
  | .or => .bitOr
  | .xor => .bitXor
  | .shl => .shiftLeft
  | .lshr | .ashr => .shiftRight

/-- A cast (`2566-2646`): of the integer casts none leaves an attribute. -/
def importCast (result : ValueId) (source target : IntegerType) (operand : IntegerOperand source) :
    Operation where
  opcode := .convert
  results := [result]
  resultTypes := [.integer target.bits]
  operands := [operand.imported]

/-- `import_instruction` (`2388-2452`, `2566-2646`). -/
def importInstruction (result : ValueId) : IntegerInstruction → Operation
  | .binary opcode type left right =>
    { opcode := binaryOpcode opcode
      results := [result]
      resultTypes := [.integer type.bits]
      operands := [left.imported, right.imported]
      attributes :=
        if opcode = .sdiv ∨ opcode = .srem ∨ opcode = .ashr then [("signed", "true")] else [] }
  | .icmp predicate _ left right =>
    { opcode := .compare
      results := [result]
      resultTypes := [.integer 1]
      operands := [left.imported, right.imported]
      attributes := ("predicate", comparisonPredicate predicate) ::
        if (comparisonPredicate predicate).toList.head? = some 's' then [("signed", "true")]
        else [] }
  | .select type condition trueValue falseValue =>
    { opcode := .select
      results := [result]
      resultTypes := [.integer type.bits]
      operands := [condition.imported, trueValue.imported, falseValue.imported] }
  | .trunc source target _ operand => importCast result source target operand
  | .zext source target _ operand => importCast result source target operand
  | .sext source target _ operand => importCast result source target operand

end CuMetal.Ir
