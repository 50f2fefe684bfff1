import CuMetal.Ir.Syntax
import CuMetal.Metal.Msl

/-!
# Lowering of integer operations

`AstLowerer::lower_operation` on the arithmetic, comparisons, selections and conversions of integers
(`compiler/metal/src/lower_to_msl.cpp`). What only other operands or the other importer lead to is
left out: pointers, software FP64, `mul.hi` and `mad`.
-/

namespace CuMetal.Metal

open Ir (IrType Operand Operation OpCode ValueId)

/-- `value_name` (`485-487`). -/
def valueName (value : ValueId) : String := "v" ++ toString value

/-- `lower_type` of an integer (`456-457`). -/
def lowerType (type : IrType) : MslType :=
  if type.bitWidth = 1 then .boolean else .uint type.bitWidth

/-- `AstLowerer`, as far as these operations depend on it. -/
structure AstLowerer where
  values : AssocMap ValueId MslExpression
  /-- `cfg_dispatcher_mode || predeclared_ssa_storage`: all values are declared up front. -/
  predeclared : Bool

/-- `expression_for` (`1676-1718`). -/
def AstLowerer.expressionFor (lowerer : AstLowerer) (operand : Operand) : MslExpression :=
  match operand.kind with
  | .value =>
    (lowerer.values.find? operand.value).getD
      (.identifier (valueName operand.value) (lowerType operand.type))
  | .symbol => .identifier operand.text (lowerType operand.type)
  | .immediate =>
    .literal (if operand.text = "null" then "nullptr" else operand.text) (lowerType operand.type)

/-- `declare_result` (`1729-1743`). -/
def AstLowerer.declareResult (lowerer : AstLowerer) (operation : Operation)
    (initializer : MslExpression) : Except String (AstLowerer × MslStatement) :=
  match operation.results, operation.resultTypes with
  | value :: _, resultType :: _ =>
    let type := lowerType resultType
    let declared : MslExpression := .identifier (valueName value) type
    .ok ({ lowerer with values := lowerer.values.assign value declared },
      if lowerer.predeclared then .assignment declared initializer
      else .variable type (valueName value) (some initializer) true)
  | _, _ => .error "operation has no result value or expression to declare"

/-- The value that a statement gives to a variable. -/
def MslStatement.assigned : MslStatement → Option MslExpression
  | .variable _ _ initializer _ => initializer
  | .assignment _ value => some value
  | _ => none

theorem AstLowerer.assigned_of_declareResult {lowerer after : AstLowerer} {operation : Operation}
    {initializer : MslExpression} {statement : MslStatement}
    (declared : lowerer.declareResult operation initializer = .ok (after, statement)) :
    statement.assigned = some initializer := by
  unfold declareResult at declared
  split at declared
  · cases declared
    cases lowerer.predeclared <;> rfl
  · cases declared

/-- `binary_spelling` (`494-509`). -/
def binarySpelling : OpCode → String
  | .add | .pointerOffset => "+"
  | .sub => "-"
  | .mul => "*"
  | .div => "/"
  | .remainder => "%"
  | .bitAnd => "&"
  | .bitOr => "|"
  | .bitXor => "^"
  | .shiftLeft => "<<"
  | .shiftRight => ">>"
  | _ => ""

/-- `compare_spelling` (`511-520`). -/
def compareSpelling (operation : Operation) : String :=
  let value := (operation.attributes.find? "predicate").getD "eq"
  if value = "eq" ∨ value = "equ" then "=="
  else if value = "ne" ∨ value = "neu" then "!="
  else if value = "lt" ∨ value = "lo" ∨ value = "ltu" ∨ value = "slt" then "<"
  else if value = "le" ∨ value = "ls" ∨ value = "leu" ∨ value = "sle" then "<="
  else if value = "gt" ∨ value = "hi" ∨ value = "gtu" ∨ value = "sgt" then ">"
  else if value = "ge" ∨ value = "hs" ∨ value = "geu" ∨ value = "sge" then ">="
  else "=="

/-- A cast to the signed type of an operand's width, if the operation has the attribute. -/
def signedCast (operation : Operation) (name : String) (type : IrType)
    (expression : MslExpression) : MslExpression :=
  if operation.attributes.find? name = some "true" ∧ type.kind = .integer then
    .convertTo (.sint type.bitWidth) expression
  else expression

/-- `lower_operation` (`1797-1911`, `3185-3289`, `3291-3299`, `3301-3411`). -/
def AstLowerer.lowerOperation (lowerer : AstLowerer) (operation : Operation) :
    Except String (AstLowerer × MslStatement) :=
  if binarySpelling operation.opcode ≠ "" then
    match operation.operands with
    | left :: right :: _ =>
      let cast := signedCast operation "signed" left.type
      lowerer.declareResult operation
        (.binary (binarySpelling operation.opcode) (cast (lowerer.expressionFor left))
          (cast (lowerer.expressionFor right))
          (if operation.attributes.find? "signed" = some "true" ∧ left.type.kind = .integer then
            .sint left.type.bitWidth
          else lowerType (operation.resultTypes.headD {})))
    | _ => .error "malformed binary operation"
  else if operation.opcode = .compare then
    match operation.operands with
    | left :: right :: _ =>
      let cast := signedCast operation "signed" left.type
      lowerer.declareResult operation
        (.binary (compareSpelling operation) (cast (lowerer.expressionFor left))
          (cast (lowerer.expressionFor right)) .boolean)
    | _ => .error "malformed comparison"
  else if operation.opcode = .select then
    match operation.operands with
    | condition :: trueValue :: falseValue :: _ =>
      lowerer.declareResult operation
        (.conditional (lowerer.expressionFor condition) (lowerer.expressionFor trueValue)
          (lowerer.expressionFor falseValue) (lowerType (operation.resultTypes.headD {})))
    | _ => .error "malformed selection"
  else if operation.opcode = .convert then
    match operation.operands, operation.resultTypes with
    | operand :: _, resultType :: _ =>
      if operand.type = resultType then
        lowerer.declareResult operation (lowerer.expressionFor operand)
      else
        lowerer.declareResult operation
          (.convertTo (lowerType resultType)
            (signedCast operation "signed_input" operand.type (lowerer.expressionFor operand)))
    | _, _ => .error "malformed conversion"
  else .error "not an operation on integers"

/-- The operations of a block, one statement each. -/
def AstLowerer.lowerOperations (lowerer : AstLowerer) :
    List Operation → Except String (AstLowerer × List MslStatement)
  | [] => .ok (lowerer, [])
  | operation :: rest => do
    let (lowerer, statement) ← lowerer.lowerOperation operation
    let (lowerer, statements) ← lowerer.lowerOperations rest
    return (lowerer, statement :: statements)

end CuMetal.Metal
