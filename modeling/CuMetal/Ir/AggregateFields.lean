import CuMetal.Ir.PtxImport
import CuMetal.Lib.Tiling

/-!
# Aggregates from their stored fields

`Importer::materialize_aggregate` (`compiler/ir/src/ptx_importer.cpp`), which puts the fields that
`st.param` stored into a by-value parameter or return together, and what the operations that it
emits compute. A value is the string of its bytes. The importer's table of value types, which
repeats the result types of the operations, is left out.
-/

namespace CuMetal.Ir

/-- `cumetal::ptx::Parameter` (`parser.h:10-16`). -/
structure PtxParameter where
  type : String
  name : String
  isPointer : Bool
  byteSize : Nat
  alignment : Nat

namespace IrType

/-- `Type::aggregate` (`ir.cpp:83-89`). -/
def aggregate (elements : List IrType) (name : String) : IrType :=
  { kind := .aggregate, elements, name }

mutual

/-- `type_size` (`224-232`), whose total is a `std::uint32_t`. -/
def typeSize : IrType → Nat
  | ⟨kind, bitWidth, _, _, elements, _⟩ =>
    match kind with
    | .pointer => 8
    | .predicate => 1
    | .aggregate => totalSize elements
    | _ => max 1 (bitWidth / 8)

def totalSize : List IrType → Nat
  | [] => 0
  | element :: rest => (typeSize element + totalSize rest) % 2 ^ 32

end

end IrType

open IrType

/-- `parameter_type` (`204-222`). -/
def parameterType (parameter : PtxParameter) : IrType :=
  if parameter.isPointer then .pointer (.integer 8) .device
  else
    let scalar := ptxScalarType parameter.type
    if parameter.byteSize ≤ max 1 (scalar.bitWidth / 8) then scalar
    else
      let fields :=
        if parameter.byteSize % 4 = 0 ∧ 4 ≤ parameter.alignment then
          List.replicate (parameter.byteSize / 4) (.integer 32)
        else List.replicate parameter.byteSize (.integer 8)
      .aggregate fields ("CuMetalPackedParam" ++ toString parameter.byteSize)

/-- The fields of a parameter or a return by their byte offsets. -/
abbrev Fields := AssocMap Int Operand

/-- What `st.param` does with a field (`2265-2294`). -/
def storeField (fields : Fields) (byteOffset : Int) (stored : Operand) : Except String Fields :=
  if byteOffset < 0 then .error "PTX call parameter slot has a negative byte offset"
  else .ok (fields.assign byteOffset stored)

def storeFields (stores : List (Int × Operand)) : Except String Fields :=
  stores.foldlM (fun fields store => storeField fields store.1 store.2) []

/-- The value of an element, and the bitcast that gives it (`1363-1376`). -/
def elementOf (location : SourceLocation) (field : Operand) (elementType : IrType)
    (next : ValueId) : Operand × List Operation :=
  if field.type = elementType then (field, [])
  else
    (.valueRef next elementType,
      [{ opcode := .convert, location, operands := [field], attributes := [("bitcast", "true")]
         results := [next], resultTypes := [elementType] }])

/-- What the loop over the elements leaves: the operands of the construction, the operations before
it, the offset of the end, and the next value. -/
structure Gathered where
  operands : List Operand
  operations : List Operation
  byteOffset : Int
  next : ValueId

/-- The loop over the elements (`1352-1379`). -/
def gatherFields (fields : Fields) (description : String) (location : SourceLocation) :
    List IrType → Int → ValueId → Except String Gathered
  | [], byteOffset, next => .ok ⟨[], [], byteOffset, next⟩
  | elementType :: elements, byteOffset, next =>
    match fields.find? byteOffset with
    | none =>
      .error (description ++ " is missing field at byte offset " ++ toString byteOffset)
    | some field =>
      if typeSize field.type ≠ typeSize elementType then
        .error (description ++ " has a partial or overlapping field at byte offset " ++
          toString byteOffset)
      else
        let (value, conversions) := elementOf location field elementType next
        match gatherFields fields description location elements
            (byteOffset + typeSize elementType) (next + conversions.length) with
        | .error message => .error message
        | .ok rest =>
          .ok ⟨value :: rest.operands, conversions ++ rest.operations, rest.byteOffset,
            rest.next⟩

/-- `materialize_aggregate` (`1327-1391`): the aggregate and the operations that build it. -/
def materializeAggregate (type : IrType) (fields : Fields) (description : String)
    (location : SourceLocation) (next : ValueId) : Except String (Operand × List Operation) :=
  if type.kind ≠ .aggregate ∨ type.elements.isEmpty then
    .error (description ++ " does not have an aggregate type")
  else if fields.length ≠ type.elements.length then
    .error (description ++ " has missing, partial, or overlapping fields")
  else
    match gatherFields fields description location type.elements 0 next with
    | .error message => .error message
    | .ok gathered =>
      if gathered.byteOffset ≠ typeSize type then
        .error (description ++ " has an inconsistent aggregate layout")
      else
        .ok (.valueRef gathered.next type,
          gathered.operations ++
            [{ opcode := .aggregateConstruct, attributes := [("aggregate_init", "true")], location
               operands := gathered.operands, results := [gathered.next]
               resultTypes := [type] }])

abbrev Values := ValueId → List UInt8

/-- The bytes of an operand; `literal` are those of an immediate or a symbol. -/
def Operand.bytes (literal : Operand → List UInt8) (values : Values) (operand : Operand) :
    List UInt8 :=
  if operand.kind = .value then values operand.value else literal operand

/-- A bitcast keeps the bytes of its operand, and an aggregate has those of its elements. -/
def Operation.compute (literal : Operand → List UInt8) (values : Values) (operation : Operation) :
    Values :=
  match operation.opcode, operation.results with
  | .convert, [result] =>
    if operation.attributes.find? "bitcast" = some "true" then
      Function.update values result (operation.operands.flatMap (·.bytes literal values))
    else values
  | .aggregateConstruct, [result] =>
    Function.update values result (operation.operands.flatMap (·.bytes literal values))
  | _, _ => values

def computeAll (literal : Operand → List UInt8) (operations : List Operation) (values : Values) :
    Values :=
  operations.foldl (Operation.compute literal) values

end CuMetal.Ir
