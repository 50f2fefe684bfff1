import CuMetal.Ir.AggregateFields
import CuMetal.Ptx.MemoryOperand

/-!
# Importing memory accesses

`Importer::translate_instruction` (`compiler/ir/src/ptx_importer.cpp`) on `ld`, `st` and `atom`,
other than on the parameters of functions. The source locations, and the importer's table of value
types, which repeats the result types of the operations, are left out.
-/

namespace CuMetal.Ir

open Ptx (rootOpcode firstRegister registersIn trim parameterNameFromOperand
  memoryOperandOffset normalizedPredicate)
open IrType

/-- `Operand::immediate` (`ir.cpp:151-157`). -/
def Operand.immediate (text : String) (type : IrType) : Operand :=
  { kind := .immediate, text, type }

/-- `Operand::symbol` (`ir.cpp:159-165`). -/
def Operand.symbol (text : String) (type : IrType) : Operand :=
  { kind := .symbol, text, type }

/-- `memory_vector_width` (`46-51`). -/
def memoryVectorWidth (opcode : String) : Nat :=
  if mentions opcode ".v4." then 4 else if mentions opcode ".v2." then 2 else 1

/-- The address space of a load or a store (`2493-2500`, `2567-2574`, `2591-2598`). -/
def accessAddressSpace (opcode : String) : AddressSpace :=
  if mentions opcode ".shared" then .threadgroup
  else if mentions opcode ".local" then .privateSpace
  else if mentions opcode ".const" then .constant
  else .device

/-- `memory_scope_from_opcode` (`1232-1244`). -/
def memoryScopeFromOpcode (opcode : String) : MemoryScope :=
  if mentions opcode ".cta" || mentions opcode ".shared" then .threadgroup
  else if mentions opcode ".warp" then .simdgroup
  else if mentions opcode ".sys" then .system
  else .device

/-- `memory_ordering_from_opcode` (`1246-1252`). -/
def memoryOrderingFromOpcode (opcode : String) : MemoryOrdering :=
  if mentions opcode ".acq_rel" then .acquireRelease
  else if mentions opcode ".acquire" then .acquire
  else if mentions opcode ".release" then .release
  else if mentions opcode ".sc" then .sequentiallyConsistent
  else .relaxed

/-- `atomic_operation_from_opcode` (`1254-1265`). -/
def atomicOperationFromOpcode (opcode : String) : String :=
  ((["add", "sub", "and", "or", "xor", "cas", "min", "max", "exch"] : List String).find?
    fun operation => mentions opcode ("." ++ operation ++ ".")).getD ""

/-- What the importer knows when it meets an instruction: the values of the registers, and where
the variables of the module are. -/
structure ImportTables where
  environment : AssocMap String ValueId
  valueTypes : AssocMap ValueId IrType
  moduleGlobalValues : AssocMap String Operand
  moduleInitializedSymbols : List String
  threadgroupSymbols : List String
  localDepotValues : AssocMap String Operand
  /-- The offsets of the module constants in their buffer. -/
  moduleConstantSymbols : AssocMap String Nat
  moduleConstantBuffer : Option Operand
  fp64Mode : String

namespace ImportTables

/-- The operand for the name of a variable (`1834-1852`). -/
def variableOperand (tables : ImportTables) (symbol : String) : Option Operand :=
  match tables.moduleGlobalValues.find? symbol with
  | some global => some global
  | none =>
    if symbol ∈ tables.moduleInitializedSymbols then
      some (.symbol symbol (.pointer (.integer 8) .constant))
    else if symbol ∈ tables.threadgroupSymbols then
      some (.symbol symbol (.pointer (.integer 8) .threadgroup))
    else tables.localDepotValues.find? symbol

/-- `operand_for` (`1824-1857`). -/
def operandFor (tables : ImportTables) (token : String) (fallbackType : IrType) : Operand :=
  let registerName := firstRegister token
  let value := if registerName ≠ "" then tables.environment.find? registerName else none
  match value with
  | some value => .valueRef value ((tables.valueTypes.find? value).getD {})
  | none =>
    match tables.variableOperand (parameterNameFromOperand token) with
    | some operand => operand
    | none =>
      let spelling := trim token
      if spelling.length = 10 ∧ Ptx.startsWith spelling "0f" then
        .immediate spelling (.floating 32)
      else .immediate spelling fallbackType

/-- `append_guard` (`1859-1874`). -/
def appendGuard (tables : ImportTables) (operation : Operation) (instruction : Ptx.Instruction) :
    Except String Operation :=
  if instruction.predicate = "" ∨ rootOpcode instruction.opcode = "bra" then .ok operation
  else
    let (name, inverted) := normalizedPredicate instruction.predicate
    match tables.environment.find? name with
    | none => .error ("predicate register '" ++ name ++ "' is undefined")
    | some predicate =>
      .ok { operation with
        attributes := (operation.attributes.assign "guard_operand"
          (toString operation.operands.length)).assign "guard_inverted"
            (if inverted then "true" else "false")
        operands := operation.operands ++
          [.valueRef predicate ((tables.valueTypes.find? predicate).getD {})] }

end ImportTables

/-- The next free value, and the operations that an instruction has emitted. -/
structure Emission where
  next : ValueId
  operations : List Operation

namespace Emission

/-- Emits an operation whose result is a new value of the type. -/
def emit (emission : Emission) (operation : Operation) (type : IrType) : Operand × Emission :=
  (.valueRef emission.next type,
    { next := emission.next + 1
      operations := emission.operations ++
        [{ operation with results := [emission.next], resultTypes := [type] }] })

/-- Emits an operation that has its results already. -/
def push (emission : Emission) (operation : Operation) : Emission :=
  { emission with operations := emission.operations ++ [operation] }

def offsetBytes (emission : Emission) (base : Operand) (bytes : Int) : Operand × Emission :=
  emission.emit
    { opcode := .pointerOffset, operands := [base, .immediate (toString bytes) (.integer 64)]
      attributes := [("offset_unit", "bytes")] } base.type

/-- `bit_container_of` and `bit_container_operand` (`1921-1961`). -/
def container (emission : Emission) (operand : Operand) (expected : IrType) :
    Operand × Emission :=
  match bitContainerOf operand expected emission.next with
  | (operand, []) => (operand, emission)
  | (operand, conversions) =>
    (operand, { next := emission.next + 1, operations := emission.operations ++ conversions })

end Emission

namespace ImportTables

/-- `memory_address_operand` (`1962-2002`): the cast to the type of the access. -/
def castAddress (emission : Emission) (base : Operand) (fallbackPointer : IrType) :
    Operand × Emission :=
  if base.type.isPointer = true ∧ fallbackPointer.isPointer = true ∧
      base.type.addressSpace ≠ .none ∧ base.type ≠ fallbackPointer then
    emission.emit { opcode := .addressSpaceCast, operands := [base] }
      { fallbackPointer with addressSpace := base.type.addressSpace }
  else (base, emission)

/-- `memory_address_operand` (`1962-2002`), of an operand that the instruction has. -/
def memoryAddressOperand (tables : ImportTables) (emission : Emission) (token : String)
    (fallbackPointer : IrType) : Operand × Emission :=
  let (base, emission) := castAddress emission (tables.operandFor token fallbackPointer)
    fallbackPointer
  let byteOffset := memoryOperandOffset token
  if byteOffset = 0 then (base, emission)
  else
    let base := if base.type.isPointer then base else { base with type := fallbackPointer }
    emission.offsetBytes base byteOffset

/-- The load of a lane after the first (`2503-2531`). -/
def loadLane (tables : ImportTables) (instruction : Ptx.Instruction) (base : Operand)
    (results : List ValueId) (resultTypes : List IrType) (emission : Emission) (lane : Nat) :
    Except String Emission := do
  let opcode := instruction.opcode
  let elementType := ptxScalarType opcode
  let (pointer, emission) := emission.offsetBytes base ((lane * elementType.typeSize : Nat) : Int)
  let load ← tables.appendGuard
    { opcode := .load, operands := [pointer], results := (results[lane]?).toList
      resultTypes := (resultTypes[lane]?).toList
      attributes := [("ptx_opcode", opcode),
        ("memory_bit_width", toString elementType.bitWidth)] ++
          (if hasSignedIntegerType opcode then [("signed", "true")] else []) ++
          [("alignment", toString elementType.typeSize)] } instruction
  .ok (emission.push load)

/-- The loads of the lanes after the first, and the results that the instruction keeps
(`2482-2535`). -/
def loadLanes (tables : ImportTables) (instruction : Ptx.Instruction) (address : String)
    (results : List ValueId) (resultTypes : List IrType) (emission : Emission) :
    Except String (Emission × List ValueId × List IrType) :=
  let opcode := instruction.opcode
  let lanes := memoryVectorWidth opcode
  if lanes ≤ 1 then .ok (emission, results, resultTypes)
  else if results.length ≠ lanes then
    .error "vector load destination tuple width mismatch"
  else if tables.moduleConstantSymbols.contains (parameterNameFromOperand address) then
    .error "vector load from a module constant is unsupported"
  else do
    let (base, emission) := tables.memoryAddressOperand emission address
      (.pointer (ptxScalarType opcode) (accessAddressSpace opcode))
    let emission ← (List.range' 1 (lanes - 1)).foldlM
      (tables.loadLane instruction base results resultTypes) emission
    .ok (emission, results.take 1, resultTypes.take 1)

/-- The address of a load (`2536-2577`). -/
def loadAddress (tables : ImportTables) (instruction : Ptx.Instruction) (address : String)
    (resultTypes : List IrType) (emission : Emission) : Except String (Operand × Emission) :=
  match tables.moduleConstantSymbols.find? (parameterNameFromOperand address) with
  | some offset =>
    match tables.moduleConstantBuffer with
    | none => .error "module constant buffer is unavailable"
    | some buffer =>
      let byteOffset := ((offset : Int) + memoryOperandOffset address).bmod (2 ^ 64)
      if byteOffset = 0 then .ok (buffer, emission)
      else
        .ok (emission.emit
          { opcode := .pointerOffset
            operands := [buffer, .immediate (toString byteOffset) (.integer 64)] }
          (.pointer (.integer 8) .constant))
  | none =>
    .ok (tables.memoryAddressOperand emission address
      (.pointer (resultTypes.headD {}) (accessAddressSpace instruction.opcode)))

/-- The attributes that every operation of an instruction begins with (`1887-1893`). -/
def firstAttributes (tables : ImportTables) (opcode : String) : AssocMap String String :=
  [("ptx_opcode", opcode)] ++
    if mentions opcode ".f64" then [("fp64_mode", tables.fp64Mode)] else []

/-- The types of the results (`1903-1913`). -/
def operationTypes (opcode : String) (resultTypes : List IrType) : List IrType :=
  if mentions opcode ".f64" then resultTypes.map fun _ => .floating 64 else resultTypes

/-- `translate_instruction` on `ld` (`2475-2587`). -/
def translateLoad (tables : ImportTables) (instruction : Ptx.Instruction) (results : List ValueId)
    (resultTypes : List IrType) (emission : Emission) : Except String Emission :=
  let opcode := instruction.opcode
  match instruction.operands with
  | _ :: address :: _ => do
    let (emission, results, resultTypes) ← tables.loadLanes instruction address results
      (operationTypes opcode resultTypes) emission
    let (pointer, emission) ← tables.loadAddress instruction address resultTypes emission
    let memoryType := ptxScalarType opcode
    let load ← tables.appendGuard
      { opcode := .load, results, resultTypes, operands := [pointer]
        attributes := tables.firstAttributes opcode ++
          [("address", address), ("memory_bit_width", toString memoryType.bitWidth)] ++
            (if hasSignedIntegerType opcode then [("signed", "true")] else []) ++
            [("alignment", toString memoryType.typeSize)] } instruction
    .ok (emission.push load)
  | _ => .error "malformed load"

/-- The store of a lane after the first (`2618-2640`). -/
def storeLane (tables : ImportTables) (instruction : Ptx.Instruction) (base : Operand)
    (laneRegisters : List String) (emission : Emission) (lane : Nat) : Except String Emission := do
  let opcode := instruction.opcode
  let elementType := ptxScalarType opcode
  let (pointer, emission) := emission.offsetBytes base ((lane * elementType.typeSize : Nat) : Int)
  let (stored, emission) := emission.container
    (tables.operandFor (laneRegisters.getD lane "") elementType) elementType
  let store ← tables.appendGuard
    { opcode := .store, operands := [pointer, stored]
      attributes := [("ptx_opcode", opcode), ("alignment", toString elementType.typeSize)] }
    instruction
  .ok (emission.push store)

/-- `translate_instruction` on `st` (`2588-2647`). -/
def translateStore (tables : ImportTables) (instruction : Ptx.Instruction) (results : List ValueId)
    (resultTypes : List IrType) (emission : Emission) : Except String Emission :=
  let opcode := instruction.opcode
  match instruction.operands with
  | address :: source :: _ => do
    let elementType := ptxScalarType opcode
    let (base, emission) := tables.memoryAddressOperand emission address
      (.pointer elementType (accessAddressSpace opcode))
    let lanes := memoryVectorWidth opcode
    let laneRegisters := registersIn source
    if lanes > 1 ∧ laneRegisters.length ≠ lanes then
      .error "vector store source tuple must name one register per lane"
    else
      let emission ← (List.range' 1 (lanes - 1)).foldlM
        (tables.storeLane instruction base laneRegisters) emission
      let (stored, emission) := emission.container
        (tables.operandFor (if lanes > 1 then laneRegisters.getD 0 "" else source) elementType)
        elementType
      let store ← tables.appendGuard
        { opcode := .store, results, resultTypes := operationTypes opcode resultTypes
          operands := [base, stored]
          attributes := tables.firstAttributes opcode ++
            [("address", address), ("alignment", toString elementType.typeSize)] } instruction
      .ok (emission.push store)
  | _ => .error "malformed store"

/-- The ordering of an atomic operation, and the attribute that says that a fence before it stands
for its acquire (`2711-2726`). -/
def atomicOrdering (opcode : String) (previous : Option Operation) :
    MemoryOrdering × AssocMap String String :=
  let ordering := memoryOrderingFromOpcode opcode
  match ordering, previous with
  | .acquire, some previous =>
    if previous.opcode = .fence ∧ previous.attributes.find? "cuda_membar" = some "true" ∧
        previous.memoryOrdering = .sequentiallyConsistent then
      (.relaxed, [("cuda_fenced_acquire_atomic", "true")])
    else (ordering, [])
  | _, _ => (ordering, [])

/-- `translate_instruction` on `atom` (`2687-2738`), with the operation that the block ends in. -/
def translateAtomic (tables : ImportTables) (instruction : Ptx.Instruction)
    (results : List ValueId) (resultTypes : List IrType) (previous : Option Operation)
    (emission : Emission) : Except String Emission := do
  let opcode := instruction.opcode
  let scope := memoryScopeFromOpcode opcode
  let atomicOperation := atomicOperationFromOpcode opcode
  if atomicOperation = "" then
    .error ("unsupported PTX atomic operation '" ++ opcode ++ "'")
  else
    let (ordering, fenced) := atomicOrdering opcode previous
    match instruction.operands with
    | _ :: address :: source :: more =>
      let type := ptxScalarType opcode
      let (pointer, emission) := tables.memoryAddressOperand emission address
        (.pointer type (if mentions opcode ".shared." then .threadgroup else .device))
      let atomic ← tables.appendGuard
        { opcode := .atomic, results, resultTypes := operationTypes opcode resultTypes
          operands := pointer :: (source :: more).map fun token => tables.operandFor token type
          memoryScope := scope, memoryOrdering := ordering
          attributes := tables.firstAttributes opcode ++ [("atomic_op", atomicOperation)] ++
            (if hasSignedIntegerType opcode then [("signed", "true")] else []) ++
            (if scope = .system then [("metal_uma_system_scope", "true")] else []) ++ fenced }
        instruction
      .ok (emission.push atomic)
    | _ => .error "malformed PTX atomic instruction"

/-- `translate_instruction` (`1876-3270`) on `ld`, `st`, `atom` and `red`, for which
`arithmetic_opcode` has no operation. -/
def translateAccess (tables : ImportTables) (instruction : Ptx.Instruction)
    (results : List ValueId) (resultTypes : List IrType) (previous : Option Operation)
    (emission : Emission) : Except String Emission :=
  let opcode := instruction.opcode
  let root := rootOpcode opcode
  if instruction.supported = false then .error ("unsupported PTX opcode '" ++ opcode ++ "'")
  else if root = "ld" then tables.translateLoad instruction results resultTypes emission
  else if root = "st" then tables.translateStore instruction results resultTypes emission
  else if root = "atom" then
    tables.translateAtomic instruction results resultTypes previous emission
  else .error ("PTX opcode '" ++ opcode ++ "' has no CuMetal IR normalization")

end ImportTables

end CuMetal.Ir
