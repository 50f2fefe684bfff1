import CuMetal.Lib.Collect
import CuMetal.Lib.Fixpoint
import CuMetal.Ir.Syntax
import Mathlib.Data.Finset.Card

/-!
# The IR verifier

`verify` of `compiler/ir/src/ir.cpp:306-606`, one definition for each loop of the
source.  Every loop reports diagnostics; the module is accepted when there are none.
-/

namespace CuMetal.Ir

/-- `address_space_name` (`ir.cpp:194-208`). -/
def addressSpaceName : AddressSpace → String
  | .none => "none"
  | .device => "device"
  | .constant => "constant"
  | .threadgroup => "threadgroup"
  | .privateSpace => "private"

mutual

/-- `Type::str` (`ir.cpp:103-131`). -/
def IrType.str : IrType → String
  | ⟨.void, _, _, _, _, _⟩ => "void"
  | ⟨.predicate, _, _, _, _, _⟩ => "pred"
  | ⟨.integer, bits, _, _, _, _⟩ => "i" ++ toString bits
  | ⟨.float, bits, _, _, _, _⟩ => "f" ++ toString bits
  | ⟨.vector, _, lanes, _, elements, _⟩ =>
    "vector<" ++ toString lanes ++ "x" ++ frontStr elements ++ ">"
  | ⟨.pointer, _, _, space, elements, _⟩ =>
    "ptr<" ++ addressSpaceName space ++ ", " ++ frontStr elements ++ ">"
  | ⟨.aggregate, _, _, _, elements, _⟩ => "struct<" ++ elementsStr elements ++ ">"

def frontStr : List IrType → String
  | [] => "?"
  | front :: _ => front.str

def elementsStr : List IrType → String
  | [] => ""
  | [element] => element.str
  | element :: next :: rest => element.str ++ ", " ++ elementsStr (next :: rest)

end

mutual

/-- `natural_size` (`ir.cpp:11-32`); `std::uint32_t` sums and products wrap. -/
def naturalSize : IrType → Nat
  | ⟨.pointer, _, _, _, _, _⟩ => 8
  | ⟨.predicate, _, _, _, _, _⟩ => 1
  | ⟨.integer, bits, _, _, _, _⟩ | ⟨.float, bits, _, _, _, _⟩ => max 1 (bits / 8)
  | ⟨.vector, _, lanes, _, elements, _⟩ => frontSize elements * lanes % 2 ^ 32
  | ⟨.aggregate, _, _, _, elements, _⟩ => elementsSize elements
  | ⟨.void, _, _, _, _, _⟩ => 0

def frontSize : List IrType → Nat
  | [] => 0
  | front :: _ => naturalSize front

def elementsSize : List IrType → Nat
  | [] => 0
  | element :: rest => (naturalSize element + elementsSize rest) % 2 ^ 32

end

/-- `ValueDefinition` (`ir.cpp:38-44`). -/
structure ValueDefinition where
  type : IrType := {}
  block : BlockId := invalidBlock
  operationIndex : Nat := 0
  functionArgument : Bool := false
  blockArgument : Bool := false
  deriving DecidableEq, Repr, Inhabited

/-- `VerifyResult` (`ir.h:352-355`). -/
structure VerifyResult where
  ok : Bool
  diagnostics : List Diagnostic
  deriving DecidableEq, Repr

def complain (condition : Bool) (message : String) (location : SourceLocation := {}) :
    List Diagnostic :=
  if condition then [{ location, message }] else []

/-- One step of the `function_names` loop (`ir.cpp:310-314`). -/
def registerName (names : List String) (function : Function) :
    List String × List Diagnostic :=
  let rejected := function.name == "" || names.contains function.name
  (if rejected then names else names ++ [function.name],
    complain rejected "function names must be non-empty and unique")

/-- The header checks of a function with blocks (`ir.cpp:323-337`). -/
def headerDiagnostics (function : Function) : List Diagnostic :=
  complain (function.isKernel && function.kernelAbi.isNone)
      ("kernel '" ++ function.name ++ "' is missing ABI metadata") ++
    complain ((function.kernelAbi.map fun abi => abi.requiredSimdWidth != 32).getD false)
      ("kernel '" ++ function.name ++ "' must require SIMD width 32") ++
    function.arguments.flatMap fun argument =>
      complain (argument.type.isPointer && !function.pointerProvenance.contains argument.value)
        ("pointer argument '" ++ argument.name ++ "' is missing pointer provenance")

/-- `block_indices` and `block_names` (`ir.cpp:339-340`). -/
structure BlockTables where
  blockIndices : AssocMap BlockId Nat := []
  blockNames : AssocMap String BlockId := []

/-- One step of the block loop (`ir.cpp:341-358`). -/
def registerBlock (function : Function) (tables : BlockTables) (indexed : BasicBlock × Nat) :
    BlockTables × List Diagnostic :=
  let block := indexed.1
  let idRejected := block.id == invalidBlock || tables.blockIndices.contains block.id
  let nameRejected := block.name == "" || tables.blockNames.contains block.name
  ({ blockIndices :=
        if idRejected then tables.blockIndices
        else tables.blockIndices.emplace block.id indexed.2
     blockNames :=
        if nameRejected then tables.blockNames
        else tables.blockNames.emplace block.name block.id },
    complain idRejected
        ("function '" ++ function.name ++ "' has duplicate/invalid block IDs") ++
      complain nameRejected
        ("function '" ++ function.name ++ "' has duplicate/empty block names") ++
      complain (!(block.operations.getLast?.map Operation.isTerminator).getD false)
        ("block '" ++ block.name ++ "' is missing a terminator") ++
      block.operations.dropLast.flatMap fun operation =>
        complain operation.isTerminator
          ("terminator must be the final operation in block '" ++ block.name ++ "'")
          operation.location)

/-- The tables after every block of the function. -/
def blockTables (function : Function) : BlockTables × List Diagnostic :=
  collect (registerBlock function) {} function.blocks.zipIdx

/-- The checks of one successor edge (`ir.cpp:366-378`). -/
def successorDiagnostics (function : Function) (blockIndices : AssocMap BlockId Nat)
    (block : BasicBlock) (operation : Operation) (successor : Successor) : List Diagnostic :=
  match blockIndices.find? successor.block with
  | none =>
    complain true ("operation in block '" ++ block.name ++ "' targets an unknown block")
      operation.location
  | some target =>
    let targetBlock := function.blocks.getD target {}
    complain (successor.arguments.length != targetBlock.arguments.length)
      ("edge to block '" ++ targetBlock.name ++
        "' supplies the wrong number of block arguments") operation.location

/-- The edge loop of the whole function (`ir.cpp:362-381`). -/
def edgeDiagnostics (function : Function) (blockIndices : AssocMap BlockId Nat) :
    List Diagnostic :=
  function.blocks.flatMap fun block => block.operations.flatMap fun operation =>
    operation.successors.flatMap (successorDiagnostics function blockIndices block operation)

/-- `predecessors[target]` (`ir.cpp:361-381`): one entry for each edge, in program order. -/
def predecessors (function : Function) (blockIndices : AssocMap BlockId Nat) (target : Nat) :
    List Nat :=
  function.blocks.zipIdx.flatMap fun indexed => indexed.1.operations.flatMap fun operation =>
    operation.successors.flatMap fun successor =>
      if blockIndices.find? successor.block = some target then [indexed.2] else []

/-- `dominators[block]`. -/
def dominatorsAt (dominators : List (Finset Nat)) (block : Nat) : Finset Nat :=
  dominators.getD block ∅

/-- The set computed for block `i` (`ir.cpp:397-406`). -/
def nextDominators (predecessors : Nat → List Nat) (dominators : List (Finset Nat)) (i : Nat) :
    Finset Nat :=
  let meet :=
    match predecessors i with
    | [] => ∅
    | front :: _ =>
      (predecessors i).foldl
        (fun next predecessor =>
          next.filter fun candidate => candidate ∈ dominatorsAt dominators predecessor)
        (dominatorsAt dominators front)
  insert i meet

/-- The body of the `for` loop of the fixpoint (`ir.cpp:396-411`). -/
def updateDominators (predecessors : Nat → List Nat) (state : List (Finset Nat) × Bool)
    (i : Nat) : List (Finset Nat) × Bool :=
  if nextDominators predecessors state.1 i ≠ dominatorsAt state.1 i then
    (state.1.set i (nextDominators predecessors state.1 i), true)
  else state

/-- One pass over the blocks after the first, with the `changed` flag. -/
def dominatorPass (predecessors : Nat → List Nat) (dominators : List (Finset Nat)) :
    List (Finset Nat) × Bool :=
  (List.range' 1 (dominators.length - 1)).foldl (updateDominators predecessors)
    (dominators, false)

/-- The sets before the loop (`ir.cpp:383-392`). -/
def initialDominators (blockCount : Nat) : List (Finset Nat) :=
  (List.range blockCount).map fun i => if i = 0 then {0} else Finset.range blockCount

/-- `dominators` of a function (`ir.cpp:383-412`).  A pass that changes something
    removes a member from some set, so `block_count * block_count + 1` passes are
    enough (`computeDominators_stable`). -/
def computeDominators (function : Function) (blockIndices : AssocMap BlockId Nat) :
    List (Finset Nat) :=
  untilUnchanged (dominatorPass (predecessors function blockIndices))
    (function.blocks.length * function.blocks.length + 1)
    (initialDominators function.blocks.length)

/-- What the definition loop meets, in program order (`ir.cpp:414-458`): a value with
    its definition and the message if it is rejected, or an operation whose result
    and type counts differ. -/
inductive DefinitionItem where
  | define (value : ValueId) (definition : ValueDefinition) (location : SourceLocation)
      (message : String)
  | arityMismatch (location : SourceLocation)

/-- The definition of result `index` of an operation (`ir.cpp:441-453`). -/
def resultDefinition (block : BasicBlock) (opIndex : Nat) (operation : Operation)
    (index : Nat) : ValueDefinition :=
  { type := operation.resultTypes.getD index IrType.voidType
    block := block.id
    operationIndex := opIndex }

def operationItems (block : BasicBlock) (indexed : Operation × Nat) : List DefinitionItem :=
  (if indexed.1.results.length != indexed.1.resultTypes.length then
      [.arityMismatch indexed.1.location] else []) ++
    indexed.1.results.zipIdx.map fun result =>
      .define result.1 (resultDefinition block indexed.2 indexed.1 result.2)
        indexed.1.location "operation defines a duplicate/invalid value"

/-- The items of a block: its arguments, then its operations. -/
def blockItems (block : BasicBlock) : List DefinitionItem :=
  (block.arguments.map fun argument =>
      .define argument.value
        { type := argument.type, block := block.id, blockArgument := true } {}
        ("block '" ++ block.name ++ "' has duplicate/invalid argument values")) ++
    block.operations.zipIdx.flatMap (operationItems block)

def definitionItems (function : Function) : List DefinitionItem :=
  (function.arguments.map fun argument =>
      .define argument.value { type := argument.type, functionArgument := true } {}
        ("function '" ++ function.name ++ "' has duplicate/invalid argument values")) ++
    function.blocks.flatMap blockItems

/-- One step of the definition loop. -/
def registerDefinition (definitions : AssocMap ValueId ValueDefinition) :
    DefinitionItem → AssocMap ValueId ValueDefinition × List Diagnostic
  | .define value definition location message =>
    let rejected := value == invalidValue || definitions.contains value
    (if rejected then definitions else definitions.emplace value definition,
      complain rejected message location)
  | .arityMismatch location =>
    (definitions, complain true "operation result/type arity mismatch" location)

/-- The map `definitions` of the function. -/
def valueDefinitions (function : Function) :
    AssocMap ValueId ValueDefinition × List Diagnostic :=
  collect registerDefinition [] (definitionItems function)

/-- The tables the use checks read. -/
structure FunctionTables where
  blockIndices : AssocMap BlockId Nat
  dominators : List (Finset Nat)
  definitions : AssocMap ValueId ValueDefinition

/-- The place of an operand: block index, operation index, source location. -/
structure UseSite where
  blockIndex : Nat
  opIndex : Nat
  location : SourceLocation

/-- The check of one operand (`ir.cpp:464-500`). -/
def operandDiagnostics (tables : FunctionTables) (site : UseSite) (operand : Operand) :
    List Diagnostic :=
  if operand.kind ≠ .value then []
  else
    match tables.definitions.find? operand.value with
    | none =>
      complain true ("operation uses undefined value %" ++ toString operand.value)
        site.location
    | some definition =>
      complain (operand.type != definition.type)
          ("operand type " ++ operand.type.str ++ " does not match value %" ++
            toString operand.value ++ " type " ++ definition.type.str) site.location ++
        if definition.functionArgument then []
        else
          match tables.blockIndices.find? definition.block with
          | none => []
          | some definitionBlock =>
            if definitionBlock = site.blockIndex then
              complain (!definition.blockArgument && definition.operationIndex ≥ site.opIndex)
                ("value %" ++ toString operand.value ++ " is used before its definition")
                site.location
            else
              complain (definitionBlock ∉ dominatorsAt tables.dominators site.blockIndex)
                ("value %" ++ toString operand.value ++ " does not dominate its use")
                site.location

/-- Whether an attribute is present with the value `true`. -/
def Operation.flag (operation : Operation) (name : String) : Bool :=
  operation.attributes.find? name == some "true"

/-- The check of an address-space cast (`ir.cpp:502-512`). -/
def castDiagnostics (operation : Operation) : List Diagnostic :=
  match operation.opcode, operation.operands, operation.resultTypes with
  | .addressSpaceCast, source :: _, target :: _ =>
    complain (!source.type.isPointer || !target.isPointer ||
        source.type.addressSpace == .none || target.addressSpace == .none)
      "address-space casts require explicit pointer address spaces" operation.location
  | _, _, _ => []

/-- The checks of an atomic (`ir.cpp:518-534`). -/
def atomicDiagnostics (operation : Operation) : List Diagnostic :=
  if operation.opcode ≠ .atomic then []
  else
    complain (operation.memoryOrdering == .none || operation.memoryScope == .none)
        "atomic operation requires typed memory ordering and scope" operation.location ++
      complain (operation.memoryScope == .system && !operation.flag "metal_uma_system_scope")
        "system-scope atomics require an explicit backend policy" operation.location ++
      complain (operation.memoryOrdering == .sequentiallyConsistent)
        "sequentially-consistent atomics require an explicit backend policy" operation.location

/-- The check of a call (`ir.cpp:544-556`). -/
def callDiagnostics (functionNames : List String) (operation : Operation) : List Diagnostic :=
  if operation.opcode ≠ .call then []
  else
    match operation.attributes.find? "callee" with
    | none =>
      complain true "device calls must be direct and resolve within the module"
        operation.location
    | some callee =>
      if operation.flag "indirect" then
        complain true "device calls must be direct and resolve within the module"
          operation.location
      else
        complain (!operation.flag "builtin" && !functionNames.contains callee)
          ("device call target '" ++ callee ++ "' is not defined in the module")
          operation.location

/-- The callee that the call graph records (`ir.cpp:557-560`). -/
def recordedCallee (functionNames : List String) (operation : Operation) : Option String :=
  if operation.opcode ≠ .call || operation.flag "indirect" || operation.flag "builtin" then none
  else
    match operation.attributes.find? "callee" with
    | none => none
    | some callee => if functionNames.contains callee then some callee else none

/-- The checks of one operation besides its operands (`ir.cpp:502-561`). -/
def legalityDiagnostics (stage : IrStage) (functionNames : List String)
    (operation : Operation) : List Diagnostic :=
  castDiagnostics operation ++
    complain (operation.opcode == .barrier && operation.attributes.contains "predicate")
      "predicated barriers are not legal in CuMetal GPU IR" operation.location ++
    atomicDiagnostics operation ++
    complain (stage == .gpuSemantic && isMetalOpcode operation.opcode)
      "Metal operation is illegal before Metal legalization" operation.location ++
    complain (stage == .metalLegalized && isGpuSemanticOpcode operation.opcode)
      "GPU semantic operation survived Metal legalization" operation.location ++
    callDiagnostics functionNames operation

/-- The use loop (`ir.cpp:460-563`). -/
def useDiagnostics (stage : IrStage) (functionNames : List String) (function : Function)
    (tables : FunctionTables) : List Diagnostic :=
  function.blocks.zipIdx.flatMap fun block => block.1.operations.zipIdx.flatMap fun operation =>
    (operation.1.operands.flatMap
        (operandDiagnostics tables ⟨block.2, operation.2, operation.1.location⟩)) ++
      legalityDiagnostics stage functionNames operation.1

/-- The ABI checks of a kernel (`ir.cpp:565-582`). -/
def abiDiagnostics (function : Function) : List Diagnostic :=
  match function.kernelAbi with
  | none => []
  | some abi => abi.arguments.flatMap fun argument =>
    complain (argument.size == 0 || argument.alignment == 0)
        ("kernel argument '" ++ argument.name ++ "' has invalid size/alignment") ++
      complain (argument.type.isPointer && argument.addressSpace == .none)
        ("pointer kernel argument '" ++ argument.name ++ "' is missing an address space") ++
      complain (argument.size < naturalSize argument.type && !argument.type.isPointer)
        ("kernel argument '" ++ argument.name ++ "' is smaller than its type")

def functionTables (function : Function) : FunctionTables :=
  { blockIndices := (blockTables function).1.blockIndices
    dominators := computeDominators function (blockTables function).1.blockIndices
    definitions := (valueDefinitions function).1 }

/-- The body of the function loop (`ir.cpp:317-583`). -/
def functionDiagnostics (stage : IrStage) (functionNames : List String) (function : Function) :
    List Diagnostic :=
  if function.name = "" then []
  else if function.blocks = [] then
    complain true ("function '" ++ function.name ++ "' has no basic blocks")
  else
    headerDiagnostics function ++
      (blockTables function).2 ++
      edgeDiagnostics function (functionTables function).blockIndices ++
      (valueDefinitions function).2 ++
      useDiagnostics stage functionNames function (functionTables function) ++
      abiDiagnostics function

/-- `call_graph[caller]`, each callee once (`ir.cpp:316`, `559`). -/
def calleesOf (functionNames : List String) (functions : List Function) (caller : String) :
    List String :=
  ((functions.filter fun function => function.name = caller).flatMap fun function =>
    function.blocks.flatMap fun block =>
      block.operations.filterMap (recordedCallee functionNames)).dedup

/-- `VisitState` (`ir.cpp:585`). -/
inductive VisitState where
  | unvisited
  | visiting
  | visited
  deriving DecidableEq, Repr, Inhabited

/-- `visit_state[name]`, which default-constructs to `kUnvisited`. -/
def visitStateOf (states : AssocMap String VisitState) (name : String) : VisitState :=
  (states.find? name).getD .unvisited

/-- `visit` (`ir.cpp:587-599`).  A nested call is for a name that is not yet marked,
    so the number of function names bounds the depth. -/
def visit (callees : String → List String) :
    Nat → AssocMap String VisitState → String → AssocMap String VisitState × List Diagnostic
  | 0, states, _ => (states, [])
  | depth + 1, states, function =>
    let walked := collect
      (fun states callee =>
        match visitStateOf states callee with
        | .visiting =>
          (states, complain true
            ("recursive device-call cycle involving '" ++ callee ++ "' is unsupported"))
        | .unvisited => visit callees depth states callee
        | .visited => (states, []))
      (states.assign function .visiting) (callees function)
    (walked.1.assign function .visited, walked.2)

/-- The loop over the function names (`ir.cpp:600-602`). -/
def recursionDiagnostics (functionNames : List String) (functions : List Function) :
    List Diagnostic :=
  (collect
    (fun states function =>
      if visitStateOf states function = .unvisited then
        visit (calleesOf functionNames functions) functionNames.length states function
      else (states, []))
    [] functionNames).2

/-- `verify` (`ir.cpp:306-606`). -/
def verify (module : IrModule) : VerifyResult :=
  let names := collect registerName [] module.functions
  let diagnostics :=
    names.2 ++ module.functions.flatMap (functionDiagnostics module.stage names.1) ++
      recursionDiagnostics names.1 module.functions
  { ok := diagnostics.isEmpty, diagnostics }

end CuMetal.Ir
