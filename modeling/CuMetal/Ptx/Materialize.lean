import CuMetal.Ptx.Ssa

/-!
# The imported function

`Importer::materialize_function` of `compiler/ir/src/ptx_importer.cpp:3289-3735`: the
blocks with their arguments and their terminators.  The translation of the instructions
between the terminators, the arguments and the kernel ABI are parameters.
-/

namespace CuMetal.Ptx

open Ir (BlockId ValueId IrType Successor Operand Operation BasicBlock Function)

/-- What the translation of the instructions of a block leaves: its operations, the
    environment after them, and what a `ret` of the block returns, with the operations
    that convert it, or the message if there is nothing to return. -/
structure BlockBody where
  operations : List Operation := []
  environment : Environment := []
  returned : Except String (List Operation × List Operand) := .ok ([], [])

/-- The parts of the importer that do not decide where control goes. -/
structure Translator where
  /-- The function before its blocks: name, kind, arguments, kernel ABI, provenance. -/
  header : Function := {}
  /-- The allocations of the local depots (`ptx_importer.cpp:3558-3582`). -/
  depots : List Operation := []
  /-- `translate_instruction` over the instructions of a block. -/
  translateBlock : SsaState → Nat → Environment → Except String BlockBody
  sourceName : String := ""

/-- `fail` (`ptx_importer.cpp:1320-1326`): the message with the line of the instruction. -/
def failAt (instruction : Instruction) (message : String) : String :=
  if instruction.line ≠ 0 then "line " ++ toString instruction.line ++ ": " ++ message
  else message

def locationOf (translator : Translator) (instruction : Instruction) : Ir.SourceLocation :=
  { file := translator.sourceName, line := instruction.line.toNat }

/-- `make_successor` with the exception of `at` as an error. -/
def successorTo (state : SsaState) (source target : Nat) : Except String Successor :=
  match makeSuccessor state source target with
  | none => .error "unordered_map::at"
  | some successor => .ok successor

/-- The terminator of a block that ends in a `bra` (`ptx_importer.cpp:3595-3623`). -/
def branchTerminator (state : SsaState) (translator : Translator) (index : Nat)
    (last : Instruction) (environment : Environment) : Except String Operation :=
  match (blockAt state.blocks index).successors with
  | [] => .error (failAt last ("branch target '" ++ branchTarget last ++ "' does not exist"))
  | front :: rest =>
    if isConditionalBranch last then
      match environment.find? (normalizedPredicate last.predicate).1 with
      | none => .error (failAt last ("branch predicate '" ++
          (normalizedPredicate last.predicate).1 ++ "' is undefined"))
      | some predicate => do
        let successors ← (front :: rest).mapM (successorTo state index)
        return {
          opcode := .condBranch
          operands := [.valueRef predicate
            ((state.allocation.valueTypes.find? predicate).getD {})]
          attributes := [("inverted",
            if (normalizedPredicate last.predicate).2 then "true" else "false")]
          successors
          location := locationOf translator last }
    else do
      let successor ← successorTo state index front
      return {
        opcode := .branch
        successors := [successor]
        location := locationOf translator last }

def returnsValue (header : Function) : Bool :=
  !header.isKernel && header.returnType.kind != .void

/-- The terminator of a block with the operations before it (`ptx_importer.cpp:3589-3696`). -/
def terminator (state : SsaState) (translator : Translator) (index : Nat)
    (last : Option Instruction) (translated : BlockBody) :
    Except String (List Operation × Operation) :=
  let root := (last.map fun instruction => rootOpcode instruction.opcode).getD ""
  let instruction := last.getD {}
  if root = "bra" then do
    let branch ← branchTerminator state translator index instruction translated.environment
    return ([], branch)
  else if root = "trap" then
    .ok ([], { opcode := .trap, location := locationOf translator instruction })
  else if root = "ret" || root = "exit" then
    if returnsValue translator.header then do
      let (conversions, operands) ← translated.returned
      return (conversions,
        { opcode := .return, operands, location := locationOf translator instruction })
    else .ok ([], { opcode := .return, location := locationOf translator instruction })
  else
    match (blockAt state.blocks index).successors with
    | front :: _ => do
      let successor ← successorTo state index front
      return ([], { opcode := .branch, successors := [successor] })
    | [] =>
      if returnsValue translator.header then
        .error (failAt instruction
          "non-void PTX device function falls through without a return value")
      else .ok ([], { opcode := .return })

/-- The definitions of the registers without a first value (`ptx_importer.cpp:3545-3556`). -/
def implicitDefinitions (state : SsaState) : List Operation :=
  state.allocation.implicitValues.map fun implicit =>
    let type := (state.allocation.valueTypes.find? implicit.2).getD {}
    { opcode := .convert
      results := [implicit.2]
      resultTypes := [type]
      operands := [{ kind := .immediate, type, text := "0" }]
      attributes := [("ptx_implicit_def", implicit.1)] }

/-- One block of the function. -/
def materializeBlock (body : List Instruction) (state : SsaState) (translator : Translator)
    (index : Nat) : Except String BasicBlock := do
  let block := blockAt state.blocks index
  let translated ← translator.translateBlock state index (environmentAt state.incoming index)
  let last := block.instructions.getLast?.map (instructionAt body)
  let (conversions, final) ← terminator state translator index last translated
  return {
    id := block.id
    name := block.name
    arguments := (environmentAt state.blockArguments index).map fun argument =>
      { value := argument.2
        type := (state.allocation.valueTypes.find? argument.2).getD {}
        name := argument.1 }
    operations :=
      (if index = 0 then implicitDefinitions state ++ translator.depots else []) ++
        translated.operations ++ conversions ++ [final] }

/-- `materialize_function`. -/
def materializeFunction (body : List Instruction) (state : SsaState)
    (translator : Translator) : Except String Function := do
  let blocks ← (List.range state.blocks.length).mapM (materializeBlock body state translator)
  return { translator.header with blocks }

def importBody (context : ImportContext) (translator : Translator) (body : List Instruction) :
    Except String (SsaState × Function) := do
  let state ← importSsa context body
  let function ← materializeFunction body state translator
  return (state, function)

end CuMetal.Ptx
