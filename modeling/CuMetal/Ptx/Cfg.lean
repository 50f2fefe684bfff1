import CuMetal.Ir.Syntax
import CuMetal.Ptx.Instruction

/-!
# The control-flow graph of a PTX body

`Importer::build_cfg` of `compiler/ir/src/ptx_importer.cpp:1414-1472`.  An `Instruction*`
of the source is the index of the instruction in the body.
-/

namespace CuMetal.Ptx

open Ir (BlockId ValueId)

/-- `RawBlock` (`ptx_importer.cpp:22-30`). -/
structure RawBlock where
  id : BlockId := Ir.invalidBlock
  name : String := ""
  instructions : List Nat := []
  successors : List Nat := []
  predecessors : List Nat := []
  lastDefinitions : AssocMap String ValueId := []
  usesBeforeDefinition : List String := []
  deriving DecidableEq, Repr, Inhabited

def instructionAt (body : List Instruction) (i : Nat) : Instruction := body.getD i {}

/-- The instruction at index `i` starts a block (`ptx_importer.cpp:1416-1424`). -/
def isLeader (body : List Instruction) (i : Nat) : Bool :=
  isLabel (instructionAt body i) ||
    (0 < i && isTerminatingInstruction (instructionAt body (i - 1)))

/-- `leader_list`, the sorted contents of the set `leaders`, which always holds 0. -/
def leaderList (body : List Instruction) : List Nat :=
  0 :: (List.range' 1 (body.length - 1)).filter (isLeader body)

/-- `leader_list[block_index]`. -/
def blockBegin (body : List Instruction) (index : Nat) : Nat := (leaderList body).getD index 0

/-- `end` of a block: the next leader or the end of the body. -/
def blockEnd (body : List Instruction) (index : Nat) : Nat :=
  (leaderList body).getD (index + 1) body.length

def blockIndices (body : List Instruction) (index : Nat) : List Nat :=
  List.range' (blockBegin body index) (blockEnd body index - blockBegin body index)

/-- The instructions of a block: what it covers without the labels. -/
def blockInstructions (body : List Instruction) (index : Nat) : List Nat :=
  (blockIndices body index).filter fun i => !isLabel (instructionAt body i)

/-- The name that a label gives, `instruction.operands.front()`. -/
def labelName (instruction : Instruction) : Option String :=
  if isLabel instruction then instruction.operands.head? else none

/-- The name of a block (`ptx_importer.cpp:1432-1441`): the last label in it. -/
def blockName (body : List Instruction) (index : Nat) : String :=
  (blockIndices body index).foldl
    (fun name i => (labelName (instructionAt body i)).getD name) ("bb" ++ toString index)

/-- The assignments to `label_blocks`, in program order. -/
def labelEntries (body : List Instruction) : List (String × Nat) :=
  (List.range (leaderList body).length).flatMap fun index =>
    (blockIndices body index).filterMap fun i =>
      (labelName (instructionAt body i)).map fun name => (name, index)

/-- `label_blocks`: a later label of the same name replaces an earlier one. -/
def labelBlocks (body : List Instruction) : AssocMap String Nat :=
  AssocMap.assignAll [] (labelEntries body)

/-- The index of the last instruction of a block, `block.instructions.back()`. -/
def lastInstruction (body : List Instruction) (index : Nat) : Option Nat :=
  (blockInstructions body index).getLast?

def fallThrough (body : List Instruction) (index : Nat) : List Nat :=
  if index + 1 < (leaderList body).length then [index + 1] else []

/-- The successors of a block (`ptx_importer.cpp:1446-1466`). -/
def blockSuccessors (body : List Instruction) (index : Nat) : List Nat :=
  match lastInstruction body index with
  | none => fallThrough body index
  | some i =>
    let last := instructionAt body i
    if rootOpcode last.opcode = "bra" then
      ((labelBlocks body).find? (branchTarget last)).toList ++
        if isConditionalBranch last then fallThrough body index else []
    else if rootOpcode last.opcode ≠ "ret" && rootOpcode last.opcode ≠ "exit" &&
        rootOpcode last.opcode ≠ "trap" then
      fallThrough body index
    else []

/-- The predecessors of a block, one for each edge (`ptx_importer.cpp:1467-1471`). -/
def blockPredecessors (body : List Instruction) (target : Nat) : List Nat :=
  (List.range (leaderList body).length).flatMap fun index =>
    (blockSuccessors body index).filterMap fun successor =>
      if successor = target then some index else none

/-- `build_cfg`; `nextBlock` is the first identifier that the builder hands out. -/
def buildCfg (nextBlock : BlockId) (body : List Instruction) : List RawBlock :=
  (List.range (leaderList body).length).map fun index =>
    { id := nextBlock + index
      name := blockName body index
      instructions := blockInstructions body index
      successors := blockSuccessors body index
      predecessors := blockPredecessors body index }

end CuMetal.Ptx
