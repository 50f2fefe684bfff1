import CuMetal.Ir.Verify
import CuMetal.Ptx.Cfg

/-!
# From registers to SSA values

`Importer::allocate_values`, `Importer::construct_ssa` and `Importer::make_successor` of
`compiler/ir/src/ptx_importer.cpp:1684-1822`, `3279-3287`.
-/

namespace CuMetal.Ptx

open Ir (BlockId ValueId IrType Successor)

/-- What the importer knows before these passes: the register types that were inferred,
    the registers that `// implicit-def:` comments name, and its builder. -/
structure ImportContext where
  registerTypes : AssocMap String IrType := []
  implicitDefinitions : List String := []
  nextValue : ValueId := 1
  nextBlock : BlockId := 1

def ImportContext.registerType (context : ImportContext) (name : String) : IrType :=
  (context.registerTypes.find? name).getD (.integer 32)

/-- SSA environments, `std::unordered_map<std::string, ValueId>`. -/
abbrev Environment := AssocMap String ValueId

/-- The builder and the maps that `allocate_values` fills. -/
structure Allocation where
  nextValue : ValueId := 1
  valueTypes : AssocMap ValueId IrType := []
  implicitValues : Environment := []
  instructionResults : AssocMap Nat (List ValueId) := []
  deriving Inhabited

def Allocation.fresh (context : ImportContext) (state : Allocation) (name : String) :
    Allocation :=
  { state with
    nextValue := state.nextValue + 1
    valueTypes := state.valueTypes.assign state.nextValue (context.registerType name) }

/-- One step of the first loop (`ptx_importer.cpp:1685-1691`). -/
def allocateImplicit (context : ImportContext) (state : Allocation) (name : String) :
    Allocation :=
  { state.fresh context name with
    implicitValues := state.implicitValues.assign name state.nextValue }

/-- The state of the loop over the instructions of a block. -/
structure BlockScan where
  allocation : Allocation
  block : RawBlock
  locallyDefined : List String := []

/-- A source that no earlier instruction of the block defines (`ptx_importer.cpp:1695-1699`). -/
def scanSource (scan : BlockScan) (source : String) : BlockScan :=
  if scan.locallyDefined.contains source || scan.block.usesBeforeDefinition.contains source then
    scan
  else
    { scan with
      block := { scan.block with
        usesBeforeDefinition := scan.block.usesBeforeDefinition ++ [source] } }

/-- A destination (`ptx_importer.cpp:1701-1709`). -/
def scanDestination (context : ImportContext) (state : BlockScan × List ValueId)
    (destination : String) : BlockScan × List ValueId :=
  let value := state.1.allocation.nextValue
  ({ allocation := state.1.allocation.fresh context destination
     block := { state.1.block with
        lastDefinitions := state.1.block.lastDefinitions.assign destination value }
     locallyDefined := state.1.locallyDefined ++ [destination] },
    state.2 ++ [value])

/-- One instruction (`ptx_importer.cpp:1694-1711`). -/
def allocateInstruction (context : ImportContext) (body : List Instruction) (scan : BlockScan)
    (i : Nat) : BlockScan :=
  let read := (sourceRegisters (instructionAt body i)).foldl scanSource scan
  let written := (destinationRegisters (instructionAt body i)).foldl (scanDestination context)
    (read, [])
  { written.1 with
    allocation := { written.1.allocation with
      instructionResults := written.1.allocation.instructionResults.assign i written.2 } }

/-- One block (`ptx_importer.cpp:1692-1712`). -/
def allocateBlock (context : ImportContext) (body : List Instruction)
    (state : Allocation × List RawBlock) (block : RawBlock) : Allocation × List RawBlock :=
  let scan := block.instructions.foldl (allocateInstruction context body)
    { allocation := state.1, block }
  (scan.allocation, state.2 ++ [scan.block])

/-- `allocate_values` (`ptx_importer.cpp:1684-1713`). -/
def allocateValues (context : ImportContext) (body : List Instruction)
    (blocks : List RawBlock) : Allocation × List RawBlock :=
  blocks.foldl (allocateBlock context body)
    (context.implicitDefinitions.foldl (allocateImplicit context)
      { nextValue := context.nextValue }, [])

/-- `live_in` and `live_out` (`ptx_importer.cpp:1725-1726`). -/
structure Liveness where
  liveIn : List (Finset String)
  liveOut : List (Finset String)
  deriving DecidableEq

def blockAt (blocks : List RawBlock) (index : Nat) : RawBlock := blocks.getD index {}

theorem blockAt_mem {blocks : List RawBlock} {index : Nat} (bound : index < blocks.length) :
    blockAt blocks index ∈ blocks := by
  rw [blockAt, List.getD_eq_getElem?_getD, List.getElem?_eq_getElem bound]
  exact List.getElem_mem bound

/-- A set of names, `sets[index]`. -/
def namesAt (sets : List (Finset String)) (index : Nat) : Finset String := sets.getD index ∅

/-- `next_out` (`ptx_importer.cpp:1733-1736`). -/
def nextLiveOut (blocks : List RawBlock) (state : Liveness) (index : Nat) : Finset String :=
  (blockAt blocks index).successors.foldl
    (fun names successor => names ∪ namesAt state.liveIn successor) ∅

/-- `next_in` (`ptx_importer.cpp:1737-1743`). -/
def nextLiveIn (block : RawBlock) (nextOut : Finset String) : Finset String :=
  block.usesBeforeDefinition.toFinset ∪
    nextOut.filter fun name => !block.lastDefinitions.contains name

/-- One block of the liveness loop (`ptx_importer.cpp:1730-1749`). -/
def updateLiveness (blocks : List RawBlock) (state : Liveness × Bool) (index : Nat) :
    Liveness × Bool :=
  let nextOut := nextLiveOut blocks state.1 index
  let nextIn := nextLiveIn (blockAt blocks index) nextOut
  if nextIn ≠ namesAt state.1.liveIn index || nextOut ≠ namesAt state.1.liveOut index then
    ({ liveIn := state.1.liveIn.set index nextIn
       liveOut := state.1.liveOut.set index nextOut }, true)
  else state

/-- One pass over the blocks, last block first, with the `liveness_changed` flag. -/
def livenessPass (blocks : List RawBlock) (state : Liveness) : Liveness × Bool :=
  (List.range blocks.length).reverse.foldl (updateLiveness blocks) (state, false)

/-- Every name that some block reads before it defines it. -/
def usedNames (blocks : List RawBlock) : Finset String :=
  (blocks.flatMap RawBlock.usesBeforeDefinition).toFinset

/-- The `while (liveness_changed)` loop (`ptx_importer.cpp:1727-1750`).  A pass that
    changes something adds a used name to some set, so the bound is not met
    (`computeLiveness_stable`). -/
def computeLiveness (blocks : List RawBlock) : Liveness :=
  untilUnchanged (livenessPass blocks)
    (2 * blocks.length * (usedNames blocks).card + 1)
    { liveIn := blocks.map fun _ => ∅, liveOut := blocks.map fun _ => ∅ }

def insertSorted (name : String) : List String → List String
  | [] => [name]
  | head :: tail =>
    if name = head then head :: tail
    else if name < head then name :: head :: tail
    else head :: insertSorted name tail

/-- The names of a set in the order of `std::set`: live names are used names. -/
def sortedNames (blocks : List RawBlock) (names : Finset String) : List String :=
  ((blocks.flatMap RawBlock.usesBeforeDefinition).foldr insertSorted []).filter (· ∈ names)

/-- One argument (`ptx_importer.cpp:1759-1765`). -/
def allocateArgument (context : ImportContext) (state : Allocation × Environment)
    (name : String) : Allocation × Environment :=
  (state.1.fresh context name, state.2.assign name state.1.nextValue)

/-- The arguments of one block (`ptx_importer.cpp:1757-1766`). -/
def allocateArguments (context : ImportContext) (blocks : List RawBlock) (liveness : Liveness)
    (state : Allocation × List Environment) (index : Nat) : Allocation × List Environment :=
  if (blockAt blocks index).predecessors.length < 2 then (state.1, state.2 ++ [[]])
  else
    let result := (sortedNames blocks (namesAt liveness.liveIn index)).foldl
      (allocateArgument context) (state.1, [])
    (result.1, state.2 ++ [result.2])

/-- `block_arguments` of every block. -/
def blockArguments (context : ImportContext) (blocks : List RawBlock) (liveness : Liveness)
    (allocation : Allocation) : Allocation × List Environment :=
  (List.range blocks.length).foldl (allocateArguments context blocks liveness) (allocation, [])

/-- `incoming` and `outgoing`. -/
structure Flow where
  incoming : List Environment
  outgoing : List Environment

/-- An environment, `environments[index]`. -/
def environmentAt (environments : List Environment) (index : Nat) : Environment :=
  environments.getD index []

/-- What the propagation reads. -/
structure FlowInput where
  blocks : List RawBlock
  implicitValues : Environment
  blockArguments : List Environment
  liveness : Liveness

/-- `next_in` (`ptx_importer.cpp:1775-1791`). -/
def nextIncoming (input : FlowInput) (flow : Flow) (index : Nat) : Environment :=
  if index = 0 then input.implicitValues
  else
    match (blockAt input.blocks index).predecessors with
    | [] => []
    | [predecessor] =>
      (sortedNames input.blocks (namesAt input.liveness.liveIn index)).filterMap fun name =>
        ((environmentAt flow.outgoing predecessor).find? name).map fun value => (name, value)
    | _ => environmentAt input.blockArguments index

/-- `next_out` (`ptx_importer.cpp:1793-1796`). -/
def nextOutgoing (input : FlowInput) (flow : Flow) (index : Nat) : Environment :=
  (nextIncoming input flow index).assignAll (blockAt input.blocks index).lastDefinitions

/-- One block of the propagation (`ptx_importer.cpp:1773-1802`). -/
def updateFlow (input : FlowInput) (state : Flow × Bool) (index : Nat) : Flow × Bool :=
  let nextIn := nextIncoming input state.1 index
  let nextOut := nextOutgoing input state.1 index
  if nextIn.sameAs (environmentAt state.1.incoming index) &&
      nextOut.sameAs (environmentAt state.1.outgoing index) then state
  else
    ({ incoming := state.1.incoming.set index nextIn
       outgoing := state.1.outgoing.set index nextOut }, true)

/-- One pass over the blocks with the `changed` flag. -/
def flowPass (input : FlowInput) (flow : Flow) : Flow × Bool :=
  (List.range input.blocks.length).foldl (updateFlow input) (flow, false)

/-- The propagation loop with its `iteration_limit` (`ptx_importer.cpp:1769-1803`). -/
def propagate (input : FlowInput) : Flow :=
  untilUnchanged (flowPass input) (max 1 (input.blocks.length + 1))
    { incoming := input.blocks.map fun _ => [], outgoing := input.blocks.map fun _ => [] }

/-- The first message for a block (`ptx_importer.cpp:1805-1820`). -/
def blockError (input : FlowInput) (flow : Flow) (index : Nat) : Option String :=
  let block := blockAt input.blocks index
  let onEdge := (environmentAt input.blockArguments index).findSome? fun argument =>
    if block.predecessors.all fun predecessor =>
        (environmentAt flow.outgoing predecessor).contains argument.1 then none
    else some ("PTX register '" ++ argument.1 ++
      "' is undefined on an incoming edge to block '" ++ block.name ++ "'")
  let inBlock := block.usesBeforeDefinition.findSome? fun name =>
    if (environmentAt flow.incoming index).contains name then none
    else some ("PTX register '" ++ name ++ "' is used before definition in block '" ++
      block.name ++ "'")
  onEdge.or inBlock

/-- The importer after `construct_ssa`. -/
structure SsaState where
  blocks : List RawBlock
  allocation : Allocation
  blockArguments : List Environment
  incoming : List Environment
  outgoing : List Environment

/-- What `construct_ssa` propagates for allocated blocks. -/
def flowInput (context : ImportContext) (allocated : Allocation × List RawBlock) : FlowInput :=
  let liveness := computeLiveness allocated.2
  { blocks := allocated.2
    implicitValues := allocated.1.implicitValues
    blockArguments := (blockArguments context allocated.2 liveness allocated.1).2
    liveness }

/-- `construct_ssa` (`ptx_importer.cpp:1715-1822`). -/
def constructSsa (context : ImportContext) (allocated : Allocation × List RawBlock) :
    Except String SsaState :=
  let input := flowInput context allocated
  let flow := propagate input
  match (List.range input.blocks.length).findSome? (blockError input flow) with
  | some message => .error message
  | none =>
    .ok
      { blocks := input.blocks
        allocation := (blockArguments context allocated.2 input.liveness allocated.1).1
        blockArguments := input.blockArguments
        incoming := flow.incoming
        outgoing := flow.outgoing }

/-- `build_cfg`, `allocate_values` and `construct_ssa`. -/
def importSsa (context : ImportContext) (body : List Instruction) : Except String SsaState :=
  constructSsa context (allocateValues context body (buildCfg context.nextBlock body))

/-- The environment after an instruction (`ptx_importer.cpp:3271-3275`). -/
def defineResults (body : List Instruction) (results : AssocMap Nat (List ValueId))
    (environment : Environment) (i : Nat) : Environment :=
  environment.assignAll
    ((destinationRegisters (instructionAt body i)).zip ((results.find? i).getD []))

/-- `make_successor` (`ptx_importer.cpp:3279-3287`); `none` is the exception of `at`. -/
def makeSuccessor (state : SsaState) (source target : Nat) : Option Successor :=
  ((environmentAt state.blockArguments target).mapM fun argument =>
    (environmentAt state.outgoing source).find? argument.1).map fun arguments =>
      { block := (blockAt state.blocks target).id, arguments }

end CuMetal.Ptx
