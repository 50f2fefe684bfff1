import CuMetal.Lib.Dominance
import CuMetal.Ptx.MaterializeFacts
import CuMetal.Ptx.SsaFlow

/-!
# Registers and SSA values along a path

A path through the raw graph is executed twice: on the registers of the PTX text and on
the SSA values of the import, where edges bind block arguments and the first block
starts with the definitions of the registers that have none.
-/

namespace CuMetal.Ptx

open List

open Ir (ValueId)

abbrev Word := Nat

/-- The values that the instructions of a run compute, by the number of the executed
    instruction and of its destination, and whether the predicate registers hold. -/
structure Oracle where
  written : Nat → Nat → Word
  holds : Nat → Bool

def setAll {κ ν : Type} [DecidableEq κ] (f : κ → ν) (updates : List (κ × ν)) : κ → ν :=
  updates.foldl (fun f update => Function.update f update.1 update.2) f

/-- Control can pass from the block `u` to the block `v`. -/
def CfgEdge (body : List Instruction) (u v : Nat) : Prop := v ∈ blockSuccessors body u

/-- A path through the raw graph from the first block, last block first. -/
abbrev CfgPath (body : List Instruction) : List Nat → Prop := Graph.Walk 0 (CfgEdge body)

/-- The number of instructions that are executed before the last block of a path. -/
def countAt (body : List Instruction) : List Nat → Nat
  | [] | [_] => 0
  | _ :: u :: path => countAt body (u :: path) + (blockInstructions body u).length

/-- The registers that each instruction defines.  What PTX says of them is a parameter of
    the text; `destinationRegisters` is what the importer finds. -/
abbrev Definitions := Instruction → List String

/-- An instruction of the text: its destinations are written if its guard holds. -/
def writeRegisters (oracle : Oracle) (definitions : Definitions) (body : List Instruction)
    (count i : Nat) (registers : String → Word) : String → Word :=
  if takesEffect (instructionAt body i) (oracle.holds count) then
    setAll registers ((definitions (instructionAt body i)).zipIdx.map
      fun destination => (destination.1, oracle.written count destination.2))
  else registers

def runRegisters (oracle : Oracle) (definitions : Definitions) (body : List Instruction) :
    Nat → List Nat → (String → Word) → String → Word
  | _, [], registers => registers
  | count, i :: rest, registers =>
    runRegisters oracle definitions body (count + 1) rest
      (writeRegisters oracle definitions body count i registers)

/-- The registers at the start of the last block of a path.  Before anything is written a
    register holds 0, the value that the import gives to registers without a definition. -/
def registersAt (oracle : Oracle) (definitions : Definitions) (body : List Instruction) :
    List Nat → String → Word
  | [] | [_] => fun _ => 0
  | _ :: u :: path =>
    runRegisters oracle definitions body (countAt body (u :: path)) (blockInstructions body u)
      (registersAt oracle definitions body (u :: path))

/-- An instruction of the import: its results are bound. -/
def writeValues (oracle : Oracle) (results : AssocMap Nat (List ValueId)) (count i : Nat)
    (values : ValueId → Word) : ValueId → Word :=
  setAll values (((results.find? i).getD []).zipIdx.map
    fun result => (result.1, oracle.written count result.2))

def runValues (oracle : Oracle) (results : AssocMap Nat (List ValueId)) :
    Nat → List Nat → (ValueId → Word) → ValueId → Word
  | _, [], values => values
  | count, i :: rest, values =>
    runValues oracle results (count + 1) rest (writeValues oracle results count i values)

/-- The first block starts with the conversions of `0` (`ptx_importer.cpp:3545-3556`). -/
def startBlock (state : SsaState) (index : Nat) (values : ValueId → Word) : ValueId → Word :=
  if index = 0 then
    setAll values (state.allocation.implicitValues.map fun implicit => (implicit.2, 0))
  else values

/-- The values at the start of the last block of a path; `none` if `make_successor` fails
    for an edge. -/
def valuesAt (oracle : Oracle) (body : List Instruction) (state : SsaState) :
    List Nat → Option (ValueId → Word)
  | [] => none
  | [index] => some (startBlock state index fun _ => 0)
  | index :: u :: path => do
    let before ← valuesAt oracle body state (u :: path)
    let after := runValues oracle state.allocation.instructionResults
      (countAt body (u :: path)) (blockInstructions body u) before
    let successor ← makeSuccessor state u index
    return startBlock state index (setAll after
      (((environmentAt state.blockArguments index).map Prod.snd).zip
        (successor.arguments.map after)))

/-- Whenever an instruction on a path reads a register, the value that the environment of
    its block gives for the register holds what was last written to the register. -/
def ReadsHold (oracle : Oracle) (definitions : Definitions) (body : List Instruction)
    (state : SsaState) : Prop :=
  ∀ (path : List Nat) (index : Nat), CfgPath body (index :: path) →
    ∃ values, valuesAt oracle body state (index :: path) = some values ∧
      ∀ (before : List Nat) (i : Nat) (after : List Nat),
        blockInstructions body index = before ++ i :: after →
        ∀ name ∈ sourceRegisters (instructionAt body i),
          ∃ value, (before.foldl (defineResults body state.allocation.instructionResults)
              (environmentAt state.incoming index)).find? name = some value ∧
            runValues oracle state.allocation.instructionResults
                (countAt body (index :: path)) before values value =
              runRegisters oracle definitions body (countAt body (index :: path)) before
                (registersAt oracle definitions body (index :: path)) name

/-- No instruction that writes a register is predicated. -/
def Unpredicated (definitions : Definitions) (body : List Instruction) : Prop :=
  ∀ i < body.length, definitions (instructionAt body i) ≠ [] →
    (instructionAt body i).predicate = ""

/-- A block reads a register before it writes it. -/
def ReadsFirst (body : List Instruction) (index : Nat) (name : String) : Prop :=
  ∃ before i after, blockInstructions body index = before ++ i :: after ∧
    name ∈ sourceRegisters (instructionAt body i) ∧
    ∀ j ∈ before, name ∉ destinationRegisters (instructionAt body j)

section Condition

variable (definitions : Definitions) (body : List Instruction)

/-- The last of some destinations that is a register: the one whose value stays there. -/
def lastIndex (names : List String) (name : String) : Option Nat :=
  ((names.zipIdx.filter fun destination => destination.1 = name).getLast?).map Prod.snd

/-- The importer takes an instruction to leave another of its values in the register than it
    does, or to define a register that it does not define, or not one that it does. -/
def Mistaken (i : Nat) (name : String) : Prop :=
  lastIndex (definitions (instructionAt body i)) name ≠
    lastIndex (destinationRegisters (instructionAt body i)) name

/-- The instruction defines the register, by PTX or for the importer. -/
def Touches (i : Nat) (name : String) : Prop :=
  name ∈ definitions (instructionAt body i) ∨ name ∈ destinationRegisters (instructionAt body i)

/-- The last instruction that touches the register is a mistaken one. -/
def MistakenLast (indices : List Nat) (name : String) : Prop :=
  ∃ before i after, indices = before ++ i :: after ∧ Mistaken definitions body i name ∧
    ∀ j ∈ after, ¬ Touches definitions body j name

/-- The instructions since control last entered the first block. -/
def sinceEntry : List Nat → List Nat
  | [] | [_] => []
  | index :: u :: path =>
    if index = 0 then [] else sinceEntry (u :: path) ++ blockInstructions body u

/-- Some path reads the register after a mistaken instruction, with nothing that touches the
    register and no entry into the first block in between. -/
def ReadAfterMistake (name : String) : Prop :=
  ∃ index path before i after, CfgPath body (index :: path) ∧
    blockInstructions body index = before ++ i :: after ∧
    name ∈ sourceRegisters (instructionAt body i) ∧
    MistakenLast definitions body (sinceEntry body (index :: path) ++ before) name

/-- Some path from the first block reads the register before anything on it touches it. -/
def LiveAtEntry (name : String) : Prop :=
  ∃ index path before i after, CfgPath body (index :: path) ∧
    blockInstructions body index = before ++ i :: after ∧
    name ∈ sourceRegisters (instructionAt body i) ∧
    (∀ j ∈ before, ¬ Touches definitions body j name) ∧
    ∀ c ∈ path, ∀ j ∈ blockInstructions body c, ¬ Touches definitions body j name

/-- Some path comes back to the first block after an instruction on it defined the register. -/
def WrittenBeforeReentry (name : String) : Prop :=
  ∃ path, CfgPath body (0 :: path) ∧
    ∃ c ∈ path, ∃ i ∈ blockInstructions body c, name ∈ definitions (instructionAt body i)

end Condition

/-! ## What the import knows -/

/-- The facts about the blocks of a successful import. -/
structure SsaFacts (context : ImportContext) (body : List Instruction) (state : SsaState)
    (owner : ValueId → String) : Prop where
  lastDefinitions : ∀ index < blockCount body,
    (blockAt state.blocks index).lastDefinitions = (blockInstructions body index).foldl
      (defineResults body state.allocation.instructionResults) []
  recorded : ∀ index < blockCount body, ∀ i ∈ blockInstructions body index,
    ∃ values, state.allocation.instructionResults.find? i = some values ∧
      values.map owner = destinationRegisters (instructionAt body i)
  implicit : ∀ binding ∈ state.allocation.implicitValues,
    owner binding.2 = binding.1 ∧ binding.1 ∈ context.implicitDefinitions
  arguments : ∀ index, ∀ binding ∈ environmentAt state.blockArguments index,
    owner binding.2 = binding.1
  noArguments : ∀ index < blockCount body, (blockPredecessors body index).length < 2 →
    environmentAt state.blockArguments index = []
  incomingFirst : ∀ name, (environmentAt state.incoming 0).find? name =
    state.allocation.implicitValues.find? name
  incomingJoin : ∀ index < blockCount body, index ≠ 0 →
    2 ≤ (blockPredecessors body index).length → ∀ name,
    (environmentAt state.incoming index).find? name =
      (environmentAt state.blockArguments index).find? name
  incomingSingle : ∀ index predecessor, Graph.Reachable 0 (CfgEdge body) index →
    index ≠ 0 → blockPredecessors body index = [predecessor] → ∀ name value,
    (environmentAt state.incoming index).find? name = some value →
      (environmentAt state.outgoing predecessor).find? name = some value
  outgoing : ∀ index, Graph.Reachable 0 (CfgEdge body) index → ∀ name,
    (environmentAt state.outgoing index).find? name =
      ((environmentAt state.incoming index).assignAll
        (blockAt state.blocks index).lastDefinitions).find? name
  joined : ∀ index < blockCount body, ∀ binding ∈ environmentAt state.blockArguments index,
    ∀ predecessor ∈ blockPredecessors body index,
      (environmentAt state.outgoing predecessor).contains binding.1 = true
  used : ∀ index < blockCount body, ∀ name, ReadsFirst body index name →
    (environmentAt state.incoming index).contains name = true

variable {body : List Instruction} {path : List Nat} {context : ImportContext} {state : SsaState}

theorem mem_blockPredecessors {u v : Nat} (bound : u < blockCount body) (edge : CfgEdge body u v) :
    u ∈ blockPredecessors body v := by
  refine mem_flatMap.mpr ⟨u, mem_range.mpr bound, ?_⟩
  exact mem_filterMap.mpr ⟨v, edge, if_pos rfl⟩

theorem lt_of_cfgPath (walk : CfgPath body path) : ∀ index ∈ path, index < blockCount body := by
  induction walk with
  | entry =>
    intro index member
    rw [mem_singleton.mp member]
    exact blockCount_pos body
  | step _ edge ih =>
    intro index member
    rcases mem_cons.mp member with rfl | earlier
    · exact blockSuccessors_lt edge
    · exact ih index earlier

theorem rooted_of_cfgPath (input : FlowInput) (length : input.blocks.length = blockCount body)
    (predecessors : ∀ index < blockCount body, (blockAt input.blocks index).predecessors =
      blockPredecessors body index) (walk : CfgPath body path) :
    ∀ index ∈ path, ∃ depth, Rooted input index depth := by
  induction walk with
  | entry =>
    intro index member
    rw [mem_singleton.mp member]
    exact ⟨0, .root (length ▸ blockCount_pos body) (.inl rfl)⟩
  | @step path u v walk edge ih =>
    intro index member
    rcases mem_cons.mp member with rfl | earlier
    · have bound := blockSuccessors_lt edge
      by_cases isRoot : index = 0 ∨ (blockAt input.blocks index).predecessors.length ≠ 1
      · exact ⟨0, .root (length ▸ bound) isRoot⟩
      · obtain ⟨nonzero, one⟩ := not_or.mp isRoot
        obtain ⟨predecessor, single⟩ := length_eq_one_iff.mp (not_not.mp one)
        have inside := mem_blockPredecessors (lt_of_cfgPath walk u mem_cons_self) edge
        rw [← predecessors index bound, single, mem_singleton] at inside
        obtain ⟨depth, rooted⟩ := ih u mem_cons_self
        exact ⟨depth + 1, .chain (length ▸ bound) nonzero (inside ▸ single) rooted⟩
    · exact ih index earlier

theorem constructSsa_ok {allocated : Allocation × List RawBlock}
    (ok : constructSsa context allocated = .ok state) :
    state.blocks = allocated.2 ∧
      state.allocation = (blockArguments context allocated.2
        (flowInput context allocated).liveness allocated.1).1 ∧
      state.blockArguments = (flowInput context allocated).blockArguments ∧
      state.incoming = (propagate (flowInput context allocated)).incoming ∧
      state.outgoing = (propagate (flowInput context allocated)).outgoing ∧
      ∀ index < allocated.2.length,
        blockError (flowInput context allocated) (propagate (flowInput context allocated))
          index = none := by
  unfold constructSsa at ok
  simp only at ok
  split at ok
  · simp at ok
  · next silent =>
      cases ok
      refine ⟨rfl, rfl, rfl, rfl, rfl, fun index bound => ?_⟩
      exact findSome?_eq_none_iff.mp silent index (mem_range.mpr bound)

/-- A block without a message has its arguments on every edge and its uses at its start. -/
theorem blockError_eq_none {input : FlowInput} {flow : Flow} {index : Nat}
    (silent : blockError input flow index = none) :
    (∀ binding ∈ environmentAt input.blockArguments index,
      ∀ predecessor ∈ (blockAt input.blocks index).predecessors,
        (environmentAt flow.outgoing predecessor).contains binding.1 = true) ∧
      ∀ name ∈ (blockAt input.blocks index).usesBeforeDefinition,
        (environmentAt flow.incoming index).contains name = true := by
  simp only [blockError, Option.or_eq_none_iff, findSome?_eq_none_iff] at silent
  refine ⟨fun binding member predecessor before => ?_, fun name member => ?_⟩
  · have quiet := silent.1 binding member
    split at quiet
    · next all => exact all_eq_true.mp all predecessor before
    · simp at quiet
  · have quiet := silent.2 name member
    split at quiet
    · assumption
    · simp at quiet

theorem ssaFacts_of_ok (ok : importSsa context body = .ok state) :
    ∃ owner, SsaFacts context body state owner := by
  obtain ⟨hblocks, hallocation, harguments, hincoming, houtgoing, silent⟩ := constructSsa_ok ok
  generalize hallocated : allocateValues context body (buildCfg context.nextBlock body) =
    allocated at *
  have length : allocated.2.length = blockCount body := hblocks ▸ importSsa_length ok
  have shape : ∀ index < blockCount body,
      (blockAt allocated.2 index).instructions = blockInstructions body index ∧
        (blockAt allocated.2 index).predecessors = blockPredecessors body index := by
    intro index bound
    have := importSsa_block ok bound
    simp only [RawBlock.shape, Prod.mk.injEq, hblocks] at this
    exact ⟨this.2.2.1, this.2.2.2.2⟩
  -- owners, first of the allocated values, then of the block arguments
  obtain ⟨owner₀, owned₀⟩ := exists_owned context body (buildCfg context.nextBlock body)
  rw [hallocated] at owned₀
  obtain ⟨owner, added, owned, bindings, harg, noArguments, hresults, himplicit⟩ :=
    exists_owned_arguments allocated.2 (flowInput context allocated).liveness
      (range allocated.2.length) (allocated.1, []) owner₀ owned₀ (by simp [OwnedBindings])
  have results : state.allocation.instructionResults = allocated.1.instructionResults := by
    rw [hallocation]
    exact hresults
  have implicit : state.allocation.implicitValues = allocated.1.implicitValues := by
    rw [hallocation]
    exact himplicit
  have argumentsAre : state.blockArguments = added := by
    rw [harguments]
    exact harg
  have facts : ∀ index < blockCount body,
      BlockFacts body state.allocation.instructionResults (blockAt allocated.2 index) := by
    intro index bound
    rw [results, ← hallocated]
    apply allocateValues_facts context (buildCfg_distinct _ _)
    · intro block member
      obtain ⟨index, -, rfl⟩ := mem_map.mp member
      exact ⟨rfl, rfl⟩
    · rw [hallocated]
      exact blockAt_mem (length ▸ bound)
  have settled : ∀ index, Graph.Reachable 0 (CfgEdge body) index →
      ComputedFrom (flowInput context allocated) (propagate (flowInput context allocated))
        (propagate (flowInput context allocated)) index := by
    rintro index ⟨path, walk⟩
    obtain ⟨depth, rooted⟩ := rooted_of_cfgPath (flowInput context allocated) length
      (fun index bound => (shape index bound).2) walk index mem_cons_self
    exact propagate_settled rooted
  refine ⟨owner, ?_, ?_, ?_, ?_, ?_, ?_, ?_, ?_, ?_, ?_, ?_⟩
  · intro index bound
    rw [hblocks, (facts index bound).lastDefinitions, (shape index bound).1]
  · intro index bound i member
    obtain ⟨values, found⟩ := (facts index bound).recorded i ((shape index bound).1 ▸ member)
    refine ⟨values, found, (owned.results i values ?_).1⟩
    rw [hresults, ← results]
    exact found
  · intro binding member
    rw [implicit, ← himplicit] at member
    exact (owned.implicit binding member).2
  · intro index binding member
    rw [argumentsAre, environmentAt, getD_eq_getElem?_getD] at member
    cases found : added[index]? with
    | none => simp [found] at member
    | some environment =>
      rw [found, Option.getD_some] at member
      exact (bindings binding (mem_flatten.mpr
        ⟨environment, by simpa using mem_of_getElem? found, member⟩)).2
  · intro index bound few
    have none := noArguments index index (by simp [length, bound])
      (by rw [(shape index bound).2]; exact few)
    simp [argumentsAre, environmentAt, getD_eq_getElem?_getD, none]
  · intro name
    rw [hincoming, (settled 0 ⟨[], .entry⟩).incoming name, implicit]
    simp [nextIncoming, flowInput]
  · intro index bound nonzero many name
    have here : (blockAt (flowInput context allocated).blocks index).predecessors =
        blockPredecessors body index := (shape index bound).2
    have root : Rooted (flowInput context allocated) index 0 :=
      .root (length ▸ bound) (.inr (by rw [here]; omega))
    rw [hincoming, (propagate_settled root).incoming name, harguments, nextIncoming,
      if_neg nonzero, here]
    split
    · next none => simp [none] at many
    · next one => simp [one] at many
    · rfl
  · intro index predecessor reachable nonzero single name value found
    obtain ⟨path, walk⟩ := reachable
    have bound := lt_of_cfgPath walk index mem_cons_self
    rw [hincoming, (settled index ⟨path, walk⟩).incoming name] at found
    rw [houtgoing]
    have here : (blockAt (flowInput context allocated).blocks index).predecessors =
        [predecessor] := by
      rw [← single]
      exact (shape index bound).2
    rw [nextIncoming, if_neg nonzero, here] at found
    obtain ⟨other, -, bound⟩ := mem_filterMap.mp (AssocMap.mem_of_find? found)
    obtain ⟨value', found', same⟩ := Option.map_eq_some_iff.mp bound
    injection same with hname hvalue
    rw [← hname, ← hvalue]
    exact found'
  · intro index reachable name
    rw [houtgoing, (settled index reachable).outgoing name, hincoming, hblocks, nextOutgoing,
      AssocMap.find?_assignAll, AssocMap.find?_assignAll, (settled index reachable).incoming name]
    rfl
  · intro index bound binding member predecessor before
    rw [harguments] at member
    rw [houtgoing]
    exact (blockError_eq_none (silent index (length ▸ bound))).1 binding member predecessor
      (by rw [show (flowInput context allocated).blocks = allocated.2 from rfl,
        (shape index bound).2]; exact before)
  · intro index bound name reads
    rw [hincoming]
    obtain ⟨before, i, after, split, source, undefined⟩ := reads
    apply (blockError_eq_none (silent index (length ▸ bound))).2
    exact (facts index bound).uses before i after ((shape index bound).1.trans split) name source
      undefined

end CuMetal.Ptx
