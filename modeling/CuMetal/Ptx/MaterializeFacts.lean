import CuMetal.Lib.Except
import CuMetal.Ptx.AllocationFacts
import CuMetal.Ptx.Materialize

/-!
# The blocks of an imported function

A successful import keeps the graph of `build_cfg`, gives block `index` the identifier
`nextBlock + index`, and ends it with the terminator of its last instruction.
-/

namespace CuMetal.Ptx

open List

open Ir (Successor Operand Operation BasicBlock Function)

/-- The state of a successful `construct_ssa` has the allocated blocks. -/
theorem constructSsa_blocks {context : ImportContext} {allocated : Allocation × List RawBlock}
    {state : SsaState} (ok : constructSsa context allocated = .ok state) :
    state.blocks = allocated.2 := by
  unfold constructSsa at ok
  simp only at ok
  split at ok
  · simp at ok
  · exact (Except.ok.inj ok) ▸ rfl

section

variable {context : ImportContext} {body : List Instruction} {state : SsaState}

theorem importSsa_shape (ok : importSsa context body = .ok state) :
    state.blocks.map RawBlock.shape =
      (buildCfg context.nextBlock body).map RawBlock.shape := by
  rw [constructSsa_blocks ok, allocateValues_shape]

theorem importSsa_length (ok : importSsa context body = .ok state) :
    state.blocks.length = blockCount body := by
  have lengths := congrArg length (importSsa_shape ok)
  simpa [buildCfg] using lengths

theorem importSsa_block (ok : importSsa context body = .ok state) {index : Nat}
    (bound : index < blockCount body) :
    (blockAt state.blocks index).shape =
      (context.nextBlock + index, blockName body index, blockInstructions body index,
        blockSuccessors body index, blockPredecessors body index) := by
  have length := importSsa_length ok
  have shapes := congrArg (·[index]?) (importSsa_shape ok)
  simp only [getElem?_map, buildCfg, getElem?_range bound, Option.map_some] at shapes
  rw [getElem?_eq_getElem (length ▸ bound), Option.map_some] at shapes
  rw [blockAt, getD_eq_getElem?_getD, getElem?_eq_getElem (length ▸ bound)]
  exact Option.some.inj shapes

end

section

variable {context : ImportContext} {translator : Translator} {body : List Instruction}
  {state : SsaState} {function : Function}

theorem importBody_ok (ok : importBody context translator body = .ok (state, function)) :
    importSsa context body = .ok state ∧
      materializeFunction body state translator = .ok function := by
  obtain ⟨state', hssa, rest⟩ := bind_eq_ok ok
  obtain ⟨function', hfunction, rest⟩ := bind_eq_ok rest
  injection Except.ok.inj rest with hs hf
  subst hs hf
  exact ⟨hssa, hfunction⟩

theorem materialized_block (ok : importBody context translator body = .ok (state, function)) :
    function.blocks.length = blockCount body ∧
      ∀ index < blockCount body, ∃ (block : BasicBlock) (translated : BlockBody)
        (conversions : List Operation) (final : Operation),
        function.blocks[index]? = some block ∧ block.id = context.nextBlock + index ∧
        block.operations.getLast? = some final ∧
        terminator state translator index
          ((lastInstruction body index).map (instructionAt body)) translated =
            .ok (conversions, final) := by
  obtain ⟨hssa, hfunction⟩ := importBody_ok ok
  obtain ⟨blocks, hblocks, rest⟩ := bind_eq_ok hfunction
  cases rest
  obtain ⟨length, each⟩ := getElem?_of_mapM_range hblocks
  rw [importSsa_length hssa] at length each
  refine ⟨length, fun index bound => ?_⟩
  have shape := importSsa_block hssa bound
  simp only [RawBlock.shape, Prod.mk.injEq] at shape
  obtain ⟨hid, -, hinstructions, -, -⟩ := shape
  obtain ⟨block, hblock, atIndex⟩ := each index bound
  obtain ⟨translated, -, rest⟩ := bind_eq_ok hblock
  obtain ⟨⟨conversions, final⟩, hfinal, rest⟩ := bind_eq_ok rest
  cases rest
  refine ⟨_, translated, conversions, final, atIndex, hid, by simp, ?_⟩
  rw [← hfinal, lastInstruction, hinstructions]

end

end CuMetal.Ptx
