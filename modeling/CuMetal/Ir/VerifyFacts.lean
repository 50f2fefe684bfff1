import CuMetal.Ir.Paths
import CuMetal.Ir.Dominators

/-!
# What an accepted module satisfies

The facts that follow when `verify` reports nothing: distinct block identifiers, edges
with known targets and matching argument counts, values with exactly one definition,
and operands that passed their check.
-/

namespace CuMetal.Ir

open List

theorem complain_eq_nil_iff {condition : Bool} {message : String} {location : SourceLocation} :
    complain condition message location = [] ↔ condition = false := by
  cases condition <;> simp [complain]

/-- A definition of a value somewhere in a function, as the verifier records it. -/
inductive DefinitionSite (function : Function) : ValueId → ValueDefinition → Prop
  | argument {argument : FunctionArgument} : argument ∈ function.arguments →
      DefinitionSite function argument.value { type := argument.type, functionArgument := true }
  | blockArgument {block : BasicBlock} {argument : BlockArgument} : block ∈ function.blocks →
      argument ∈ block.arguments →
      DefinitionSite function argument.value
        { type := argument.type, block := block.id, blockArgument := true }
  | result {block : BasicBlock} {k j : Nat} {operation : Operation} {value : ValueId} :
      block ∈ function.blocks → block.operations[k]? = some operation →
      operation.results[j]? = some value →
      DefinitionSite function value (resultDefinition block k operation j)

/-- The facts about a function of an accepted module. -/
structure Verified (function : Function) : Prop where
  nonempty : function.blocks ≠ []
  blockIndex : ∀ (id : BlockId) (i : Nat),
    (functionTables function).blockIndices.find? id = some i ↔
      ∃ block, function.blocks[i]? = some block ∧ block.id = id
  successors : ∀ block ∈ function.blocks, ∀ operation ∈ block.operations,
    ∀ successor ∈ operation.successors, ∃ (i : Nat) (target : BasicBlock),
      function.blocks[i]? = some target ∧ target.id = successor.block ∧
      successor.arguments.length = target.arguments.length
  arity : ∀ block ∈ function.blocks, ∀ operation ∈ block.operations,
    operation.results.length = operation.resultTypes.length
  definitions : ∀ value definition,
    (functionTables function).definitions.find? value = some definition ↔
      DefinitionSite function value definition
  operands : ∀ (b k : Nat) block operation operand, function.blocks[b]? = some block →
    block.operations[k]? = some operation → operand ∈ operation.operands →
    operandDiagnostics (functionTables function) ⟨b, k, operation.location⟩ operand = []

variable {function : Function} {module : IrModule}

private theorem blockTables_silent (silent : (blockTables function).2 = []) :
    (blockTables function).1.blockIndices =
        function.blocks.zipIdx.map (fun indexed => (indexed.1.id, indexed.2)) ∧
      (function.blocks.map BasicBlock.id).Nodup := by
  have rule := collect_silent (registerBlock function)
    (fun done tables =>
      tables.blockIndices = done.map (fun indexed => (indexed.1.id, indexed.2)) ∧
        (done.map fun indexed => indexed.1.id).Nodup)
    (by
      intro done indexed tables ⟨recorded, distinct⟩ quiet
      simp only [registerBlock, append_eq_nil_iff, complain_eq_nil_iff] at quiet
      have fresh := quiet.1.1.1
      simp only [registerBlock, fresh]
      have unseen : tables.blockIndices.contains indexed.1.id = false :=
        (Bool.or_eq_false_iff.mp fresh).2
      have absent : indexed.1.id ∉ done.map fun other => other.1.id := by
        rw [AssocMap.contains_eq_false_iff, recorded] at unseen
        simpa [map_map, Function.comp_def] using unseen
      refine ⟨?_, ?_⟩
      · rw [if_neg (by simp), AssocMap.emplace_of_fresh unseen, recorded]
        simp
      · rw [map_append, nodup_append]
        refine ⟨distinct, by simp, ?_⟩
        intro a ha b hb
        simp only [map_cons, map_nil, mem_singleton] at hb
        exact fun same => absent (hb ▸ same ▸ ha))
    function.blocks.zipIdx [] {} ⟨rfl, by simp⟩ silent
  refine ⟨by simpa [blockTables] using rule.1, ?_⟩
  have ids := rule.2
  have same : (function.blocks.zipIdx.map fun indexed => indexed.1.id) =
      function.blocks.map BasicBlock.id := by
    rw [show (fun indexed : BasicBlock × Nat => indexed.1.id) =
      BasicBlock.id ∘ Prod.fst from rfl, ← map_map, zipIdx_map_fst]
  rwa [nil_append, same] at ids

private theorem find?_blockIndices
    (silent : (blockTables function).2 = []) (id : BlockId) (i : Nat) :
    (functionTables function).blockIndices.find? id = some i ↔
      ∃ block, function.blocks[i]? = some block ∧ block.id = id := by
  obtain ⟨recorded, distinct⟩ := blockTables_silent silent
  have keys : ((function.blocks.zipIdx.map fun indexed => (indexed.1.id, indexed.2)).map
      Prod.fst).Nodup := by
    rw [map_map, show (Prod.fst ∘ fun indexed : BasicBlock × Nat =>
      (indexed.1.id, indexed.2)) = BasicBlock.id ∘ Prod.fst from rfl, ← List.map_map,
      zipIdx_map_fst]
    exact distinct
  change (blockTables function).1.blockIndices.find? id = some i ↔ _
  rw [recorded, AssocMap.find?_eq_some_iff keys, mem_map]
  constructor
  · rintro ⟨⟨block, j⟩, member, equal⟩
    injection equal with hid hj
    subst hj
    exact ⟨block, mk_mem_zipIdx_iff_getElem?.mp member, hid⟩
  · rintro ⟨block, found, rfl⟩
    exact ⟨(block, i), mk_mem_zipIdx_iff_getElem?.mpr found, rfl⟩

variable {block : BasicBlock} {operation : Operation}

private theorem successors_silent (blocks : (blockTables function).2 = [])
    (silent : edgeDiagnostics function (functionTables function).blockIndices = [])
    (hb : block ∈ function.blocks) (hop : operation ∈ block.operations) {successor : Successor}
    (hs : successor ∈ operation.successors) :
    ∃ (i : Nat) (target : BasicBlock), function.blocks[i]? = some target ∧ target.id = successor.block ∧
      successor.arguments.length = target.arguments.length := by
  have quiet : successorDiagnostics function (functionTables function).blockIndices block
      operation successor = [] := by
    simp only [edgeDiagnostics, flatMap_eq_nil_iff] at silent
    exact silent block hb operation hop successor hs
  unfold successorDiagnostics at quiet
  split at quiet
  · simp [complain] at quiet
  · next target found =>
      obtain ⟨targetBlock, atTarget, same⟩ := (find?_blockIndices blocks _ _).mp found
      refine ⟨target, targetBlock, atTarget, same, ?_⟩
      simpa [complain_eq_nil_iff, getD_eq_getElem?_getD, atTarget] using quiet

def definedItems (items : List DefinitionItem) : List (ValueId × ValueDefinition) :=
  items.filterMap fun item =>
    match item with
    | .define value definition _ _ => some (value, definition)
    | .arityMismatch _ => none

private theorem valueDefinitions_silent (silent : (valueDefinitions function).2 = []) :
    (valueDefinitions function).1 = definedItems (definitionItems function) ∧
      ((definedItems (definitionItems function)).map Prod.fst).Nodup ∧
      ∀ location, .arityMismatch location ∉ definitionItems function := by
  have rule := collect_silent registerDefinition
    (fun done definitions =>
      definitions = definedItems done ∧ ((definedItems done).map Prod.fst).Nodup ∧
        ∀ location, .arityMismatch location ∉ done)
    (by
      intro done item definitions ⟨recorded, distinct, matched⟩ quiet
      cases item with
      | arityMismatch location => simp [registerDefinition, complain] at quiet
      | define value definition location message =>
        simp only [registerDefinition, complain_eq_nil_iff] at quiet
        simp only [registerDefinition, quiet]
        have unseen := (Bool.or_eq_false_iff.mp quiet).2
        have absent : value ∉ (definedItems done).map Prod.fst := by
          rwa [AssocMap.contains_eq_false_iff, recorded] at unseen
        have appended : definedItems (done ++ [.define value definition location message]) =
            definedItems done ++ [(value, definition)] := by
          simp [definedItems]
        refine ⟨?_, ?_, ?_⟩
        · rw [appended, if_neg (by simp), AssocMap.emplace_of_fresh unseen, recorded]
        · rw [appended, map_append, nodup_append]
          refine ⟨distinct, by simp, ?_⟩
          intro a ha b hb
          simp only [map_cons, map_nil, mem_singleton] at hb
          exact fun same => absent (hb ▸ same ▸ ha)
        · intro other member
          rcases mem_append.mp member with earlier | last
          · exact matched other earlier
          · simp at last)
    (definitionItems function) [] [] ⟨rfl, by simp [definedItems], by simp⟩ silent
  simpa [valueDefinitions] using rule

theorem mem_definedItems_iff {value : ValueId} {definition : ValueDefinition} :
    (value, definition) ∈ definedItems (definitionItems function) ↔
      DefinitionSite function value definition := by
  simp only [definedItems, mem_filterMap]
  constructor
  · rintro ⟨item, member, defines⟩
    rcases mem_append.mp member with fromCall | fromBlock
    · obtain ⟨argument, present, rfl⟩ := mem_map.mp fromCall
      injection defines with equal
      injection equal with hv hd
      subst hv hd
      exact .argument present
    · obtain ⟨block, hb, present⟩ := mem_flatMap.mp fromBlock
      rcases mem_append.mp present with ofArguments | ofOperations
      · obtain ⟨argument, ha, rfl⟩ := mem_map.mp ofArguments
        injection defines with equal
        injection equal with hv hd
        subst hv hd
        exact .blockArgument hb ha
      · obtain ⟨⟨operation, k⟩, hop, present⟩ := mem_flatMap.mp ofOperations
        rcases mem_append.mp present with mismatch | defined
        · split at mismatch
          · rw [mem_singleton] at mismatch
            subst mismatch
            simp at defines
          · simp at mismatch
        · obtain ⟨⟨result, j⟩, hr, rfl⟩ := mem_map.mp defined
          injection defines with equal
          injection equal with hv hd
          subst hv hd
          exact .result hb (mk_mem_zipIdx_iff_getElem?.mp hop)
            (mk_mem_zipIdx_iff_getElem?.mp hr)
  · intro site
    cases site with
    | argument present =>
      exact ⟨_, mem_append_left _ (mem_map.mpr ⟨_, present, rfl⟩), rfl⟩
    | blockArgument hb ha =>
      exact ⟨_, mem_append_right _ (mem_flatMap.mpr
        ⟨_, hb, mem_append_left _ (mem_map.mpr ⟨_, ha, rfl⟩)⟩), rfl⟩
    | @result block k j operation value hb hop hr =>
      refine ⟨.define value (resultDefinition block k operation j) operation.location
        "operation defines a duplicate/invalid value",
        mem_append_right _ (mem_flatMap.mpr ⟨block, hb,
          mem_append_right _ (mem_flatMap.mpr ⟨(operation, k), ?_,
            mem_append_right _ (mem_map.mpr ⟨(value, j), ?_, rfl⟩)⟩)⟩), rfl⟩
      · exact mk_mem_zipIdx_iff_getElem?.mpr hop
      · exact mk_mem_zipIdx_iff_getElem?.mpr hr

private theorem arity_silent
    (matched : ∀ location, .arityMismatch location ∉ definitionItems function)
    (hb : block ∈ function.blocks) (hop : operation ∈ block.operations) :
    operation.results.length = operation.resultTypes.length := by
  by_contra different
  obtain ⟨k, atIndex⟩ := mem_iff_getElem?.mp hop
  apply matched operation.location
  refine mem_append_right _ (mem_flatMap.mpr ⟨block, hb,
    mem_append_right _ (mem_flatMap.mpr ⟨(operation, k), ?_, ?_⟩)⟩)
  · exact mk_mem_zipIdx_iff_getElem?.mpr atIndex
  · simp [operationItems, different]

theorem nodup_names_of_ok (accepted : (verify module).ok = true) :
    (module.functions.map Function.name).Nodup := by
  simp only [verify, List.isEmpty_iff, List.append_eq_nil_iff] at accepted
  have rule := collect_silent registerName
    (fun done names => names = done.map Function.name ∧ names.Nodup)
    (by
      intro done item names ⟨recorded, distinct⟩ quiet
      simp only [registerName, complain_eq_nil_iff] at quiet
      have fresh : item.name ∉ names := by
        simpa using (Bool.or_eq_false_iff.mp quiet).2
      rw [registerName, if_neg (by rw [quiet]; simp)]
      refine ⟨by rw [recorded, map_append, map_singleton], ?_⟩
      rw [nodup_append]
      refine ⟨distinct, nodup_singleton _, fun a ha b hb => ?_⟩
      rw [mem_singleton] at hb
      exact fun same => fresh (hb ▸ same ▸ ha))
    module.functions [] [] ⟨rfl, nodup_nil⟩ accepted.1.1
  rw [nil_append] at rule
  exact rule.1 ▸ rule.2

theorem name_ne_empty_of_ok (accepted : (verify module).ok = true)
 (member : function ∈ module.functions) : function.name ≠ "" := by
  simp only [verify, List.isEmpty_iff, List.append_eq_nil_iff] at accepted
  have rule := collect_silent registerName
    (fun done _ => ∀ other ∈ done, other.name ≠ "")
    (by
      intro done item names holds quiet
      simp only [registerName, complain_eq_nil_iff, Bool.or_eq_false_iff, beq_eq_false_iff_ne,
        ne_eq] at quiet
      intro other present
      rcases mem_append.mp present with earlier | last
      · exact holds other earlier
      · rw [mem_singleton] at last
        exact last ▸ quiet.1)
    module.functions [] [] (by simp) accepted.1.1
  exact rule function (by simpa using member)

theorem verified_of_ok (accepted : (verify module).ok = true)
 (member : function ∈ module.functions) : Verified function := by
  have named := name_ne_empty_of_ok accepted member
  simp only [verify, List.isEmpty_iff, List.append_eq_nil_iff, List.flatMap_eq_nil_iff] at accepted
  obtain ⟨⟨-, functionsSilent⟩, -⟩ := accepted
  have silent := functionsSilent function member
  unfold functionDiagnostics at silent
  rw [if_neg named] at silent
  split at silent
  · simp [complain] at silent
  · next nonempty =>
      simp only [append_eq_nil_iff] at silent
      obtain ⟨⟨⟨⟨⟨-, blocks⟩, edges⟩, definitions⟩, uses⟩, -⟩ := silent
      obtain ⟨recorded, distinct, matched⟩ := valueDefinitions_silent definitions
      refine ⟨nonempty, find?_blockIndices blocks,
        fun block hb operation hop successor hs => successors_silent blocks edges hb hop hs,
        fun block hb operation hop => arity_silent matched hb hop, ?_, ?_⟩
      · intro value definition
        change (valueDefinitions function).1.find? value = some definition ↔ _
        rw [recorded, AssocMap.find?_eq_some_iff distinct, mem_definedItems_iff]
      · intro b k block operation operand hb hop hoperand
        simp only [useDiagnostics, flatMap_eq_nil_iff, append_eq_nil_iff] at uses
        exact (uses (block, b) (mk_mem_zipIdx_iff_getElem?.mpr hb) (operation, k)
          (mk_mem_zipIdx_iff_getElem?.mpr hop)).1 operand hoperand

end CuMetal.Ir
