import CuMetal.Ir.VerifyFacts

/-!
# Reads of an accepted module

The operand check of `verify` is sound: every block it admits as the source of a value
dominates the use.  The arguments of successor edges have no such check, and the
arguments of the first block count as defined there although nothing binds them when
control first arrives.
-/

namespace CuMetal.Ir

open List

variable {function : Function}

/-- The check that edge arguments lack: whatever is passed along an edge of a reachable
    block is defined, with the type of the block argument it binds, on every path to the
    end of the block. -/
def EdgeArgumentsDominated (function : Function) : Prop :=
  ∀ (b : Nat) (block : BasicBlock) (successor : Successor) (target : BasicBlock) (i : Nat)
    (value : ValueId) (argument : BlockArgument),
    ReachableBlock function b → function.blocks[b]? = some block →
    successor ∈ block.exits → target ∈ function.blocks → target.id = successor.block →
    successor.arguments[i]? = some value → target.arguments[i]? = some argument →
    ∃ origin, DefinedBy function origin (value, argument.type) ∧ origin.Precedes function b

/-- No operand of a reachable block reads an argument of the first block. -/
def EntryArgumentsUnread (function : Function) : Prop :=
  ∀ (b : Nat) (block : BasicBlock) (operation : Operation) (operand : Operand),
    ReachableBlock function b → function.blocks[b]? = some block →
    operation ∈ block.operations → operand ∈ operation.operands → operand.kind = .value →
    ¬ DefinedBy function (.entered 0) (operand.value, operand.type)

theorem mem_predecessors {blockIndices : AssocMap BlockId Nat} {u v : Nat}
    (indexed : ∀ (id : BlockId) (i : Nat), blockIndices.find? id = some i ↔
      ∃ block, function.blocks[i]? = some block ∧ block.id = id)
    (edge : Edge function u v) : u ∈ predecessors function blockIndices v := by
  obtain ⟨block, target, successor, hu, hv, exit, same⟩ := edge
  obtain ⟨operation, last, member⟩ : ∃ operation, block.operations.getLast? = some operation ∧
      successor ∈ operation.successors := by
    unfold BasicBlock.exits at exit
    cases last : block.operations.getLast? with
    | none => simp [last] at exit
    | some operation => exact ⟨operation, rfl, by simpa [last] using exit⟩
  refine mem_flatMap.mpr ⟨(block, u), mk_mem_zipIdx_iff_getElem?.mpr hu, ?_⟩
  refine mem_flatMap.mpr ⟨operation, mem_of_getLast? last, ?_⟩
  refine mem_flatMap.mpr ⟨successor, member, ?_⟩
  rw [if_pos ((indexed _ _).mpr ⟨target, hv, same⟩)]
  exact mem_singleton_self u

variable {b : Nat}

theorem Verified.dominates (verified : Verified function) {c : Nat}
    (member : c ∈ dominatorsAt (functionTables function).dominators b) :
    DominatesBlock function c b := by
  have stable : Stable (predecessors function (functionTables function).blockIndices)
      function.blocks.length (functionTables function).dominators :=
    computeDominators_stable function _
  have positive : 0 < function.blocks.length := length_pos_of_ne_nil verified.nonempty
  refine Graph.dominates_of_certificate
    (fun i => {d | d ∈ dominatorsAt (functionTables function).dominators i})
    ?_ ?_ member
  · intro d hd
    have atEntry : dominatorsAt (functionTables function).dominators 0 = {0} :=
      stable.first positive
    simpa [atEntry] using hd
  · intro u v edge nonzero d hd
    have before := mem_predecessors verified.blockIndex edge
    obtain ⟨_, _, _, _, hv, _, _⟩ := edge
    have bound : v < function.blocks.length := (List.getElem?_eq_some_iff.mp hv).1
    have computed := stable.fixed v (by omega) bound
    have inNext : d ∈ nextDominators
        (predecessors function (functionTables function).blockIndices)
        (functionTables function).dominators v := by
      rw [computed]
      exact hd
    rcases mem_nextDominators.mp inNext with equal | ⟨-, shared⟩
    · exact .inl equal
    · exact .inr (shared u before)

/-- The place that a recorded definition names. -/
def ValueDefinition.origin (tables : FunctionTables) (definition : ValueDefinition) :
    Option Origin :=
  if definition.functionArgument then some .call
  else (tables.blockIndices.find? definition.block).map
    (if definition.blockArgument then .entered else .result)

variable {definition : ValueId × IrType} {origin : Origin} {value : ValueId} {type : IrType}
  {block : BasicBlock}

theorem mem_operationDefs {operations : List Operation} :
    definition ∈ operationDefs operations ↔ ∃ (k j : Nat) (operation : Operation),
      operations[k]? = some operation ∧ operation.results[j]? = some definition.1 ∧
        operation.resultTypes[j]? = some definition.2 := by
  rw [operationDefs, mem_flatMap]
  constructor
  · rintro ⟨operation, member, paired⟩
    obtain ⟨k, hop⟩ := mem_iff_getElem?.mp member
    obtain ⟨j, hj⟩ := mem_iff_getElem?.mp paired
    exact ⟨k, j, operation, hop, getElem?_zip_eq_some.mp hj⟩
  · rintro ⟨k, j, operation, hop, typed⟩
    exact ⟨operation, mem_of_getElem? hop,
      mem_of_getElem? (getElem?_zip_eq_some.mpr typed)⟩

section

variable (verified : Verified function)
include verified

theorem Verified.recorded (defined : DefinedBy function origin (value, type)) :
    ∃ definition, (functionTables function).definitions.find? value = some definition ∧
      definition.type = type ∧
      definition.origin (functionTables function) = some origin := by
  cases origin with
  | call =>
    obtain ⟨argument, present, same⟩ := mem_map.mp defined
    injection same with hv ht
    subst hv ht
    exact ⟨_, (verified.definitions _ _).mpr (.argument present), rfl, rfl⟩
  | result c =>
    obtain ⟨block, found, member⟩ := defined
    obtain ⟨k, j, operation, hop, hr, ht⟩ := mem_operationDefs.mp member
    have index := (verified.blockIndex block.id c).mpr ⟨block, found, rfl⟩
    refine ⟨_, (verified.definitions _ _).mpr
      (.result (mem_of_getElem? found) hop hr), ?_, ?_⟩
    · rw [resultDefinition, getD_eq_getElem?_getD, ht]
      rfl
    · simp [ValueDefinition.origin, resultDefinition, index]
  | entered c =>
    obtain ⟨block, found, member⟩ := defined
    obtain ⟨argument, present, same⟩ := mem_map.mp member
    injection same with hv ht
    subst hv ht
    have index := (verified.blockIndex block.id c).mpr ⟨block, found, rfl⟩
    refine ⟨_, (verified.definitions _ _).mpr
      (.blockArgument (mem_of_getElem? found) present), rfl, ?_⟩
    simp [ValueDefinition.origin, index]

theorem Verified.origin_unique {other : Origin} {type' : IrType}
    (defined : DefinedBy function origin (value, type))
    (defined' : DefinedBy function other (value, type')) : origin = other ∧ type = type' := by
  obtain ⟨definition, found, htype, horigin⟩ := verified.recorded defined
  obtain ⟨definition', found', htype', horigin'⟩ := verified.recorded defined'
  obtain rfl : definition = definition' := Option.some.inj (found ▸ found')
  exact ⟨Option.some.inj (horigin ▸ horigin'), htype ▸ htype'⟩

/-- An operand that passed its check is a function argument, an earlier result of its
    block, or comes from a dominating block. -/
theorem Verified.operand_origin {k : Nat} {operation : Operation} {operand : Operand}
    (found : function.blocks[b]? = some block) (hop : block.operations[k]? = some operation)
    (member : operand ∈ operation.operands) (isValue : operand.kind = .value) :
    (operand.value, operand.type) ∈ operationDefs (block.operations.take k) ∨
      ∃ origin, DefinedBy function origin (operand.value, operand.type) ∧
        (origin = .call ∨
          (∃ c, origin = .entered c ∧ DominatesBlock function c b) ∨
          ∃ c, origin = .result c ∧ c ≠ b ∧ DominatesBlock function c b) := by
  have silent := verified.operands b k block operation operand found hop member
  unfold operandDiagnostics at silent
  rw [if_neg (not_not.mpr isValue)] at silent
  split at silent
  · simp [complain] at silent
  next definition hfind =>
  rw [append_eq_nil_iff, complain_eq_nil_iff] at silent
  obtain ⟨sameType, placed⟩ := silent
  have htype : operand.type = definition.type := by simpa using sameType
  have site := (verified.definitions _ _).mp hfind
  rw [htype]
  generalize operand.value = value at site ⊢
  cases site with
  | argument present =>
    exact .inr ⟨.call, mem_map.mpr ⟨_, present, rfl⟩, .inl rfl⟩
  | @blockArgument home argument hhome present =>
    obtain ⟨c, atIndex⟩ := mem_iff_getElem?.mp hhome
    have index := (verified.blockIndex home.id c).mpr ⟨home, atIndex, rfl⟩
    refine .inr ⟨.entered c, ⟨home, atIndex, mem_map.mpr ⟨_, present, rfl⟩⟩,
      .inr (.inl ⟨c, rfl, ?_⟩)⟩
    simp only [Bool.false_eq_true, if_false, index] at placed
    split at placed
    · next same => exact same ▸ Graph.Dominates.refl c
    · exact verified.dominates (by simpa [complain_eq_nil_iff] using placed)
  | @result home k' j operation' _ hhome hop' hresult =>
    obtain ⟨c, atIndex⟩ := mem_iff_getElem?.mp hhome
    have index := (verified.blockIndex home.id c).mpr ⟨home, atIndex, rfl⟩
    have arity := verified.arity home hhome operation' (mem_of_getElem? hop')
    have htypes : operation'.resultTypes[j]? =
        some (resultDefinition home k' operation' j).type := by
      have bound : j < operation'.resultTypes.length :=
        arity ▸ (List.getElem?_eq_some_iff.mp hresult).1
      simp [resultDefinition, getD_eq_getElem?_getD, bound]
    simp only [resultDefinition, Bool.false_eq_true, if_false, index] at placed
    split at placed
    · next same =>
        subst same
        obtain rfl : block = home := Option.some.inj (found ▸ atIndex)
        have earlier : k' < k := by simpa [complain_eq_nil_iff] using placed
        refine .inl (mem_operationDefs.mpr ⟨k', j, operation', ?_, hresult, htypes⟩)
        rw [getElem?_take, if_pos earlier]
        exact hop'
    · next different =>
        refine .inr ⟨.result c, ⟨home, atIndex,
          mem_operationDefs.mpr ⟨k', j, operation', hop', hresult, htypes⟩⟩,
          .inr (.inr ⟨c, rfl, different, ?_⟩)⟩
        exact verified.dominates (by simpa [complain_eq_nil_iff] using placed)

/-- Where the arguments of the first block are not read, a checked operand finds its value
    on every path. -/
theorem Verified.operand_defined (unread : EntryArgumentsUnread function) {path : List Nat}
    {env : Defined} (run : Path function (b :: path) env)
    (found : function.blocks[b]? = some block) : OperandsDefined env block := by
  intro k operation operand hop member isValue
  rw [mem_append]
  rcases verified.operand_origin found hop member isValue with
    inBlock | ⟨origin, defined, place⟩
  · exact .inr inBlock
  refine .inl ((run.mem_env_iff _).mpr ⟨origin, defined, ?_⟩)
  rcases place with rfl | ⟨c, rfl, dominates⟩ | ⟨c, rfl, different, dominates⟩
  · trivial
  · have nonzero : c ≠ 0 := by
      rintro rfl
      exact unread b block operation operand ⟨path, run.walk⟩ found (mem_of_getElem? hop)
        member isValue defined
    have precedes : (Origin.entered c).Precedes function b := ⟨nonzero, dominates⟩
    exact precedes.on run.walk
  · exact (mem_cons.mp (dominates path run.walk)).resolve_left different

/-- If every path to the end of a block has defined a value, one place precedes them all. -/
theorem Verified.exists_precedes (reachable : ReachableBlock function b)
    (found : function.blocks[b]? = some block)
    (always : ∀ path env, Path function (b :: path) env → definition ∈ env ++ operationDefs
      block.operations) :
    ∃ origin, DefinedBy function origin definition ∧ origin.Precedes function b := by
  have met : ∀ path, Graph.Walk 0 (Edge function) (b :: path) →
      ∃ origin, DefinedBy function origin definition ∧
        origin.On (b :: path) (b :: path).dropLast := by
    intro path walk
    obtain ⟨env, run⟩ := exists_path_of_walk walk
    exact (run.mem_exit_iff found definition).mp (always path env run)
  obtain ⟨path, walk⟩ := reachable
  obtain ⟨origin, defined, -⟩ := met path walk
  refine ⟨origin, defined, Origin.precedes_of_on ⟨path, walk⟩ fun path' walk' => ?_⟩
  obtain ⟨other, defined', holds⟩ := met path' walk'
  rwa [(verified.origin_unique defined defined').1]

/-- If every path to a block finds the operands of the block defined, none of them is an
    argument of the first block. -/
theorem Verified.entryArguments_unread (safe : ReadsDefined function) :
    EntryArgumentsUnread function := by
  intro b block operation operand reachable found member hoperand isValue atEntry
  obtain ⟨k, hop⟩ := mem_iff_getElem?.mp member
  have always : ∀ path env, Path function (b :: path) env →
      (operand.value, operand.type) ∈ env ++ operationDefs block.operations := by
    intro path env run
    have read := (safe path b env block run found).1 k operation operand hop hoperand isValue
    rcases mem_append.mp read with earlier | inBlock
    · exact mem_append_left _ earlier
    · obtain ⟨i, j, other, hi, typed⟩ := mem_operationDefs.mp inBlock
      have taken := mem_of_mem_take (mem_of_getElem? hi)
      obtain ⟨i', hi'⟩ := mem_iff_getElem?.mp taken
      exact mem_append_right _ (mem_operationDefs.mpr ⟨i', j, other, hi', typed⟩)
  obtain ⟨origin, defined, precedes⟩ := verified.exists_precedes reachable found always
  obtain rfl := (verified.origin_unique atEntry defined).1
  exact precedes.1 rfl

end

/-- On a function of an accepted module every read is of a value that the path has
    defined with the type of the read, if and only if the arguments of edges dominate
    and no operand reads an argument of the first block. -/
theorem readsDefined_iff_of_verify (module : IrModule) (accepted : (verify module).ok = true)
    (function : Function) (member : function ∈ module.functions) :
    ReadsDefined function ↔
      EdgeArgumentsDominated function ∧ EntryArgumentsUnread function := by
  have verified := verified_of_ok accepted member
  constructor
  · intro safe
    refine ⟨?_, verified.entryArguments_unread safe⟩
    intro b block successor target i value argument reachable found exit htarget same hv ha
    refine verified.exists_precedes reachable found fun path env run => ?_
    exact (safe path b env block run found).2 successor target i value argument exit htarget
      same hv ha
  · rintro ⟨dominated, unread⟩ path b env block run found
    refine ⟨verified.operand_defined unread run found, ?_⟩
    intro successor target i value argument exit htarget same hv ha
    obtain ⟨origin, defined, precedes⟩ := dominated b block successor target i value argument
      ⟨path, run.walk⟩ found exit htarget same hv ha
    exact (run.mem_exit_iff found _).mpr ⟨origin, defined, precedes.on run.walk⟩

/-- A function whose first block passes `%7` to the argument `%8` of the second one, which
    has a guarded way back to the start. -/
def passingFunction (passed : Operation) : Function :=
  { name := "f"
    blocks :=
      [{ id := 1, name := "entry"
         operations :=
          [passed, { opcode := .branch, successors := [{ block := 2, arguments := [7] }] }] },
       { id := 2, name := "body"
         arguments := [{ value := 8, type := .integer 32 }]
         operations :=
          [{ opcode := .condBranch
             operands := [{ value := 8, type := .integer 32 }]
             successors := [{ block := 1 }, { block := 3 }] }] },
       { id := 3, name := "exit", operations := [{ opcode := .return }] }] }

/-- A loop whose first block computes the `%7` that it passes. -/
def loopModule : IrModule :=
  { functions :=
      [passingFunction { opcode := .constant, results := [7], resultTypes := [.integer 32] }] }

theorem readsDefined_iff_of_verify_loop :
    (verify loopModule).ok = true ∧ ∀ function ∈ loopModule.functions,
      (ReadsDefined function ↔
        EdgeArgumentsDominated function ∧ EntryArgumentsUnread function) :=
  ⟨by decide +kernel, readsDefined_iff_of_verify loopModule (by decide +kernel)⟩

/-- The same loop passing a value that nothing defines. -/
def undefinedPassModule : IrModule :=
  { functions := [passingFunction { opcode := .barrier }] }

/-- `verify` accepts a module that passes an undefined value along an edge. -/
theorem verify_accepts_undefined_pass :
    ¬ ∀ module : IrModule, (verify module).ok = true →
      ∀ function ∈ module.functions, ReadsDefined function := by
  intro sound
  have safe := sound undefinedPassModule (by decide +kernel) _ mem_cons_self
  have passed := (safe [] 0 _ _ .entry rfl).2 _ _ 0 7 _ mem_cons_self
    (mem_cons_of_mem _ mem_cons_self) rfl rfl rfl
  revert passed
  decide +kernel

end CuMetal.Ir
