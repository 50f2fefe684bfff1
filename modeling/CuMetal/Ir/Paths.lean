import CuMetal.Lib.Dominance
import CuMetal.Ir.Syntax

/-!
# Execution paths

The values that are defined along a path through a function, and what it means for
every read on the path to be of a defined value with the recorded type.
-/

namespace CuMetal.Ir

open List

/-- Defined values, each with the type that its definition records. -/
abbrev Defined := List (ValueId × IrType)

/-- The values that a call defines before the first block. -/
def argumentDefs (function : Function) : Defined :=
  function.arguments.map fun argument => (argument.value, argument.type)

/-- The values that entering a block by an edge binds. -/
def blockArgumentDefs (block : BasicBlock) : Defined :=
  block.arguments.map fun argument => (argument.value, argument.type)

/-- The values that executing operations defines. -/
def operationDefs (operations : List Operation) : Defined :=
  operations.flatMap fun operation => operation.results.zip operation.resultTypes

/-- The successor edges of the terminator, `block.operations.back()`. -/
def BasicBlock.exits (block : BasicBlock) : List Successor :=
  (block.operations.getLast?.map Operation.successors).getD []

/-- Control can pass from the block at index `u` to the one at index `v`. -/
def Edge (function : Function) (u v : Nat) : Prop :=
  ∃ block target successor, function.blocks[u]? = some block ∧
    function.blocks[v]? = some target ∧ successor ∈ block.exits ∧ target.id = successor.block

/-- A finite execution path from the first block, last block first, and the values
    that are defined when control is at the start of the last block. -/
inductive Path (function : Function) : List Nat → Defined → Prop
  | entry : Path function [0] (argumentDefs function)
  | step {path : List Nat} {u v : Nat} {env : Defined} {block target : BasicBlock}
      {successor : Successor} :
      Path function (u :: path) env →
      function.blocks[u]? = some block → function.blocks[v]? = some target →
      successor ∈ block.exits → target.id = successor.block →
      Path function (v :: u :: path)
        (env ++ operationDefs block.operations ++ blockArgumentDefs target)

/-- Every operand read in the block finds its value defined with the operand's type. -/
def OperandsDefined (env : Defined) (block : BasicBlock) : Prop :=
  ∀ (k : Nat) (operation : Operation) (operand : Operand),
    block.operations[k]? = some operation → operand ∈ operation.operands →
    operand.kind = .value →
    (operand.value, operand.type) ∈ env ++ operationDefs (block.operations.take k)

/-- Every argument of an edge out of the block finds its value defined with the type of
    the block argument it binds. -/
def EdgeArgumentsDefined (function : Function) (env : Defined) (block : BasicBlock) : Prop :=
  ∀ (successor : Successor) (target : BasicBlock) (i : Nat) (value : ValueId)
    (argument : BlockArgument),
    successor ∈ block.exits → target ∈ function.blocks → target.id = successor.block →
    successor.arguments[i]? = some value → target.arguments[i]? = some argument →
    (value, argument.type) ∈ env ++ operationDefs block.operations

/-- Every value read on every path is defined on that path with the type it is read at. -/
def ReadsDefined (function : Function) : Prop :=
  ∀ (path : List Nat) (b : Nat) (env : Defined) (block : BasicBlock),
    Path function (b :: path) env → function.blocks[b]? = some block →
    OperandsDefined env block ∧ EdgeArgumentsDefined function env block

abbrev ReachableBlock (function : Function) (b : Nat) : Prop :=
  Graph.Reachable 0 (Edge function) b

/-- Dominance of block indices in the control-flow graph. -/
abbrev DominatesBlock (function : Function) (c b : Nat) : Prop :=
  Graph.Dominates 0 (Edge function) c b

variable {function : Function}

variable {path : List Nat} {env : Defined} {block : BasicBlock} {b : Nat}

theorem Path.walk (run : Path function path env) :
    Graph.Walk 0 (Edge function) path := by
  induction run with
  | entry => exact .entry
  | step run hu hv exit target ih => exact .step ih ⟨_, _, _, hu, hv, exit, target⟩

theorem exists_path_of_walk (walk : Graph.Walk 0 (Edge function) path) :
    ∃ env, Path function path env := by
  induction walk with
  | entry => exact ⟨_, .entry⟩
  | step walk hedge ih =>
    obtain ⟨env, run⟩ := ih
    obtain ⟨block, target, successor, hu, hv, exit, same⟩ := hedge
    exact ⟨_, .step run hu hv exit same⟩

/-- The kinds of definition, with the index of the block for the last two. -/
inductive Origin where
  | call
  | result (block : Nat)
  | entered (block : Nat)
  deriving DecidableEq, Repr

/-- The function makes this definition at this place. -/
def DefinedBy (function : Function) : Origin → ValueId × IrType → Prop
  | .call, definition => definition ∈ argumentDefs function
  | .result c, definition => ∃ block, function.blocks[c]? = some block ∧
      definition ∈ operationDefs block.operations
  | .entered c, definition => ∃ block, function.blocks[c]? = some block ∧
      definition ∈ blockArgumentDefs block

/-- The definitions of the place have been executed, given the blocks that were executed
    and the blocks that were entered by an edge. -/
def Origin.On : Origin → List Nat → List Nat → Prop
  | .call, _, _ => True
  | .result c, executed, _ => c ∈ executed
  | .entered c, _, byEdge => c ∈ byEdge

theorem definedBy_result {u : Nat} (found : function.blocks[u]? = some block)
    (definition : ValueId × IrType) :
    DefinedBy function (.result u) definition ↔ definition ∈ operationDefs block.operations := by
  simp [DefinedBy, found]

theorem definedBy_entered {v : Nat} (found : function.blocks[v]? = some block)
    (definition : ValueId × IrType) :
    DefinedBy function (.entered v) definition ↔ definition ∈ blockArgumentDefs block := by
  simp [DefinedBy, found]

variable {executed byEdge : List Nat} {definition : ValueId × IrType}

theorem exists_on_of {executed' byEdge' : List Nat} {added : Origin}
    (grows : ∀ origin : Origin, origin.On executed' byEdge' ↔ origin.On executed byEdge ∨ origin =
      added) :
    (∃ origin, DefinedBy function origin definition ∧ origin.On executed' byEdge') ↔
      (∃ origin, DefinedBy function origin definition ∧ origin.On executed byEdge) ∨
        DefinedBy function added definition := by
  simp only [grows, and_or_left, exists_or, exists_eq_right]

theorem exists_on_execute {u : Nat} :
    (∃ origin, DefinedBy function origin definition ∧ origin.On (u :: executed) byEdge) ↔
      (∃ origin, DefinedBy function origin definition ∧ origin.On executed byEdge) ∨
        DefinedBy function (.result u) definition :=
  exists_on_of fun origin => by cases origin <;> simp [Origin.On, or_comm]

theorem exists_on_enter {v : Nat} :
    (∃ origin, DefinedBy function origin definition ∧ origin.On executed (v :: byEdge)) ↔
      (∃ origin, DefinedBy function origin definition ∧ origin.On executed byEdge) ∨
        DefinedBy function (.entered v) definition :=
  exists_on_of fun origin => by cases origin <;> simp [Origin.On, or_comm]

/-- The values that a path has defined when control is at the start of its last block. -/
theorem Path.mem_env_iff (run : Path function path env) (definition : ValueId × IrType) :
    definition ∈ env ↔ ∃ origin, DefinedBy function origin definition ∧
      origin.On path.tail path.dropLast := by
  induction run with
  | entry =>
    constructor
    · intro member
      exact ⟨.call, member, trivial⟩
    · rintro ⟨origin, defined, holds⟩
      cases origin with
      | call => exact defined
      | result c => simp [Origin.On] at holds
      | entered c => simp [Origin.On] at holds
  | @step path u v env block target successor run hu hv exit same ih =>
    rw [tail_cons] at ih ⊢
    rw [dropLast_cons_of_ne_nil (by simp), exists_on_enter, exists_on_execute, ← ih,
      definedBy_result hu, definedBy_entered hv]
    simp only [mem_append]

theorem Path.mem_exit_iff
    (run : Path function (b :: path) env) (found : function.blocks[b]? = some block)
    (definition : ValueId × IrType) :
    definition ∈ env ++ operationDefs block.operations ↔
      ∃ origin, DefinedBy function origin definition ∧
        origin.On (b :: path) (b :: path).dropLast := by
  rw [exists_on_execute, mem_append, run.mem_env_iff, tail_cons,
    definedBy_result found]

/-- The definitions of the place are executed before the end of block `b` whatever path
    leads there.  The arguments of the first block are not bound when control first
    gets there. -/
def Origin.Precedes (function : Function) (b : Nat) : Origin → Prop
  | .call => True
  | .result c => DominatesBlock function c b
  | .entered c => c ≠ 0 ∧ DominatesBlock function c b

theorem walk_split (walk : Graph.Walk 0 (Edge function) path) :
    path = path.dropLast ++ [0] := by
  induction walk with
  | entry => rfl
  | step walk hedge ih =>
    rw [dropLast_cons_of_ne_nil (by simp), cons_append, ← ih]

variable {origin : Origin}

theorem Origin.Precedes.on (precedes : origin.Precedes function b)
    (walk : Graph.Walk 0 (Edge function) (b :: path)) :
    origin.On (b :: path) (b :: path).dropLast := by
  cases origin with
  | call => trivial
  | result c => exact precedes path walk
  | entered c =>
    have member := precedes.2 path walk
    rw [walk_split walk, mem_append, mem_singleton] at member
    exact member.resolve_right precedes.1

theorem Origin.precedes_of_on (reachable : ReachableBlock function b)
    (holds : ∀ path, Graph.Walk 0 (Edge function) (b :: path) → origin.On (b :: path) (b ::
      path).dropLast) : origin.Precedes function b := by
  cases origin with
  | call => trivial
  | result c => exact holds
  | entered c =>
    refine ⟨?_, fun path walk => dropLast_subset _ (holds path walk)⟩
    rintro rfl
    obtain ⟨tail, walk, headed, once⟩ := Graph.exists_walk_entry_once reachable
    obtain ⟨path, whole⟩ := head?_eq_some_iff.mp headed
    rw [whole] at walk
    have member : 0 ∈ (b :: path).dropLast := holds path walk
    rw [← whole, dropLast_concat] at member
    exact once member

end CuMetal.Ir
