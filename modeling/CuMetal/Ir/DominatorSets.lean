import CuMetal.Ir.VerifyFacts

/-!
# What the dominator sets are

The intersection over all predecessors starts at the first block and at every block that
no edge enters, so the sets of `ir.cpp:383-412` hold the blocks that lie on every walk
from every such start.  They are the dominators exactly where no walk from a start other
than the first block goes around the first block.
-/

namespace CuMetal.Ir

open CuMetal.Graph List

variable {edge : Nat → Nat → Prop} {lists : Nat → List Nat} {n : Nat}

/-- The lists hold the sources of the edges into each of `n` blocks. -/
structure ListsPredecessors (edge : Nat → Nat → Prop) (n : Nat) (lists : Nat → List Nat) :
    Prop where
  mem : ∀ u v, u ∈ lists v ↔ edge u v
  source : ∀ u v, edge u v → u < n
  target : ∀ u v, edge u v → v < n

/-- A block at which the intersection starts: the first one, or one that no edge enters. -/
def IsStart (edge : Nat → Nat → Prop) (n s : Nat) : Prop :=
  s = 0 ∨ (s < n ∧ ∀ u, ¬ edge u s)

/-- The sets of the blocks hold the dominators of each of them. -/
def HoldsDominators (edge : Nat → Nat → Prop) (sets : Nat → Finset Nat) : Prop :=
  ∀ b, Reachable 0 edge b → ∀ c, c ∈ sets b ↔ Dominates 0 edge c b

/-- No walk to a reachable block from a block that no edge enters goes around the first
    block. -/
def StartsPassFirst (edge : Nat → Nat → Prop) (n : Nat) : Prop :=
  ∀ b, Reachable 0 edge b → ∀ s, s < n → (∀ u, ¬ edge u s) → Dominates s edge 0 b

/-- The invariant of the loop from below: what lies on every walk from every start is
    still in the set. -/
structure Covering (edge : Nat → Nat → Prop) (n : Nat) (dominators : List (Finset Nat)) :
    Prop where
  length : dominators.length = n
  covers : ∀ i < n, ∀ c < n, (∀ s, IsStart edge n s → Dominates s edge c i) →
    c ∈ dominatorsAt dominators i

theorem initialDominators_at (n j : Nat) : dominatorsAt (initialDominators n) j =
    if j < n then (if j = 0 then {0} else Finset.range n) else ∅ := by
  unfold dominatorsAt initialDominators
  by_cases h : j < n
  · simp [getD_eq_getElem?_getD, h]
  · simp [getD_eq_getElem?_getD, h]

theorem initialDominators_covering : Covering edge n (initialDominators n) := by
  refine ⟨by simp [initialDominators], ?_⟩
  intro i bound c below shared
  rw [initialDominators_at, if_pos bound]
  split
  · next first =>
      subst first
      have visited := shared 0 (.inl rfl) [] .entry
      simpa using visited
  · exact Finset.mem_range.mpr below

variable {dominators : List (Finset Nat)} {function : Function}

/-- What lies on every walk to a block is the block or lies on every walk to each of its
    predecessors. -/
theorem mem_nextDominators_of_shared (lists_spec : ListsPredecessors edge n lists)
 (covering : Covering edge n dominators) {i c : Nat}
    (bound : i < n) (below : c < n) (shared : ∀ s, IsStart edge n s → Dominates s edge c i) :
    c ∈ nextDominators lists dominators i := by
  refine mem_nextDominators.mpr ?_
  by_cases same : c = i
  · exact .inl same
  · refine .inr ⟨?_, ?_⟩
    · intro empty
      have start : IsStart edge n i :=
        .inr ⟨bound, fun u hedge => by
          have listed := (lists_spec.mem u i).mpr hedge
          rw [empty] at listed
          exact not_mem_nil listed⟩
      exact same (mem_singleton.mp (shared i start [] .entry))
    · intro p listed
      have hedge := (lists_spec.mem p i).mp listed
      exact covering.covers p (lists_spec.source p i hedge) c below
        fun s start => (shared s start).of_edge hedge same

theorem updateDominators_covering (lists_spec : ListsPredecessors edge n lists)
    {state : List (Finset Nat) × Bool} (covering : Covering edge n state.1) (i : Nat) :
    Covering edge n (updateDominators lists state i).1 := by
  unfold updateDominators
  split
  · refine ⟨by simpa using covering.length, ?_⟩
    intro j bound c below shared
    by_cases inside : i < n
    · rw [dominatorsAt_set _ _ _ _ (covering.length ▸ inside)]
      split
      · next same =>
          subst same
          exact mem_nextDominators_of_shared lists_spec covering bound below shared
      · exact covering.covers j bound c below shared
    · rw [set_eq_of_length_le (by rw [covering.length]; omega)]
      exact covering.covers j bound c below shared
  · exact covering

theorem dominatorPass_covering (lists_spec : ListsPredecessors edge n lists)
    (dominators : List (Finset Nat)) (covering : Covering edge n dominators) :
    Covering edge n (dominatorPass lists dominators).1 := by
  unfold dominatorPass
  generalize range' 1 (dominators.length - 1) = blocks
  suffices ∀ state : List (Finset Nat) × Bool, Covering edge n state.1 →
      Covering edge n (blocks.foldl (updateDominators lists) state).1 from
    this (dominators, false) covering
  induction blocks with
  | nil => exact fun _ holds => holds
  | cons i blocks ih =>
    intro state holds
    exact ih _ (updateDominators_covering lists_spec holds i)

theorem Stable.dominates (stable : Stable lists n dominators)
    (lists_spec : ListsPredecessors edge n lists) (positive : 0 < n) {s b c : Nat}
    (start : IsStart edge n s) (member : c ∈ dominatorsAt dominators b) :
    Dominates s edge c b := by
  refine dominates_of_certificate (fun i => {c | c ∈ dominatorsAt dominators i}) ?_ ?_ member
  · intro c inStart
    rcases start with rfl | ⟨bound, unentered⟩
    · simpa [stable.first positive] using inStart
    · by_cases first : s = 0
      · subst first
        simpa [stable.first positive] using inStart
      · have unlisted : lists s = [] := eq_nil_iff_forall_not_mem.mpr
          fun u listed => unentered u ((lists_spec.mem u s).mp listed)
        have fixed := stable.fixed s (by omega) bound
        have inNext : c ∈ nextDominators lists dominators s := fixed ▸ inStart
        exact (mem_nextDominators.mp inNext).resolve_right fun shared => shared.1 unlisted
  · intro u v hedge _ d inTarget
    by_cases first : v = 0
    · subst first
      have isFirst : d ∈ ({0} : Finset Nat) := stable.first positive ▸ inTarget
      exact .inl (Finset.mem_singleton.mp isFirst)
    · have fixed := stable.fixed v (by omega) (lists_spec.target u v hedge)
      have inNext : d ∈ nextDominators lists dominators v := fixed ▸ inTarget
      rcases mem_nextDominators.mp inNext with equal | ⟨-, shared⟩
      · exact .inl equal
      · exact .inr (shared u ((lists_spec.mem u v).mpr hedge))

/-- Stable covering sets hold the dominators exactly when the walks from the other starts
    pass through the first block. -/
theorem holdsDominators_iff
    (stable : Stable lists n dominators) (covering : Covering edge n dominators)
    (lists_spec : ListsPredecessors edge n lists) (positive : 0 < n) :
    HoldsDominators edge (dominatorsAt dominators) ↔ StartsPassFirst edge n := by
  have below : ∀ path, Walk 0 edge path → ∀ node ∈ path, node < n :=
    fun path walk => Walk.forall_mem {node | node < n} walk positive
      fun u v hedge => lists_spec.target u v hedge
  constructor
  · intro holds b reachable _ bound unentered
    exact stable.dominates lists_spec positive (.inr ⟨bound, unentered⟩)
      ((holds b reachable 0).mpr .of_entry)
  · intro passes b reachable c
    obtain ⟨path, walk⟩ := reachable
    have bound : b < n := below _ walk b mem_cons_self
    constructor
    · exact stable.dominates lists_spec positive (.inl rfl)
    · intro dominates
      refine covering.covers b bound c (below _ walk c (dominates path walk)) ?_
      rintro _ (rfl | ⟨inside, unentered⟩)
      · exact dominates
      · exact (passes b ⟨path, walk⟩ _ inside unentered).through dominates

theorem dominatorPasses_covering (lists_spec : ListsPredecessors edge n lists) :
    Covering edge n
      (untilUnchanged (dominatorPass lists) (n * n + 1) (initialDominators n)) :=
  (dominatorPasses_spec lists n).1.invariant _ (dominatorPass_covering lists_spec)
    initialDominators_covering

/-- An operation of block `u` names block `v` as a successor. -/
def SuccessorEdge (function : Function) (u v : Nat) : Prop :=
  ∃ block operation successor, function.blocks[u]? = some block ∧
    operation ∈ block.operations ∧ successor ∈ operation.successors ∧
    (functionTables function).blockIndices.find? successor.block = some v

theorem blockIndices_lt {id : BlockId} {v : Nat}
    (found : (functionTables function).blockIndices.find? id = some v) :
    v < function.blocks.length := by
  have below := collect_invariant (registerBlock function)
    (fun tables => ∀ binding ∈ tables.blockIndices, binding.2 < function.blocks.length)
    function.blocks.zipIdx {} (by simp) (by
      intro indexed member tables holds binding bound
      simp only [registerBlock, AssocMap.emplace] at bound
      have inside := mem_zipIdx member
      split at bound
      · exact holds binding bound
      · split at bound
        · exact holds binding bound
        · rcases mem_append.mp bound with old | new
          · exact holds binding old
          · rw [mem_singleton.mp new]
            simpa using inside.2.1)
  exact below (id, v) (AssocMap.mem_of_find? found)

theorem listsPredecessors_verify (function : Function) :
    ListsPredecessors (SuccessorEdge function) function.blocks.length
      (predecessors function (functionTables function).blockIndices) where
  mem u v := by
    simp only [predecessors, mem_flatMap, Prod.exists, mem_zipIdx_iff_getElem?]
    constructor
    · rintro ⟨block, i, at_i, operation, inBlock, successor, inOperation, listed⟩
      split at listed
      · next found =>
          obtain rfl := mem_singleton.mp listed
          exact ⟨block, operation, successor, at_i, inBlock, inOperation, found⟩
      · exact absurd listed not_mem_nil
    · rintro ⟨block, operation, successor, at_u, inBlock, inOperation, found⟩
      refine ⟨block, u, at_u, operation, inBlock, successor, inOperation, ?_⟩
      rw [if_pos found]
      exact mem_singleton_self u
  source u v := by
    rintro ⟨block, _, _, at_u, _⟩
    exact (List.getElem?_eq_some_iff.mp at_u).1
  target u v := by
    rintro ⟨_, _, _, _, _, _, found⟩
    exact blockIndices_lt found

/-- The recorded definition dominates operation `k` of block `b`. -/
inductive DefinitionDominates (function : Function) (definition : ValueDefinition)
    (b k : Nat) : Prop
  | functionArgument : definition.functionArgument = true →
      DefinitionDominates function definition b k
  | sameBlock : (functionTables function).blockIndices.find? definition.block = some b →
      definition.blockArgument = true ∨ definition.operationIndex < k →
      DefinitionDominates function definition b k
  | otherBlock {d : Nat} :
      (functionTables function).blockIndices.find? definition.block = some d → d ≠ b →
      Dominates 0 (SuccessorEdge function) d b → DefinitionDominates function definition b k

/-- A use of a defined value with its type, by operation `k` of block `b`. -/
structure IsUse (function : Function) (b k : Nat) (operation : Operation) (operand : Operand)
    (definition : ValueDefinition) : Prop where
  isOperation : ∃ block, function.blocks[b]? = some block ∧
    block.operations[k]? = some operation
  isOperand : operand ∈ operation.operands
  isValue : operand.kind = .value
  defined : (functionTables function).definitions.find? operand.value = some definition
  typed : operand.type = definition.type
  placed : definition.functionArgument = true ∨
    ((functionTables function).blockIndices.find? definition.block).isSome

def AcceptsUse (function : Function) (b k : Nat) (operation : Operation) (operand : Operand) :
    Prop :=
  operandDiagnostics (functionTables function) ⟨b, k, operation.location⟩ operand = []

/-- The loop ends, its sets are the dominators of the reachable blocks, and a use in a
    reachable block is accepted exactly when its definition dominates it. -/
structure VerifiesDominance (function : Function) : Prop where
  ends : RunsTo
    (dominatorPass (predecessors function (functionTables function).blockIndices))
    (initialDominators function.blocks.length) (functionTables function).dominators
  exact : HoldsDominators (SuccessorEdge function)
    (dominatorsAt (functionTables function).dominators)
  uses : ∀ b k operation operand definition, Reachable 0 (SuccessorEdge function) b →
    IsUse function b k operation operand definition →
    (AcceptsUse function b k operation operand ↔ DefinitionDominates function definition b k)

/-- Where the sets are the dominators, the operand check decides dominance. -/
theorem acceptsUse_iff (exact : HoldsDominators (SuccessorEdge function)
      (dominatorsAt (functionTables function).dominators))
    {b k : Nat} {operation : Operation} {operand : Operand} {definition : ValueDefinition}
    (reachable : Reachable 0 (SuccessorEdge function) b)
    (use : IsUse function b k operation operand definition) :
    AcceptsUse function b k operation operand ↔
      DefinitionDominates function definition b k := by
  have typed : (operand.type != definition.type) = false := by simp [use.typed]
  have quiet : complain (operand.type != definition.type)
      ("operand type " ++ operand.type.str ++ " does not match value %" ++
        toString operand.value ++ " type " ++ definition.type.str) operation.location = [] := by
    rw [typed]
    rfl
  unfold AcceptsUse operandDiagnostics
  rw [if_neg (not_not.mpr use.isValue), use.defined]
  simp only [quiet, nil_append]
  by_cases argument : definition.functionArgument = true
  · rw [if_pos argument]
    exact iff_of_true rfl (.functionArgument argument)
  · rw [if_neg argument]
    obtain ⟨d, found⟩ := Option.isSome_iff_exists.mp (use.placed.resolve_left argument)
    simp only [found]
    by_cases same : d = b
    · subst same
      rw [if_pos rfl, complain_eq_nil_iff]
      constructor
      · intro accepted
        exact .sameBlock found (by
          rcases Bool.eq_false_or_eq_true definition.blockArgument with held | free
          · exact .inl held
          · exact .inr (by simpa [free] using accepted))
      · rintro (held | ⟨_, held | earlier⟩ | ⟨found', other, _⟩)
        · exact absurd held argument
        · simp [held]
        · simp [earlier]
        · rw [found] at found'
          exact absurd (Option.some.inj found').symm other
    · rw [if_neg same, complain_eq_nil_iff, decide_eq_false_iff_not, not_not,
        exact b reachable d]
      constructor
      · exact .otherBlock found same
      · rintro (held | ⟨found', _⟩ | ⟨found', _, dominates⟩)
        · exact absurd held argument
        · rw [found] at found'
          exact absurd (Option.some.inj found') same
        · rw [found] at found'
          exact Option.some.inj found' ▸ dominates

/-- The verifier decides dominance exactly when the walks from the blocks without
    predecessors pass through the first block. -/
theorem verifiesDominance_iff (nonempty : function.blocks ≠ []) :
    VerifiesDominance function ↔
      StartsPassFirst (SuccessorEdge function) function.blocks.length := by
  have lists_spec := listsPredecessors_verify function
  have decides := holdsDominators_iff (dominatorPasses_spec _ _).2
    (dominatorPasses_covering lists_spec) lists_spec (length_pos_of_ne_nil nonempty)
  refine ⟨fun verifies => decides.mp verifies.exact, fun passes => ?_⟩
  have exact := decides.mpr passes
  exact ⟨(dominatorPasses_spec _ _).1, exact,
    fun _ _ _ _ _ reachable use => acceptsUse_iff exact reachable use⟩

end CuMetal.Ir
