import CuMetal.Ir.DominatorSets

/-!
# The dominators of the lowerer

`AstLowerer::analyze_cfg` repeats the fixpoint of the verifier with a row of bits for each
block and the terminators' edges only.  Each pass is the verifier's pass with the sets
written as rows, so the rows are the dominators under the same condition.
-/

namespace CuMetal.Metal

open CuMetal.Ir CuMetal.Graph List

/-- `block_indices` of the lowerer (`lower_to_msl.cpp:5263-5264`); a later block with the
    same identifier replaces an earlier one. -/
def blockIndices (function : Function) : AssocMap BlockId Nat :=
  function.blocks.zipIdx.foldl (fun indices indexed => indices.assign indexed.1.id indexed.2) []

/-- `predecessors[target]` of the lowerer (`lower_to_msl.cpp:4337-4344`). -/
def terminatorPredecessors (function : Function) (target : Nat) : List Nat :=
  function.blocks.zipIdx.flatMap fun indexed => indexed.1.exits.flatMap fun successor =>
    if (blockIndices function).find? successor.block = some target then [indexed.2] else []

/-- `dominators[block]` of the lowerer, one bit for each candidate. -/
def rowAt (rows : List (List Bool)) (block : Nat) : List Bool := rows.getD block []

/-- The row computed for a block (`lower_to_msl.cpp:4354-4366`). -/
def nextRow (lists : Nat → List Nat) (count : Nat) (rows : List (List Bool)) (block : Nat) :
    List Bool :=
  let next :=
    match lists block with
    | [] => List.replicate count false
    | predecessors =>
      predecessors.foldl
        (fun next predecessor => List.zipWith (· && ·) next (rowAt rows predecessor))
        (List.replicate count true)
  next.set block true

/-- The body of the block loop (`lower_to_msl.cpp:4353-4371`). -/
def updateRow (lists : Nat → List Nat) (count : Nat) (state : List (List Bool) × Bool)
    (block : Nat) : List (List Bool) × Bool :=
  if nextRow lists count state.1 block ≠ rowAt state.1 block then
    (state.1.set block (nextRow lists count state.1 block), true)
  else state

/-- One pass over the blocks after the first, with the `changed` flag. -/
def rowPass (lists : Nat → List Nat) (count : Nat) (rows : List (List Bool)) :
    List (List Bool) × Bool :=
  (List.range' 1 (count - 1)).foldl (updateRow lists count) (rows, false)

/-- The rows before the loop (`lower_to_msl.cpp:4346-4349`). -/
def initialRows (count : Nat) : List (List Bool) :=
  (List.replicate count (List.replicate count true)).set 0 ((List.replicate count false).set 0 true)

/-- Every block has a terminator, and `block_indices.at` finds all its successors. -/
def hasIndexedExits (function : Function) : Bool :=
  function.blocks.all fun block =>
    !block.operations.isEmpty &&
      block.exits.all fun successor => (blockIndices function).contains successor.block

/-- The predecessors and dominators of `analyze_cfg` (`lower_to_msl.cpp:4335-4372`), or
    `none` where `back()` or `at` fails. -/
def analyzeCfg (function : Function) : Option (List (List Bool)) :=
  let count := function.blocks.length
  if hasIndexedExits function then
    some (untilUnchanged (rowPass (terminatorPredecessors function) count)
      (count * count + 1) (initialRows count))
  else none

/-- `dominates` (`lower_to_msl.cpp:4407-4410`). -/
def dominates (rows : List (List Bool)) (dominator block : Nat) : Bool :=
  (rowAt rows block).getD dominator false

/-! ## Sets as rows -/

variable {lists : Nat → List Nat} {n : Nat}

/-- The row of a set of blocks below `n`. -/
def rowOf (n : Nat) (set : Finset Nat) : List Bool :=
  (List.range n).map fun candidate => decide (candidate ∈ set)

@[simp] theorem length_rowOf (n : Nat) (set : Finset Nat) : (rowOf n set).length = n := by
  simp [rowOf]

variable {c i : Nat} {sets : List (Finset Nat)} {rows : List (List Bool)}

theorem getElem?_rowOf {n : Nat} (set : Finset Nat) (bound : c < n) :
    (rowOf n set)[c]? = some (decide (c ∈ set)) := by
  simp [rowOf, bound]

theorem eq_rowOf {row : List Bool} {set : Finset Nat} (length : row.length = n)
    (bits : ∀ c < n, row[c]? = some (decide (c ∈ set))) : row = rowOf n set := by
  refine ext_getElem? fun c => ?_
  by_cases bound : c < n
  · rw [bits c bound, getElem?_rowOf set bound]
  · rw [getElem?_eq_none (by omega), getElem?_eq_none (by simp; omega)]

theorem rowOf_inj {left right : Finset Nat} (leftBelow : left ⊆ Finset.range n)
    (rightBelow : right ⊆ Finset.range n) (same : rowOf n left = rowOf n right) :
    left = right := by
  ext c
  by_cases bound : c < n
  · have bit := congrArg (fun row => row[c]?) same
    simpa [getElem?_rowOf _ bound] using bit
  · have outside : ∀ set ⊆ Finset.range n, c ∉ set := fun set below member =>
      bound (Finset.mem_range.mp (below member))
    exact iff_of_false (outside left leftBelow) (outside right rightBelow)

/-- The rows of some sets, all of blocks below `n`. -/
structure RowsOf (n : Nat) (sets : List (Finset Nat)) (rows : List (List Bool)) : Prop where
  length : sets.length = n
  below : ∀ i, dominatorsAt sets i ⊆ Finset.range n
  rows : rows = sets.map (rowOf n)

section

variable (agree : RowsOf n sets rows)
include agree

theorem RowsOf.rowAt (bound : i < n) : rowAt rows i = rowOf n (dominatorsAt sets i) := by
  have inside : i < sets.length := agree.length ▸ bound
  simp [Metal.rowAt, dominatorsAt, agree.rows, getD_eq_getElem?_getD, inside]

theorem RowsOf.dominates_iff {b : Nat} : dominates rows c b = true ↔ c ∈ dominatorsAt sets b := by
  unfold dominates
  by_cases bound : b < n
  · rw [agree.rowAt bound, getD_eq_getElem?_getD]
    by_cases below : c < n
    · simp [getElem?_rowOf _ below]
    · have outside : c ∉ dominatorsAt sets b := fun member =>
        below (Finset.mem_range.mp (agree.below b member))
      simp [rowOf, below, outside]
  · have noRow : rows.length ≤ b := by
      rw [agree.rows, length_map, agree.length]
      omega
    have noSet : sets.length ≤ b := by
      rw [agree.length]
      omega
    simp [Metal.rowAt, dominatorsAt, getD_eq_getElem?_getD,
      getElem?_eq_none noRow, getElem?_eq_none noSet]

theorem foldl_zipWith_and (bound : c < n) :
    ∀ (blocks : List Nat) (start : List Bool), (∀ p ∈ blocks, p < n) → start.length = n →
      (blocks.foldl (fun next p => List.zipWith (· && ·) next (Metal.rowAt rows p)) start).length
          = n ∧
        (blocks.foldl (fun next p => List.zipWith (· && ·) next (Metal.rowAt rows p)) start)[c]?
          = start[c]?.map fun bit =>
            bit && decide (∀ p ∈ blocks, c ∈ dominatorsAt sets p) := by
  intro blocks
  induction blocks with
  | nil => intro start _ length; simp [length]
  | cons p blocks ih =>
    intro start inside length
    have row := agree.rowAt (inside p mem_cons_self)
    obtain ⟨lengths, bits⟩ := ih (zipWith (· && ·) start (Metal.rowAt rows p))
      (fun q member => inside q (mem_cons_of_mem _ member)) (by simp [row, length])
    rw [foldl_cons]
    refine ⟨lengths, bits.trans ?_⟩
    obtain ⟨bit, present⟩ : ∃ bit, start[c]? = some bit :=
      ⟨_, getElem?_eq_getElem (length.symm ▸ bound)⟩
    simp [getElem?_zipWith, row, getElem?_rowOf _ bound, present, Bool.and_assoc]

/-- The row computed for a block is the row of the set computed for it. -/
theorem nextRow_eq (inside : ∀ v, ∀ u ∈ lists v, u < n) (i : Nat) :
    nextRow lists n rows i = rowOf n (nextDominators lists sets i) := by
  unfold nextRow
  cases listed : lists i with
  | nil =>
    refine eq_rowOf (by simp) fun c bound => ?_
    have member : c ∈ nextDominators lists sets i ↔ c = i := by
      simp [mem_nextDominators, listed]
    rw [getElem?_set]
    by_cases same : i = c
    · subst same
      simp [member, bound]
    · simp [same, member, bound, Ne.symm same]
  | cons front rest =>
    have below : ∀ p ∈ front :: rest, p < n := fun p member =>
      inside i p (listed ▸ member)
    refine eq_rowOf ?_ fun c bound => ?_
    · rw [length_set]
      by_cases positive : 0 < n
      · exact (foldl_zipWith_and agree positive _ _ below (by simp)).1
      · exact absurd (below front mem_cons_self) (by omega)
    · obtain ⟨length, bits⟩ := foldl_zipWith_and agree bound (front :: rest)
        (replicate n true) below (by simp)
      have member : c ∈ nextDominators lists sets i ↔
          c = i ∨ ∀ p ∈ front :: rest, c ∈ dominatorsAt sets p := by
        simp [mem_nextDominators, listed]
      rw [getElem?_set, length]
      by_cases same : i = c
      · subst same
        simp [member, bound]
      · rw [if_neg same, bits]
        simp [member, bound, Ne.symm same]

end

theorem nextDominators_below (lists : Nat → List Nat)
    (below : ∀ i, dominatorsAt sets i ⊆ Finset.range n) (bound : i < n) :
    nextDominators lists sets i ⊆ Finset.range n := by
  intro c member
  rcases mem_nextDominators.mp member with rfl | ⟨nonempty, shared⟩
  · exact Finset.mem_range.mpr bound
  · obtain ⟨p, listed⟩ := exists_mem_of_ne_nil _ nonempty
    exact below p (shared p listed)

/-- The states of the two loops correspond. -/
structure StatesAgree (n : Nat) (state : List (Finset Nat) × Bool)
    (state' : List (List Bool) × Bool) : Prop where
  rows : RowsOf n state.1 state'.1
  flags : state.2 = state'.2

theorem updateRow_agrees {state : List (Finset Nat) × Bool} {state' : List (List Bool) × Bool}
    (agree : StatesAgree n state state') (inside : ∀ v, ∀ u ∈ lists v, u < n) (bound : i < n) :
    StatesAgree n (updateDominators lists state i) (updateRow lists n state' i) := by
  have next := nextRow_eq agree.rows inside i
  have row := agree.rows.rowAt bound
  have nextBelow := nextDominators_below lists agree.rows.below bound
  have test : nextRow lists n state'.1 i ≠ rowAt state'.1 i ↔
      nextDominators lists state.1 i ≠ dominatorsAt state.1 i := by
    rw [next, row]
    exact not_congr ⟨rowOf_inj nextBelow (agree.rows.below i), fun same => by rw [same]⟩
  unfold updateDominators updateRow
  by_cases changes : nextDominators lists state.1 i ≠ dominatorsAt state.1 i
  · rw [if_pos changes, if_pos (test.mpr changes)]
    refine ⟨⟨by simpa using agree.rows.length, ?_, ?_⟩, rfl⟩
    · intro j
      rw [dominatorsAt_set _ _ _ _ (agree.rows.length ▸ bound)]
      split
      · exact nextBelow
      · exact agree.rows.below j
    · simp only [next, map_set, ← agree.rows.rows]
  · rw [if_neg changes, if_neg fun differs => changes (test.mp differs)]
    exact agree

/-- One pass over corresponding sets and rows leaves them corresponding. -/
theorem rowPass_agrees (agree : RowsOf n sets rows) (inside : ∀ v, ∀ u ∈ lists v, u < n) :
    StatesAgree n (dominatorPass lists sets) (rowPass lists n rows) := by
  unfold dominatorPass rowPass
  rw [agree.length]
  have below : ∀ i ∈ range' 1 (n - 1), i < n := fun i member => by
    rw [mem_range'_1] at member
    omega
  generalize range' 1 (n - 1) = blocks at below
  suffices ∀ state state', StatesAgree n state state' →
      StatesAgree n (blocks.foldl (updateDominators lists) state)
        (blocks.foldl (updateRow lists n) state') from
    this _ _ ⟨agree, rfl⟩
  induction blocks with
  | nil => exact fun _ _ agree => agree
  | cons i blocks ih =>
    intro state state' agree
    exact ih (fun j member => below j (mem_cons_of_mem _ member)) _ _
      (updateRow_agrees agree inside (below i mem_cons_self))

theorem initialRows_agrees (n : Nat) : RowsOf n (initialDominators n) (initialRows n) := by
  refine ⟨by simp [initialDominators], ?_, ?_⟩
  · intro i
    rw [initialDominators_at]
    split
    · split
      · intro c member
        rw [Finset.mem_singleton.mp member]
        exact Finset.mem_range.mpr (by omega)
      · exact Finset.Subset.refl _
    · exact Finset.empty_subset _
  · refine ext_getElem? fun i => ?_
    by_cases bound : i < n
    · have full : replicate n true = rowOf n (Finset.range n) :=
        eq_rowOf (by simp) fun c below => by simp [below]
      have first : (replicate n false).set 0 true = rowOf n {0} :=
        eq_rowOf (by simp) fun c below => by
          rw [getElem?_set]
          by_cases same : 0 = c
          · subst same
            simp [below]
          · simp [same, below, Ne.symm same]
      rw [initialRows, full, first, getElem?_set]
      by_cases same : 0 = i
      · subst same
        simp [initialDominators, bound]
      · simp [initialDominators, bound, same, Ne.symm same]
    · rw [getElem?_eq_none (by simp [initialRows]; omega),
        getElem?_eq_none (by simp [initialDominators]; omega)]

/-- The loop over the rows ends with the rows of the sets where the loop over the sets
    ends. -/
theorem rowPasses_spec (inside : ∀ v, ∀ u ∈ lists v, u < n) :
    RunsTo (rowPass lists n) (initialRows n)
        (untilUnchanged (rowPass lists n) (n * n + 1) (initialRows n)) ∧
      RowsOf n (untilUnchanged (dominatorPass lists) (n * n + 1) (initialDominators n))
        (untilUnchanged (rowPass lists n) (n * n + 1) (initialRows n)) := by
  have step : ∀ sets rows, RowsOf n sets rows →
      RowsOf n (dominatorPass lists sets).1 (rowPass lists n rows).1 ∧
        (dominatorPass lists sets).2 = (rowPass lists n rows).2 :=
    fun _ _ agree =>
      ⟨(rowPass_agrees agree inside).rows, (rowPass_agrees agree inside).flags⟩
  have bounded := untilUnchanged_simulates (RowsOf n) step (n * n + 1) _ _ (initialRows_agrees n)
  obtain ⟨last, run, agree⟩ :=
    (dominatorPasses_spec lists n).1.simulates (RowsOf n) step _ (initialRows_agrees n)
  have same : last = untilUnchanged (rowPass lists n) (n * n + 1) (initialRows n) :=
    agree.rows.trans bounded.rows.symm
  exact ⟨same ▸ run, bounded⟩

/-- The terminator of block `u` names block `v` as a successor. -/
def TerminatorEdge (function : Function) (u v : Nat) : Prop :=
  ∃ block successor, function.blocks[u]? = some block ∧ successor ∈ block.exits ∧
    (blockIndices function).find? successor.block = some v

theorem blockIndices_lt {function : Function} {id : BlockId} {v : Nat}
    (found : (blockIndices function).find? id = some v) : v < function.blocks.length := by
  suffices ∀ (indexed : List (BasicBlock × Nat)) (indices : AssocMap BlockId Nat),
      (∀ entry ∈ indexed, entry.2 < function.blocks.length) →
      (∀ binding ∈ indices, binding.2 < function.blocks.length) →
      ∀ binding ∈ indexed.foldl
        (fun indices indexed => indices.assign indexed.1.id indexed.2) indices,
        binding.2 < function.blocks.length from
    this function.blocks.zipIdx [] (fun entry member => by
        have inside := mem_zipIdx (x := entry.1) (i := entry.2) member
        omega)
      (by simp) (id, v) (AssocMap.mem_of_find? found)
  intro indexed
  induction indexed with
  | nil => exact fun _ _ holds => holds
  | cons entry indexed ih =>
    intro indices inside holds
    refine ih _ (fun later member => inside later (mem_cons_of_mem _ member)) ?_
    intro binding member
    rcases AssocMap.mem_assign member with rfl | old
    · exact inside entry mem_cons_self
    · exact holds binding old

theorem listsPredecessors_terminators (function : Function) :
    ListsPredecessors (TerminatorEdge function) function.blocks.length
      (terminatorPredecessors function) where
  mem u v := by
    simp only [terminatorPredecessors, mem_flatMap, Prod.exists,
      mem_zipIdx_iff_getElem?]
    constructor
    · rintro ⟨block, i, at_i, successor, inExits, listed⟩
      split at listed
      · next found =>
          obtain rfl := mem_singleton.mp listed
          exact ⟨block, successor, at_i, inExits, found⟩
      · exact absurd listed not_mem_nil
    · rintro ⟨block, successor, at_u, inExits, found⟩
      refine ⟨block, u, at_u, successor, inExits, ?_⟩
      rw [if_pos found]
      exact mem_singleton_self u
  source u v := by
    rintro ⟨block, _, at_u, _⟩
    exact (List.getElem?_eq_some_iff.mp at_u).1
  target u v := by
    rintro ⟨_, _, _, _, found⟩
    exact blockIndices_lt found

/-- The loop ends, and the rows are the dominators of the reachable blocks. -/
structure AnalyzesDominance (function : Function) (rows : List (List Bool)) : Prop where
  ends : RunsTo (rowPass (terminatorPredecessors function) function.blocks.length)
    (initialRows function.blocks.length) rows
  exact : ∀ b, Reachable 0 (TerminatorEdge function) b → ∀ c,
    dominates rows c b = true ↔ Dominates 0 (TerminatorEdge function) c b

/-- The lowerer computes the dominators exactly when the walks from the blocks without
    predecessors pass through the first block. -/
theorem analyzesDominance_iff {function : Function}
    (nonempty : function.blocks ≠ []) (analyzed : analyzeCfg function = some rows) :
    AnalyzesDominance function rows ↔
      StartsPassFirst (TerminatorEdge function) function.blocks.length := by
  have lists_spec := listsPredecessors_terminators function
  have decides := holdsDominators_iff (dominatorPasses_spec _ _).2
    (dominatorPasses_covering lists_spec) lists_spec (length_pos_of_ne_nil nonempty)
  obtain ⟨ends, agree⟩ := rowPasses_spec
    fun v u listed => lists_spec.source u v ((lists_spec.mem u v).mp listed)
  unfold analyzeCfg at analyzed
  split at analyzed
  · cases analyzed
    constructor
    · intro analyzes
      refine decides.mp fun b reachable c => ?_
      rw [← agree.dominates_iff]
      exact analyzes.exact b reachable c
    · intro passes
      refine ⟨ends, fun b reachable c => ?_⟩
      rw [agree.dominates_iff]
      exact decides.mpr passes b reachable c
  · cases analyzed

/-- Whatever a function branches to, the verifier and the lowerer compute the dominators
    of its reachable blocks, and decide which uses they dominate, exactly when every walk
    from a block without predecessors to a reachable block passes through the first. -/
theorem dominators_exact_iff {function : Function} (nonempty : function.blocks ≠ []) :
    (VerifiesDominance function ↔
        StartsPassFirst (SuccessorEdge function) function.blocks.length) ∧
      ∀ rows, analyzeCfg function = some rows →
        (AnalyzesDominance function rows ↔
          StartsPassFirst (TerminatorEdge function) function.blocks.length) :=
  ⟨verifiesDominance_iff nonempty, fun _ analyzed => analyzesDominance_iff nonempty analyzed⟩

/-- A value defined in the first block and used in the last. -/
def joinUse : Operand := Operand.valueRef 1 (.integer 32)

def joinReturn : Operation := { opcode := .return, operands := [joinUse] }

/-- A block that defines a value and goes to a block that uses it, and between them a block
    that nothing reaches and that goes to the same place. -/
def deadBranch : Function :=
  { name := "f"
    blocks :=
      [{ id := 1, name := "entry", operations :=
          [{ opcode := .constant, results := [1], resultTypes := [joinUse.type] },
            { opcode := .branch, successors := [{ block := 3 }] }] },
        { id := 2, name := "dead", operations :=
          [{ opcode := .branch, successors := [{ block := 3 }] }] },
        { id := 3, name := "join", operations := [joinReturn] }] }

theorem dominators_exact_deadBranch : deadBranch.blocks ≠ [] ∧
    (VerifiesDominance deadBranch ↔ StartsPassFirst (SuccessorEdge deadBranch) 3) ∧
      ∀ rows, analyzeCfg deadBranch = some rows →
        (AnalyzesDominance deadBranch rows ↔ StartsPassFirst (TerminatorEdge deadBranch) 3) :=
  ⟨by decide, dominators_exact_iff (by decide)⟩

/-- The use in the last block is dominated by its definition and rejected. -/
theorem deadBranch_rejects_use :
    Reachable 0 (SuccessorEdge deadBranch) 2 ∧ Dominates 0 (SuccessorEdge deadBranch) 0 2 ∧
      dominatorsAt (functionTables deadBranch).dominators 2 = {2} ∧
      DefinitionDominates deadBranch { type := joinUse.type, block := 1 } 2 0 ∧
      IsUse deadBranch 2 0 joinReturn joinUse { type := joinUse.type, block := 1 } ∧
      ¬ AcceptsUse deadBranch 2 0 joinReturn joinUse ∧
      (analyzeCfg deadBranch).map (fun rows => dominates rows 0 2) = some false := by
  have reachable : Reachable 0 (SuccessorEdge deadBranch) 2 :=
    ⟨[0], .step .entry ⟨_, _, { block := 3 }, rfl, mem_cons_of_mem _ mem_cons_self,
      mem_cons_self, by decide⟩⟩
  have first : Dominates 0 (SuccessorEdge deadBranch) 0 2 := Dominates.of_entry
  refine ⟨reachable, first, by decide, .otherBlock (d := 0) (by decide) (by decide) first,
    ⟨⟨_, rfl, rfl⟩, by decide, rfl, by decide, rfl, .inr (by decide)⟩, ?_, by decide⟩
  unfold AcceptsUse
  decide

end CuMetal.Metal
