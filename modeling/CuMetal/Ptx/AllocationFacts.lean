import CuMetal.Ptx.CfgFacts
import CuMetal.Ptx.Ssa

/-!
# What the allocation of values records

Every value belongs to one register, the results of an instruction belong to its
destinations in order, and the last definitions of a block are what its instructions
leave in an environment.
-/

namespace CuMetal.Ptx

open Function List RawBlock

open Ir (ValueId)

variable {context : ImportContext} {body : List Instruction}

/-- The fields that `build_cfg` sets. -/
def RawBlock.shape (block : RawBlock) : Ir.BlockId × String × List Nat × List Nat × List Nat :=
  (block.id, block.name, block.instructions, block.successors, block.predecessors)

theorem scanSource_shape (scan : BlockScan) (source : String) :
    (scanSource scan source).block.shape = scan.block.shape := by
  unfold scanSource
  split <;> rfl

theorem foldl_scanSource_shape (sources : List String) :
    ∀ scan : BlockScan, (sources.foldl scanSource scan).block.shape = scan.block.shape := by
  induction sources with
  | nil => intro scan; rfl
  | cons source sources ih =>
    intro scan
    rw [foldl_cons, ih, scanSource_shape]

section

variable (context : ImportContext)

theorem foldl_scanDestination_shape (destinations : List String) :
    ∀ state : BlockScan × List Ir.ValueId,
      (destinations.foldl (scanDestination context) state).1.block.shape =
        state.1.block.shape := by
  induction destinations with
  | nil => intro state; rfl
  | cons destination destinations ih =>
    intro state
    rw [foldl_cons, ih]
    rfl

theorem allocateInstruction_shape (body : List Instruction) (scan : BlockScan) (i : Nat) :
    (allocateInstruction context body scan i).block.shape = scan.block.shape := by
  unfold allocateInstruction
  rw [foldl_scanDestination_shape, foldl_scanSource_shape]

theorem foldl_allocateInstruction_shape (body : List Instruction) (indices : List Nat) :
    ∀ scan : BlockScan,
      (indices.foldl (allocateInstruction context body) scan).block.shape =
        scan.block.shape := by
  induction indices with
  | nil => intro scan; rfl
  | cons i indices ih =>
    intro scan
    rw [foldl_cons, ih, allocateInstruction_shape]

theorem foldl_allocateBlock_shape (body : List Instruction) (blocks : List RawBlock) :
    ∀ state : Allocation × List RawBlock,
      (blocks.foldl (allocateBlock context body) state).2.map shape =
        state.2.map shape ++ blocks.map shape := by
  induction blocks with
  | nil => intro state; simp
  | cons block blocks ih =>
    intro state
    rw [foldl_cons, ih]
    simp [allocateBlock, foldl_allocateInstruction_shape]

theorem allocateValues_shape (body : List Instruction) (blocks : List RawBlock) :
    (allocateValues context body blocks).2.map shape = blocks.map shape := by
  rw [allocateValues, foldl_allocateBlock_shape]
  simp

end

/-- The recorded values are older than the next one and belong to the register that the
    owner function gives. -/
structure Owned (context : ImportContext) (body : List Instruction) (owner : ValueId → String)
    (allocation : Allocation) : Prop where
  implicit : ∀ binding ∈ allocation.implicitValues, binding.2 < allocation.nextValue ∧
    owner binding.2 = binding.1 ∧ binding.1 ∈ context.implicitDefinitions
  results : ∀ i values, allocation.instructionResults.find? i = some values →
    values.map owner = destinationRegisters (instructionAt body i) ∧
      ∀ value ∈ values, value < allocation.nextValue

variable {owner : ValueId → String} {allocation : Allocation}
  {first second : AssocMap Nat (List ValueId)}

theorem Owned.fresh (owned : Owned context body owner allocation) (name : String) :
    Owned context body (Function.update owner allocation.nextValue name)
      (allocation.fresh context name) := by
  have older : ∀ value < allocation.nextValue,
      update owner allocation.nextValue name value = owner value := by
    intro value less
    rw [update_of_ne (ne_of_lt less)]
  constructor
  · intro binding member
    obtain ⟨less, owns, implicit⟩ := owned.implicit binding member
    exact ⟨Nat.lt_succ_of_lt less, by rw [older _ less, owns], implicit⟩
  · intro i values found
    obtain ⟨names, less⟩ := owned.results i values found
    refine ⟨?_, fun value member => Nat.lt_succ_of_lt (less value member)⟩
    rw [← names]
    exact map_congr_left fun value member => older value (less value member)

theorem Owned.implicitStep (owned : Owned context body owner allocation) {name : String}
    (member : name ∈ context.implicitDefinitions) :
    Owned context body (Function.update owner allocation.nextValue name)
      (allocateImplicit context allocation name) := by
  have fresh := owned.fresh name
  constructor
  · intro binding hbinding
    rcases AssocMap.mem_assign hbinding with rfl | earlier
    · exact ⟨Nat.lt_succ_self _, update_self .., member⟩
    · exact fresh.implicit binding earlier
  · exact fresh.results

theorem exists_owned_implicit :
    ∀ (names : List String) (allocation : Allocation) (owner : ValueId → String),
      names ⊆ context.implicitDefinitions → Owned context body owner allocation →
      ∃ owner', Owned context body owner'
        (names.foldl (allocateImplicit context) allocation) := by
  intro names
  induction names with
  | nil => exact fun allocation owner _ owned => ⟨owner, owned⟩
  | cons name names ih =>
    intro allocation owner subset owned
    exact ih _ _ (Subset.trans (subset_cons_self name names) subset)
      (owned.implicitStep (subset mem_cons_self))

theorem exists_owned_destinations (context : ImportContext) :
    ∀ (names : List String) (state : BlockScan × List ValueId) (owner : ValueId → String),
      Owned context body owner state.1.allocation →
      (∀ value ∈ state.2, value < state.1.allocation.nextValue) →
      ∃ owner', Owned context body owner'
          (names.foldl (scanDestination context) state).1.allocation ∧
        (names.foldl (scanDestination context) state).2.map owner' =
          state.2.map owner ++ names ∧
        ∀ value ∈ (names.foldl (scanDestination context) state).2,
          value < (names.foldl (scanDestination context) state).1.allocation.nextValue := by
  intro names
  induction names with
  | nil => exact fun state owner owned less => ⟨owner, owned, by simp, less⟩
  | cons name names ih =>
    intro state owner owned less
    have older : state.2.map (update owner state.1.allocation.nextValue name) =
        state.2.map owner := by
      apply map_congr_left
      intro value member
      rw [update_of_ne (ne_of_lt (less value member))]
    obtain ⟨owner', owned', names', less'⟩ := ih (scanDestination context state name)
      (update owner state.1.allocation.nextValue name) (owned.fresh name) (by
        intro value member
        rcases mem_append.mp member with earlier | last
        · exact Nat.lt_succ_of_lt (less value earlier)
        · rw [mem_singleton.mp last]
          exact Nat.lt_succ_self _)
    refine ⟨owner', owned', ?_, less'⟩
    rw [foldl_cons, names']
    simp [scanDestination, older]

theorem foldl_scanSource_allocation :
    ∀ (sources : List String) (scan : BlockScan),
      (sources.foldl scanSource scan).allocation = scan.allocation ∧
        (sources.foldl scanSource scan).locallyDefined = scan.locallyDefined ∧
        (sources.foldl scanSource scan).block.lastDefinitions = scan.block.lastDefinitions := by
  intro sources
  induction sources with
  | nil => exact fun scan => ⟨rfl, rfl, rfl⟩
  | cons source sources ih =>
    intro scan
    have step : (scanSource scan source).allocation = scan.allocation ∧
        (scanSource scan source).locallyDefined = scan.locallyDefined ∧
        (scanSource scan source).block.lastDefinitions = scan.block.lastDefinitions := by
      unfold scanSource
      split <;> exact ⟨rfl, rfl, rfl⟩
    rw [foldl_cons]
    obtain ⟨h₁, h₂, h₃⟩ := ih (scanSource scan source)
    exact ⟨h₁.trans step.1, h₂.trans step.2.1, h₃.trans step.2.2⟩

theorem exists_owned_instruction (scan : BlockScan) (i : Nat)
    (owned : Owned context body owner scan.allocation) :
    ∃ owner', Owned context body owner' (allocateInstruction context body scan i).allocation := by
  have same := (foldl_scanSource_allocation (sourceRegisters (instructionAt body i)) scan).1
  obtain ⟨owner', owned', names, less⟩ := exists_owned_destinations context
    (destinationRegisters (instructionAt body i))
    ((sourceRegisters (instructionAt body i)).foldl scanSource scan, []) owner
    (same.symm ▸ owned) (by simp)
  refine ⟨owner', owned'.implicit, fun j values found => ?_⟩
  rw [allocateInstruction, AssocMap.find?_assign] at found
  split at found
  · next here =>
      subst here
      cases found
      exact ⟨by simpa using names, less⟩
  · exact owned'.results j values found

theorem exists_owned_instructions :
    ∀ (indices : List Nat) (scan : BlockScan) (owner : ValueId → String),
      Owned context body owner scan.allocation →
      ∃ owner', Owned context body owner'
        (indices.foldl (allocateInstruction context body) scan).allocation := by
  intro indices
  induction indices with
  | nil => exact fun scan owner owned => ⟨owner, owned⟩
  | cons i indices ih =>
    intro scan owner owned
    obtain ⟨owner', owned'⟩ := exists_owned_instruction scan i owned
    exact ih _ owner' owned'

theorem exists_owned (context : ImportContext) (body : List Instruction)
    (blocks : List RawBlock) :
    ∃ owner, Owned context body owner (allocateValues context body blocks).1 := by
  have start : Owned context body (fun _ => "") { nextValue := context.nextValue } :=
    ⟨by simp, by simp⟩
  obtain ⟨owner, owned⟩ := exists_owned_implicit context.implicitDefinitions _ _
    (Subset.refl _) start
  unfold allocateValues
  have all : ∀ (blocks : List RawBlock) (state : Allocation × List RawBlock)
      (owner : ValueId → String), Owned context body owner state.1 →
      ∃ owner', Owned context body owner' (blocks.foldl (allocateBlock context body) state).1 := by
    intro blocks
    induction blocks with
    | nil => exact fun state owner owned => ⟨owner, owned⟩
    | cons block blocks ih =>
      intro state owner owned
      obtain ⟨owner', owned'⟩ := exists_owned_instructions block.instructions
        { allocation := state.1, block } owner owned
      exact ih _ owner' owned'
  exact all blocks (_, []) owner owned

/-! ## Definitions and uses of a block -/

theorem foldl_defineResults_congr :
    ∀ (indices : List Nat) (environment : Environment),
      (∀ i ∈ indices, first.find? i = second.find? i) →
      indices.foldl (defineResults body first) environment =
        indices.foldl (defineResults body second) environment := by
  intro indices
  induction indices with
  | nil => exact fun environment _ => rfl
  | cons i indices ih =>
    intro environment same
    have here : defineResults body first environment i =
        defineResults body second environment i := by
      simp [defineResults, same i mem_cons_self]
    rw [foldl_cons, foldl_cons, here]
    exact ih _ fun j member => same j (mem_cons_of_mem _ member)

theorem foldl_scanSource_uses :
    ∀ (sources : List String) (scan : BlockScan),
      scan.block.usesBeforeDefinition ⊆
          (sources.foldl scanSource scan).block.usesBeforeDefinition ∧
        ∀ name ∈ sources, name ∈ scan.locallyDefined ∨
          name ∈ (sources.foldl scanSource scan).block.usesBeforeDefinition := by
  intro sources
  induction sources with
  | nil => exact fun scan => ⟨Subset.refl _, by simp⟩
  | cons source sources ih =>
    intro scan
    have step : scan.block.usesBeforeDefinition ⊆
          (scanSource scan source).block.usesBeforeDefinition ∧
        (source ∈ scan.locallyDefined ∨
          source ∈ (scanSource scan source).block.usesBeforeDefinition) := by
      unfold scanSource
      split
      · next known => exact ⟨Subset.refl _, by simpa using known⟩
      · exact ⟨subset_append_left _ _, .inr (by simp)⟩
    have local_same : (scanSource scan source).locallyDefined = scan.locallyDefined :=
      (foldl_scanSource_allocation [source] scan).2.1
    obtain ⟨grows, covers⟩ := ih (scanSource scan source)
    refine ⟨Subset.trans step.1 grows, fun name member => ?_⟩
    rcases mem_cons.mp member with rfl | later
    · exact step.2.imp_right (fun used => grows used)
    · exact local_same ▸ covers name later

theorem foldl_scanDestination_spec (context : ImportContext) :
    ∀ (names : List String) (state : BlockScan × List ValueId),
      ∃ values, values.length = names.length ∧
        (names.foldl (scanDestination context) state).2 = state.2 ++ values ∧
        (names.foldl (scanDestination context) state).1.block.lastDefinitions =
          state.1.block.lastDefinitions.assignAll (names.zip values) ∧
        (names.foldl (scanDestination context) state).1.block.usesBeforeDefinition =
          state.1.block.usesBeforeDefinition ∧
        (names.foldl (scanDestination context) state).1.locallyDefined =
          state.1.locallyDefined ++ names ∧
        (names.foldl (scanDestination context) state).1.allocation.instructionResults =
          state.1.allocation.instructionResults := by
  intro names
  induction names with
  | nil => exact fun state => ⟨[], by simp [AssocMap.assignAll]⟩
  | cons name names ih =>
    intro state
    obtain ⟨values, length, hvalues, hlast, huses, hlocal, hresults⟩ :=
      ih (scanDestination context state name)
    refine ⟨state.1.allocation.nextValue :: values, by simp [length], ?_, ?_, ?_, ?_, ?_⟩
    · rw [foldl_cons, hvalues]
      simp [scanDestination]
    · rw [foldl_cons, hlast]
      rfl
    · rw [foldl_cons, huses]
      rfl
    · rw [foldl_cons, hlocal]
      simp [scanDestination]
    · rw [foldl_cons, hresults]
      rfl

/-- The scan of a block after some of its instructions. -/
structure Scanned (body : List Instruction) (done : List Nat) (scan : BlockScan) : Prop where
  lastDefinitions : scan.block.lastDefinitions =
    done.foldl (defineResults body scan.allocation.instructionResults) []
  recorded : ∀ i ∈ done, ∃ values, scan.allocation.instructionResults.find? i = some values
  locals : ∀ name ∈ scan.locallyDefined, ∃ i ∈ done,
    name ∈ destinationRegisters (instructionAt body i)
  uses : ∀ before i after, done = before ++ i :: after →
    ∀ name ∈ sourceRegisters (instructionAt body i),
      (∀ j ∈ before, name ∉ destinationRegisters (instructionAt body j)) →
      name ∈ scan.block.usesBeforeDefinition

theorem Scanned.step (context : ImportContext) {done : List Nat} {scan : BlockScan}
    (scanned : Scanned body done scan) {i : Nat} (fresh : i ∉ done) :
    Scanned body (done ++ [i]) (allocateInstruction context body scan i) ∧
      ∀ j, j ≠ i → (allocateInstruction context body scan i).allocation.instructionResults.find? j =
        scan.allocation.instructionResults.find? j := by
  obtain ⟨hallocation, hlocals, hdefinitions⟩ :=
    foldl_scanSource_allocation (sourceRegisters (instructionAt body i)) scan
  obtain ⟨grows, covers⟩ := foldl_scanSource_uses (sourceRegisters (instructionAt body i)) scan
  obtain ⟨values, -, hvalues, hlast, huses, hlocal, hresults⟩ :=
    foldl_scanDestination_spec context (destinationRegisters (instructionAt body i))
      ((sourceRegisters (instructionAt body i)).foldl scanSource scan, [])
  rw [nil_append] at hvalues
  have results : (allocateInstruction context body scan i).allocation.instructionResults =
      scan.allocation.instructionResults.assign i values := by
    simp only [allocateInstruction, hvalues, hresults, hallocation]
  have lookup : ∀ j, (allocateInstruction context body scan i).allocation.instructionResults.find? j =
      if i = j then some values else scan.allocation.instructionResults.find? j := by
    intro j
    rw [results, AssocMap.find?_assign]
  refine ⟨⟨?_, ?_, ?_, ?_⟩, fun j different => by rw [lookup, if_neg (Ne.symm different)]⟩
  · have unchanged : done.foldl (defineResults body
        (allocateInstruction context body scan i).allocation.instructionResults) [] =
        done.foldl (defineResults body scan.allocation.instructionResults) [] := by
      apply foldl_defineResults_congr
      intro j member
      rw [lookup, if_neg]
      rintro rfl
      exact fresh member
    have defined : (allocateInstruction context body scan i).block.lastDefinitions =
        scan.block.lastDefinitions.assignAll
          ((destinationRegisters (instructionAt body i)).zip values) := by
      simp only [allocateInstruction, hlast, hdefinitions]
    rw [foldl_append, unchanged, ← scanned.lastDefinitions, defined]
    simp [defineResults, lookup]
  · intro j member
    rw [lookup]
    rcases mem_append.mp member with earlier | last
    · split
      · exact ⟨_, rfl⟩
      · exact scanned.recorded j earlier
    · rw [mem_singleton.mp last, if_pos rfl]
      exact ⟨_, rfl⟩
  · intro name member
    have locals : (allocateInstruction context body scan i).locallyDefined =
        scan.locallyDefined ++ destinationRegisters (instructionAt body i) := by
      simp only [allocateInstruction, hlocal, hlocals]
    rw [locals] at member
    rcases mem_append.mp member with earlier | here
    · obtain ⟨j, hj, defines⟩ := scanned.locals name earlier
      exact ⟨j, mem_append_left _ hj, defines⟩
    · exact ⟨i, by simp, here⟩
  · intro before j after split name member undefined
    have used : (allocateInstruction context body scan i).block.usesBeforeDefinition =
        ((sourceRegisters (instructionAt body i)).foldl scanSource scan).block.usesBeforeDefinition := by
      simp only [allocateInstruction, huses]
    rw [used]
    rcases eq_nil_or_concat after with rfl | ⟨rest, last, rfl⟩
    · -- the new instruction: a source that is defined locally is defined by an earlier one
      obtain ⟨rfl, same⟩ := append_inj' split (by simp)
      obtain rfl := (cons.inj same).1
      refine (covers name member).resolve_left fun known => ?_
      obtain ⟨k, hk, defines⟩ := scanned.locals name known
      exact undefined k hk defines
    · have split' : done ++ [i] = (before ++ j :: rest) ++ [last] := by simpa using split
      obtain ⟨same, -⟩ := append_inj' split' (by simp)
      exact grows (scanned.uses before j rest same name member undefined)

theorem Scanned.all (context : ImportContext) :
    ∀ (indices done : List Nat) (scan : BlockScan), (done ++ indices).Nodup →
      Scanned body done scan →
      Scanned body (done ++ indices) (indices.foldl (allocateInstruction context body) scan) ∧
        ∀ j ∉ indices, (indices.foldl (allocateInstruction context body)
          scan).allocation.instructionResults.find? j =
            scan.allocation.instructionResults.find? j := by
  intro indices
  induction indices with
  | nil => exact fun done scan _ scanned => ⟨by simpa using scanned, fun j _ => rfl⟩
  | cons i indices ih =>
    intro done scan distinct scanned
    have fresh : i ∉ done := by
      intro member
      exact (nodup_append.mp distinct).2.2 i member i mem_cons_self rfl
    have split : done ++ i :: indices = (done ++ [i]) ++ indices := by simp
    obtain ⟨next, others⟩ := scanned.step context fresh
    obtain ⟨last, rest⟩ := ih (done ++ [i]) _ (split ▸ distinct) next
    refine ⟨split ▸ last, fun j absent => ?_⟩
    rw [foldl_cons, rest j (fun member => absent (mem_cons_of_mem _ member)),
      others j (fun same => absent (same ▸ mem_cons_self))]

/-- What the allocation records about a block. -/
structure BlockFacts (body : List Instruction) (results : AssocMap Nat (List ValueId))
    (block : RawBlock) : Prop where
  lastDefinitions : block.lastDefinitions =
    block.instructions.foldl (defineResults body results) []
  recorded : ∀ i ∈ block.instructions, ∃ values, results.find? i = some values
  uses : ∀ before i after, block.instructions = before ++ i :: after →
    ∀ name ∈ sourceRegisters (instructionAt body i),
      (∀ j ∈ before, name ∉ destinationRegisters (instructionAt body j)) →
      name ∈ block.usesBeforeDefinition

variable {block : RawBlock}

theorem BlockFacts.congr (facts : BlockFacts body first block)
    (same : ∀ i ∈ block.instructions, second.find? i = first.find? i) :
    BlockFacts body second block := by
  refine ⟨?_, fun i member => ?_, facts.uses⟩
  · rw [facts.lastDefinitions]
    exact (foldl_defineResults_congr _ _ same).symm
  · rw [same i member]
    exact facts.recorded i member

theorem instructions_foldl (context : ImportContext) (body : List Instruction) (block : RawBlock)
    (allocation : Allocation) : (block.instructions.foldl (allocateInstruction context body)
      { allocation, block }).block.instructions = block.instructions := by
  have shape := foldl_allocateInstruction_shape context body block.instructions
    { allocation, block }
  simpa [RawBlock.shape] using congrArg (fun shape => shape.2.2.1) shape

theorem allocateBlock_facts (context : ImportContext) {state : Allocation × List RawBlock}
    (distinct : block.instructions.Nodup)
    (disjoint : ∀ done ∈ state.2, ∀ i ∈ done.instructions, i ∉ block.instructions)
    (empty : block.lastDefinitions = [] ∧ block.usesBeforeDefinition = [])
    (facts : ∀ done ∈ state.2, BlockFacts body state.1.instructionResults done) :
    ∀ done ∈ (allocateBlock context body state block).2,
      BlockFacts body (allocateBlock context body state block).1.instructionResults done := by
  have start : Scanned body [] { allocation := state.1, block } :=
    ⟨empty.1, by simp, by simp, fun before i after absurd => by simp at absurd⟩
  obtain ⟨scanned, others⟩ := Scanned.all context block.instructions [] _ (by simpa) start
  have instructions := instructions_foldl context body block state.1
  intro done member
  rcases mem_append.mp member with earlier | last
  · exact (facts done earlier).congr fun i hi => others i (disjoint done earlier i hi)
  · rw [nil_append] at scanned
    rw [mem_singleton.mp last]
    refine ⟨?_, ?_, ?_⟩
    · rw [instructions]
      exact scanned.lastDefinitions
    · rw [instructions]
      exact scanned.recorded
    · rw [instructions]
      exact scanned.uses

/-- The allocation records every block of a graph whose blocks share no instruction. -/
theorem allocateValues_facts (context : ImportContext) {blocks : List RawBlock}
    (distinct : (blocks.flatMap instructions).Nodup)
    (empty : ∀ block ∈ blocks, block.lastDefinitions = [] ∧ block.usesBeforeDefinition = []) :
    ∀ block ∈ (allocateValues context body blocks).2,
      BlockFacts body (allocateValues context body blocks).1.instructionResults block := by
  have all : ∀ (blocks : List RawBlock) (state : Allocation × List RawBlock),
      ((state.2 ++ blocks).flatMap instructions).Nodup →
      (∀ block ∈ blocks, block.lastDefinitions = [] ∧ block.usesBeforeDefinition = []) →
      (∀ done ∈ state.2, BlockFacts body state.1.instructionResults done) →
      ∀ block ∈ (blocks.foldl (allocateBlock context body) state).2,
        BlockFacts body
          (blocks.foldl (allocateBlock context body) state).1.instructionResults block := by
    intro blocks
    induction blocks with
    | nil => exact fun state _ _ facts => facts
    | cons block blocks ih =>
      intro state distinct empty facts
      rw [flatMap_append, flatMap_cons] at distinct
      obtain ⟨-, rest, apart⟩ := nodup_append.mp distinct
      have instructions := instructions_foldl context body block state.1
      apply ih
      · simpa [allocateBlock, instructions, flatMap_append] using distinct
      · exact fun other member => empty other (mem_cons_of_mem _ member)
      · refine allocateBlock_facts context (nodup_append.mp rest).1 ?_
          (empty block mem_cons_self) facts
        intro done member i hi absurd
        exact apart i (mem_flatMap.mpr ⟨done, member, hi⟩) i
          (mem_append_left _ absurd) rfl
  exact all blocks _ (by simpa using distinct) empty (by simp)

theorem buildCfg_distinct (nextBlock : Ir.BlockId) (body : List Instruction) :
    ((buildCfg nextBlock body).flatMap instructions).Nodup := by
  have same : (buildCfg nextBlock body).flatMap instructions =
      (range (blockCount body)).flatMap (blockInstructions body) := by
    simp [buildCfg, flatMap_map]
  rw [same, nodup_flatMap]
  refine ⟨fun index _ => (nodup_range' : (blockIndices body index).Nodup).filter _, ?_⟩
  refine pairwise_iff_getElem.mpr fun a b ha hb less => ?_
  simp only [length_range] at ha hb
  simp only [getElem_range, onFun]
  intro i inA inB
  have first := mem_blockInstructions inA
  have second := mem_blockInstructions inB
  have next : a + 1 < blockCount body := by omega
  have order : blockBegin body (a + 1) ≤ blockBegin body b := by
    rcases lt_or_eq_of_le (show a + 1 ≤ b from less) with strictly | equal
    · exact (blockBegin_lt strictly hb).le
    · rw [equal]
  rw [blockEnd_of_next next] at first
  omega

end CuMetal.Ptx
