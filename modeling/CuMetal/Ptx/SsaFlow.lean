import CuMetal.Ptx.AllocationFacts
import Mathlib.Data.Fintype.Card

/-!
# Forward propagation of values

The bounded loop of `construct_ssa` settles every block that hangs on the first block or
on a join by a chain of single predecessors: its environments are then what the loop
body computes from the final environments.
-/

namespace CuMetal.Ptx

open Function List

open Ir (ValueId)

variable {context : ImportContext} {body : List Instruction} {input : FlowInput}

/-- The bindings are older than the next value and have the right owners. -/
def OwnedBindings (owner : ValueId → String) (nextValue : ValueId)
    (bindings : List (String × ValueId)) : Prop :=
  ∀ binding ∈ bindings, binding.2 < nextValue ∧ owner binding.2 = binding.1

theorem OwnedBindings.fresh {owner : ValueId → String} {nextValue : ValueId}
    {bindings : List (String × ValueId)} (owned : OwnedBindings owner nextValue bindings)
    (name : String) :
    OwnedBindings (Function.update owner nextValue name) (nextValue + 1) bindings := by
  intro binding member
  obtain ⟨less, owns⟩ := owned binding member
  exact ⟨Nat.lt_succ_of_lt less, by rw [update_of_ne (ne_of_lt less), owns]⟩

theorem exists_owned_argumentsOfBlock (context : ImportContext) (body : List Instruction) :
    ∀ (names : List String) (state : Allocation × Environment) (owner : ValueId → String)
      (others : List (String × ValueId)),
      Owned context body owner state.1 → OwnedBindings owner state.1.nextValue state.2 →
      OwnedBindings owner state.1.nextValue others →
      ∃ owner', Owned context body owner' (names.foldl (allocateArgument context) state).1 ∧
        OwnedBindings owner' (names.foldl (allocateArgument context) state).1.nextValue
          (names.foldl (allocateArgument context) state).2 ∧
        OwnedBindings owner' (names.foldl (allocateArgument context) state).1.nextValue others ∧
        (names.foldl (allocateArgument context) state).1.instructionResults =
          state.1.instructionResults ∧
        (names.foldl (allocateArgument context) state).1.implicitValues =
          state.1.implicitValues := by
  intro names
  induction names with
  | nil => exact fun state owner others owned bound kept => ⟨owner, owned, bound, kept, rfl, rfl⟩
  | cons name names ih =>
    intro state owner others owned bound kept
    refine ih (allocateArgument context state name)
      (update owner state.1.nextValue name) others (owned.fresh name) ?_
      (kept.fresh name)
    intro binding member
    rcases AssocMap.mem_assign member with rfl | earlier
    · exact ⟨Nat.lt_succ_self _, update_self ..⟩
    · exact bound.fresh name binding earlier

/-- The arguments of all blocks have owners, and a block without two predecessors has none. -/
theorem exists_owned_arguments (blocks : List RawBlock) (liveness : Liveness) :
    ∀ (indices : List Nat) (state : Allocation × List Environment) (owner : ValueId → String),
      Owned context body owner state.1 → OwnedBindings owner state.1.nextValue state.2.flatten →
      ∃ (owner' : ValueId → String) (added : List Environment),
        Owned context body owner'
          (indices.foldl (allocateArguments context blocks liveness) state).1 ∧
        OwnedBindings owner'
          (indices.foldl (allocateArguments context blocks liveness) state).1.nextValue
          (state.2 ++ added).flatten ∧
        (indices.foldl (allocateArguments context blocks liveness) state).2 = state.2 ++ added ∧
        (∀ (k index : Nat), indices[k]? = some index →
          (blockAt blocks index).predecessors.length < 2 → added[k]? = some []) ∧
        (indices.foldl (allocateArguments context blocks liveness) state).1.instructionResults =
          state.1.instructionResults ∧
        (indices.foldl (allocateArguments context blocks liveness) state).1.implicitValues =
          state.1.implicitValues := by
  intro indices
  induction indices with
  | nil =>
    intro state owner owned bound
    exact ⟨owner, [], owned, by simpa using bound, by simp, by simp, rfl, rfl⟩
  | cons index indices ih =>
    intro state owner owned bound
    -- the step for one block, whether it gets arguments or not
    obtain ⟨owner₁, environment, owned₁, bound₁, added₁, none₁, results₁, implicit₁⟩ :
        ∃ owner₁ environment,
          Owned context body owner₁ (allocateArguments context blocks liveness state index).1 ∧
          OwnedBindings owner₁
            (allocateArguments context blocks liveness state index).1.nextValue
            (state.2 ++ [environment]).flatten ∧
          (allocateArguments context blocks liveness state index).2 =
            state.2 ++ [environment] ∧
          ((blockAt blocks index).predecessors.length < 2 → environment = []) ∧
          (allocateArguments context blocks liveness state index).1.instructionResults =
            state.1.instructionResults ∧
          (allocateArguments context blocks liveness state index).1.implicitValues =
            state.1.implicitValues := by
      unfold allocateArguments
      split
      · exact ⟨owner, [], owned, by simpa using bound, rfl, fun _ => rfl, rfl, rfl⟩
      · next many =>
          obtain ⟨owner', owned', bound', kept', results', implicit'⟩ :=
            exists_owned_argumentsOfBlock context body
              (sortedNames blocks (namesAt liveness.liveIn index)) (state.1, []) owner
              state.2.flatten owned (by simp [OwnedBindings]) bound
          refine ⟨owner', _, owned', ?_, rfl, fun few => absurd few many, results', implicit'⟩
          intro binding member
          rw [flatten_append, mem_append] at member
          rcases member with earlier | new
          · exact kept' binding earlier
          · exact bound' binding (by simpa using new)
    obtain ⟨owner₂, added, owned₂, bound₂, added₂, none₂, results₂, implicit₂⟩ :=
      ih (allocateArguments context blocks liveness state index) owner₁ owned₁
        (added₁.symm ▸ bound₁)
    refine ⟨owner₂, environment :: added, owned₂, ?_, ?_, ?_, results₂.trans results₁,
      implicit₂.trans implicit₁⟩
    · simpa [added₁] using bound₂
    · rw [foldl_cons, added₂, added₁]
      simp
    · intro k other found few
      cases k with
      | zero =>
        obtain rfl : index = other := by simpa using found
        simpa using none₁ few
      | succ k => simpa using none₂ k other (by simpa using found) few

variable {index depth : Nat} {flow start : Flow}

theorem environmentAt_set {environments : List Environment}
    (bound : index < environments.length) (environment : Environment) (other : Nat) :
    environmentAt (environments.set index environment) other =
      if index = other then environment else environmentAt environments other := by
  unfold environmentAt
  by_cases same : index = other
  · subst same
    simp [getD_eq_getElem?_getD, bound]
  · simp [getD_eq_getElem?_getD, getElem?_set_ne same, same]

/-- The flow has an environment for every block. -/
structure Sized (input : FlowInput) (flow : Flow) : Prop where
  incoming : flow.incoming.length = input.blocks.length
  outgoing : flow.outgoing.length = input.blocks.length

/-- The environments of a block are what the loop body computes from a flow. -/
structure ComputedFrom (input : FlowInput) (source flow : Flow) (index : Nat) : Prop where
  incoming : ∀ name, (environmentAt flow.incoming index).find? name =
    (nextIncoming input source index).find? name
  outgoing : ∀ name, (environmentAt flow.outgoing index).find? name =
    (nextOutgoing input source index).find? name

def flowBefore (input : FlowInput) (flow : Flow) (index : Nat) : Flow :=
  ((List.range index).foldl (updateFlow input) (flow, false)).1

theorem updateFlow_spec (state : Flow × Bool) (sized : Sized input state.1)
    (bound : index < input.blocks.length) :
    Sized input (updateFlow input state index).1 ∧
      ComputedFrom input state.1 (updateFlow input state index).1 index ∧
      ∀ other, other ≠ index →
        environmentAt (updateFlow input state index).1.incoming other =
            environmentAt state.1.incoming other ∧
          environmentAt (updateFlow input state index).1.outgoing other =
            environmentAt state.1.outgoing other := by
  unfold updateFlow
  simp only
  split
  · next same =>
      simp only [Bool.and_eq_true] at same
      exact ⟨sized, ⟨fun name => (AssocMap.find?_of_sameAs same.1 name).symm,
        fun name => (AssocMap.find?_of_sameAs same.2 name).symm⟩, fun _ _ => ⟨rfl, rfl⟩⟩
  · have inIncoming : index < state.1.incoming.length := sized.incoming ▸ bound
    have inOutgoing : index < state.1.outgoing.length := sized.outgoing ▸ bound
    refine ⟨⟨by simpa using sized.incoming, by simpa using sized.outgoing⟩, ⟨?_, ?_⟩, ?_⟩
    · intro name
      rw [environmentAt_set inIncoming, if_pos rfl]
    · intro name
      rw [environmentAt_set inOutgoing, if_pos rfl]
    · intro other different
      rw [environmentAt_set inIncoming, environmentAt_set inOutgoing,
        if_neg (Ne.symm different), if_neg (Ne.symm different)]
      exact ⟨rfl, rfl⟩

theorem flowBefore_succ (flow : Flow) (index : Nat) :
    flowBefore input flow (index + 1) =
      (updateFlow input ((List.range index).foldl (updateFlow input) (flow, false)) index).1 := by
  rw [flowBefore, range_succ, foldl_append]
  rfl

/-- During a pass the blocks up to an index are new and the rest is old. -/
theorem flowBefore_spec (sized : Sized input flow) :
    ∀ index ≤ input.blocks.length, Sized input (flowBefore input flow index) ∧
      (∀ other, index ≤ other →
        environmentAt (flowBefore input flow index).incoming other =
            environmentAt flow.incoming other ∧
          environmentAt (flowBefore input flow index).outgoing other =
            environmentAt flow.outgoing other) ∧
      ∀ other < index,
        ComputedFrom input (flowBefore input flow other) (flowBefore input flow index) other ∧
        environmentAt (flowBefore input flow index).outgoing other =
          environmentAt (flowBefore input flow (other + 1)).outgoing other := by
  intro index
  induction index with
  | zero => exact fun _ => ⟨sized, fun _ _ => ⟨rfl, rfl⟩, fun other less => by omega⟩
  | succ index ih =>
    intro bound
    obtain ⟨sized', old, new⟩ := ih (by omega)
    have inside : index < input.blocks.length := bound
    obtain ⟨sized'', computed, others⟩ := updateFlow_spec
      ((range index).foldl (updateFlow input) (flow, false)) sized' inside
    rw [← flowBefore_succ] at sized'' computed others
    refine ⟨sized'', fun other after => ?_, fun other less => ?_⟩
    · obtain ⟨hin, hout⟩ := others other (by omega)
      obtain ⟨hin', hout'⟩ := old other (by omega)
      exact ⟨hin.trans hin', hout.trans hout'⟩
    · rcases Nat.lt_succ_iff_lt_or_eq.mp less with earlier | rfl
      · obtain ⟨hin, hout⟩ := others other (by omega)
        obtain ⟨computed', same⟩ := new other earlier
        refine ⟨⟨fun name => ?_, fun name => ?_⟩, hout.trans same⟩
        · rw [hin]
          exact computed'.incoming name
        · rw [hout]
          exact computed'.outgoing name
      · exact ⟨computed, rfl⟩

theorem flowPass_spec (sized : Sized input flow) :
    Sized input (flowPass input flow).1 ∧
      ∀ index < input.blocks.length, ∃ source,
        ComputedFrom input source (flowPass input flow).1 index ∧
        ∀ other, environmentAt source.outgoing other = environmentAt flow.outgoing other ∨
          environmentAt source.outgoing other =
            environmentAt (flowPass input flow).1.outgoing other := by
  have whole : (flowPass input flow).1 = flowBefore input flow input.blocks.length := rfl
  obtain ⟨sized', -, new⟩ := flowBefore_spec sized input.blocks.length (le_refl _)
  refine ⟨sized', fun index bound => ⟨flowBefore input flow index, (new index bound).1, ?_⟩⟩
  intro other
  obtain ⟨-, old, earlier⟩ := flowBefore_spec sized index bound.le
  rcases lt_or_ge other index with less | after
  · right
    rw [whole, (new other (less.trans bound)).2, (earlier other less).2]
  · exact .inl (old other after).2

/-- The block hangs on the first block or on a join (or on a block that nothing enters)
    by a chain of single predecessors of this length. -/
inductive Rooted (input : FlowInput) : Nat → Nat → Prop
  | root {index : Nat} : index < input.blocks.length →
      (index = 0 ∨ (blockAt input.blocks index).predecessors.length ≠ 1) → Rooted input index 0
  | chain {index predecessor depth : Nat} : index < input.blocks.length → index ≠ 0 →
      (blockAt input.blocks index).predecessors = [predecessor] →
      Rooted input predecessor depth → Rooted input index (depth + 1)

theorem Rooted.depth_unique {first second : Nat} (h : Rooted input index first)
    (h' : Rooted input index second) : first = second := by
  induction h generalizing second with
  | root bound isRoot =>
    cases h' with
    | root => rfl
    | chain _ nonzero single _ =>
      rcases isRoot with zero | notOne
      · exact absurd zero nonzero
      · simp [single] at notOne
  | chain bound nonzero single _ ih =>
    cases h' with
    | root _ isRoot =>
      rcases isRoot with zero | notOne
      · exact absurd zero nonzero
      · simp [single] at notOne
    | chain _ _ single' rest =>
      rw [single] at single'
      obtain rfl := (cons.inj single').1
      rw [ih rest]

theorem Rooted.exists_depth (h : Rooted input index depth) :
    ∀ k ≤ depth, ∃ other < input.blocks.length, Rooted input other k := by
  induction h with
  | @root index bound isRoot =>
    intro k less
    obtain rfl : k = 0 := by omega
    exact ⟨index, bound, .root bound isRoot⟩
  | @chain index predecessor depth bound nonzero single rest ih =>
    intro k less
    rcases lt_or_eq_of_le less with smaller | rfl
    · exact ih k (by omega)
    · exact ⟨index, bound, .chain bound nonzero single rest⟩

/-- Blocks of different depths differ, so a chain is shorter than the function. -/
theorem Rooted.depth_lt (h : Rooted input index depth) :
    depth < input.blocks.length := by
  have witnesses : ∀ k : Fin (depth + 1), ∃ other : Fin input.blocks.length,
      Rooted input other k := by
    intro k
    obtain ⟨other, bound, rooted⟩ := h.exists_depth k (Nat.le_of_lt_succ k.isLt)
    exact ⟨⟨other, bound⟩, rooted⟩
  choose block rooted using witnesses
  have injective : Injective block := by
    intro j k same
    apply Fin.ext
    exact (rooted j).depth_unique (same ▸ rooted k)
  have few := Fintype.card_le_of_injective block injective
  rwa [Fintype.card_fin, Fintype.card_fin] at few

theorem nextIncoming_congr {first second : Flow} (same : ∀ predecessor, index ≠ 0 →
      (blockAt input.blocks index).predecessors = [predecessor] → ∀ name,
      (environmentAt first.outgoing predecessor).find? name =
        (environmentAt second.outgoing predecessor).find? name) :
    nextIncoming input first index = nextIncoming input second index := by
  unfold nextIncoming
  by_cases zero : index = 0
  · simp [zero]
  · rw [if_neg zero, if_neg zero]
    split
    · rfl
    · next predecessor single =>
        apply filterMap_congr
        intro name _
        rw [same predecessor zero single name]
    · rfl

theorem ComputedFrom.congr {first second : Flow} (computed : ComputedFrom input first flow index)
    (same : nextIncoming input first index = nextIncoming input second index) :
    ComputedFrom input second flow index := by
  refine ⟨fun name => same ▸ computed.incoming name, fun name => ?_⟩
  rw [computed.outgoing, nextOutgoing, nextOutgoing, same]

def flowAfter (input : FlowInput) (start : Flow) (passes : Nat) : Flow :=
  (fun flow => (flowPass input flow).1)^[passes] start

theorem flowAfter_succ (start : Flow) (passes : Nat) :
    flowAfter input start (passes + 1) = (flowPass input (flowAfter input start passes)).1 :=
  iterate_succ_apply' _ _ _

theorem flowAfter_sized (sized : Sized input start) (passes : Nat) :
    Sized input (flowAfter input start passes) := by
  induction passes with
  | zero => exact sized
  | succ passes ih =>
    rw [flowAfter_succ]
    exact (flowPass_spec ih).1

theorem Rooted.computed (sized : Sized input start) (h : Rooted input index depth) :
    ∃ source, ∀ passes, depth < passes →
      ComputedFrom input source (flowAfter input start passes) index := by
  induction h with
  | @root index bound isRoot =>
    refine ⟨start, fun passes later => ?_⟩
    obtain ⟨p, rfl⟩ : ∃ p, passes = p + 1 := ⟨passes - 1, by omega⟩
    rw [flowAfter_succ start p]
    obtain ⟨source, computed, -⟩ := (flowPass_spec (flowAfter_sized sized p)).2 index bound
    refine computed.congr (nextIncoming_congr fun predecessor nonzero single => ?_)
    rcases isRoot with zero | notOne
    · exact absurd zero nonzero
    · simp [single] at notOne
  | @chain index predecessor depth bound nonzero single rest ih =>
    obtain ⟨before, settled⟩ := ih
    refine ⟨flowAfter input start (depth + 1), fun passes later => ?_⟩
    obtain ⟨p, rfl⟩ : ∃ p, passes = p + 1 := ⟨passes - 1, by omega⟩
    rw [flowAfter_succ start p]
    obtain ⟨source, computed, old_or_new⟩ :=
      (flowPass_spec (flowAfter_sized sized p)).2 index bound
    refine computed.congr (nextIncoming_congr fun other _ single' name => ?_)
    rw [single] at single'
    obtain rfl := (cons.inj single').1
    rw [(settled (depth + 1) (by omega)).outgoing name]
    rcases old_or_new predecessor with same | same
    · rw [same, (settled p (by omega)).outgoing name]
    · rw [same, ← flowAfter_succ, (settled (p + 1) (by omega)).outgoing name]

/-- A rooted block is computed from the flow itself once enough passes are done. -/
theorem Rooted.settled (sized : Sized input start) {passes : Nat}
    (h : Rooted input index depth) (later : depth < passes) :
    ComputedFrom input (flowAfter input start passes) (flowAfter input start passes) index := by
  obtain ⟨p, rfl⟩ : ∃ p, passes = p + 1 := ⟨passes - 1, by omega⟩
  have bound : index < input.blocks.length := by cases h <;> assumption
  obtain ⟨source, computed, old_or_new⟩ :=
    (flowPass_spec (flowAfter_sized sized p)).2 index bound
  rw [← flowAfter_succ] at computed old_or_new
  refine computed.congr (nextIncoming_congr fun predecessor nonzero single name => ?_)
  rcases old_or_new predecessor with same | same
  · cases h with
    | root _ isRoot =>
      rcases isRoot with zero | notOne
      · exact absurd zero nonzero
      · simp [single] at notOne
    | chain _ _ single' rest =>
      rw [single] at single'
      obtain rfl := (cons.inj single').1
      obtain ⟨before, settled⟩ := rest.computed sized
      rw [same, (settled p (by omega)).outgoing name,
        (settled (p + 1) (by omega)).outgoing name]
  · rw [same]

theorem flowPass_unchanged (flow : Flow) (quiet : (flowPass input flow).2 = false) :
    (flowPass input flow).1 = flow := by
  have same := foldl_eq_of_flag_false (updateFlow input)
    (fun state index => by
      unfold updateFlow
      simp only
      split
      · exact .inl rfl
      · exact .inr rfl)
    (range input.blocks.length) (flow, false) quiet
  exact congrArg Prod.fst same

theorem propagate_settled (h : Rooted input index depth) :
    ComputedFrom input (propagate input) (propagate input) index := by
  have loop : propagate input = flowAfter input
      { incoming := input.blocks.map fun _ => [], outgoing := input.blocks.map fun _ => [] }
      (max 1 (input.blocks.length + 1)) :=
    untilUnchanged_eq_iterate flowPass_unchanged _ _
  rw [loop]
  have short := h.depth_lt
  exact h.settled ⟨by simp, by simp⟩ (by omega)

end CuMetal.Ptx
