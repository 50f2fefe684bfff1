import CuMetal.Ir.Verify
import Mathlib.Algebra.Order.BigOperators.Group.List
import Mathlib.Algebra.Order.Ring.Nat

/-!
# The dominator fixpoint

The loop of `ir.cpp:383-412` starts from the full sets and only removes members, so it
stops, and where it stops every set after the first is what its predecessors give.
-/

namespace CuMetal.Ir

open List

theorem dominatorsAt_set (dominators : List (Finset Nat)) (i j : Nat) (next : Finset Nat)
    (bound : i < dominators.length) :
    dominatorsAt (dominators.set i next) j =
      if i = j then next else dominatorsAt dominators j := by
  unfold dominatorsAt
  by_cases same : i = j
  · subst same
    simp [getD_eq_getElem?_getD, bound]
  · simp [getD_eq_getElem?_getD, getElem?_set_ne same, same]

private theorem mem_foldl_filter (sets : Nat → Finset Nat) (c : Nat) :
    ∀ (ps : List Nat) (start : Finset Nat),
      c ∈ ps.foldl (fun next p => next.filter fun candidate => candidate ∈ sets p) start ↔
        c ∈ start ∧ ∀ p ∈ ps, c ∈ sets p := by
  intro ps
  induction ps with
  | nil => simp
  | cons p ps ih =>
    intro start
    rw [foldl_cons, ih]
    simp [and_assoc]

variable {dominators : List (Finset Nat)} {i : Nat}

theorem mem_nextDominators {predecessors : Nat → List Nat} {c : Nat} :
    c ∈ nextDominators predecessors dominators i ↔
      c = i ∨ (predecessors i ≠ [] ∧
        ∀ p ∈ predecessors i, c ∈ dominatorsAt dominators p) := by
  unfold nextDominators
  cases hp : predecessors i with
  | nil => simp
  | cons front rest =>
    simp only [Finset.mem_insert, mem_foldl_filter]
    simp

/-- The invariant of the loop: the first set is `{0}` and every other one still
    contains what its predecessors give. -/
structure Shrinking (predecessors : Nat → List Nat) (n : Nat)
    (dominators : List (Finset Nat)) : Prop where
  length : dominators.length = n
  first : 0 < n → dominatorsAt dominators 0 = {0}
  contains : ∀ i, 1 ≤ i → i < n →
    nextDominators predecessors dominators i ⊆ dominatorsAt dominators i

/-- What the loop leaves: every set after the first is what its predecessors give. -/
structure Stable (predecessors : Nat → List Nat) (n : Nat)
    (dominators : List (Finset Nat)) : Prop where
  first : 0 < n → dominatorsAt dominators 0 = {0}
  fixed : ∀ i, 1 ≤ i → i < n →
    nextDominators predecessors dominators i = dominatorsAt dominators i

/-- The number of memberships, which every change lowers. -/
def weight (dominators : List (Finset Nat)) : Nat := (dominators.map Finset.card).sum

theorem initialDominators_shrinking (predecessors : Nat → List Nat) (n : Nat) :
    Shrinking predecessors n (initialDominators n) := by
  have atIndex : ∀ j, dominatorsAt (initialDominators n) j =
      if j < n then (if j = 0 then {0} else Finset.range n) else ∅ := by
    intro j
    unfold dominatorsAt initialDominators
    by_cases h : j < n
    · simp [getD_eq_getElem?_getD, h]
    · simp [getD_eq_getElem?_getD, h]
  refine ⟨by simp [initialDominators], fun positive => by simp [atIndex, positive], ?_⟩
  intro i one bound c member
  rw [atIndex, if_pos bound, if_neg (by omega)]
  rcases mem_nextDominators.mp member with rfl | ⟨nonempty, shared⟩
  · exact Finset.mem_range.mpr bound
  · obtain ⟨p, hp⟩ := exists_mem_of_ne_nil _ nonempty
    have inPredecessor := shared p hp
    rw [atIndex] at inPredecessor
    split at inPredecessor
    · split at inPredecessor
      · simp only [Finset.mem_singleton] at inPredecessor
        exact Finset.mem_range.mpr (by omega)
      · exact inPredecessor
    · simp at inPredecessor

theorem initialDominators_weight (n : Nat) : weight (initialDominators n) ≤ n * n := by
  have each : ∀ c ∈ (initialDominators n).map Finset.card, c ≤ n := by
    intro c member
    simp only [initialDominators, map_map, mem_map, mem_range,
      Function.comp_def] at member
    obtain ⟨i, bound, rfl⟩ := member
    split
    · simp only [Finset.card_singleton]; omega
    · simp
  have total := sum_le_card_nsmul _ n each
  simpa [weight, initialDominators] using total

private theorem weight_set_lt {next : Finset Nat} (bound : i < dominators.length)
    (smaller : next ⊂ dominatorsAt dominators i) :
    weight (dominators.set i next) < weight dominators := by
  induction dominators generalizing i with
  | nil => simp at bound
  | cons head tail ih =>
    cases i with
    | zero =>
      have := Finset.card_lt_card smaller
      simp only [dominatorsAt, getD_cons_zero] at this
      simp only [weight, set_cons_zero, map_cons, sum_cons]
      omega
    | succ i =>
      have := ih (i := i) (by simpa using bound) (by simpa [dominatorsAt] using smaller)
      simp only [weight, set_cons_succ, map_cons, sum_cons] at this ⊢
      omega

private theorem nextDominators_mono {predecessors : Nat → List Nat}
    {before after : List (Finset Nat)}
    (smaller : ∀ j, dominatorsAt after j ⊆ dominatorsAt before j) (i : Nat) :
    nextDominators predecessors after i ⊆ nextDominators predecessors before i := by
  intro c member
  rcases mem_nextDominators.mp member with equal | ⟨nonempty, shared⟩
  · exact mem_nextDominators.mpr (.inl equal)
  · exact mem_nextDominators.mpr (.inr ⟨nonempty, fun p hp => smaller p (shared p hp)⟩)

variable {n : Nat}

private theorem update_changed {predecessors : Nat → List Nat}
    (shrinking : Shrinking predecessors n dominators) (one : 1 ≤ i) (bound : i < n)
    (changed : nextDominators predecessors dominators i ≠ dominatorsAt dominators i) :
    Shrinking predecessors n (dominators.set i (nextDominators predecessors dominators i)) ∧
      weight (dominators.set i (nextDominators predecessors dominators i)) <
        weight dominators := by
  have inside : i < dominators.length := by rw [shrinking.length]; exact bound
  have subset := shrinking.contains i one bound
  have smaller : ∀ j, dominatorsAt
      (dominators.set i (nextDominators predecessors dominators i)) j ⊆
        dominatorsAt dominators j := by
    intro j
    rw [dominatorsAt_set _ _ _ _ inside]
    split
    · next same => exact same ▸ subset
    · exact Finset.Subset.refl _
  refine ⟨⟨by simpa using shrinking.length, ?_, ?_⟩, ?_⟩
  · intro positive
    rw [dominatorsAt_set _ _ _ _ inside, if_neg (by omega)]
    exact shrinking.first positive
  · intro j onej boundj
    rw [dominatorsAt_set _ _ _ _ inside]
    split
    · next same => exact same ▸ nextDominators_mono smaller i
    · exact (nextDominators_mono smaller j).trans (shrinking.contains j onej boundj)
  · exact weight_set_lt inside (Finset.ssubset_iff_subset_ne.mpr ⟨subset, changed⟩)

private theorem updates_spec {predecessors : Nat → List Nat} :
    ∀ (blocks : List Nat) (state : List (Finset Nat) × Bool),
      (∀ i ∈ blocks, 1 ≤ i ∧ i < n) → Shrinking predecessors n state.1 →
      let last := blocks.foldl (updateDominators predecessors) state
      Shrinking predecessors n last.1 ∧ weight last.1 ≤ weight state.1 ∧
        (last.2 = true → state.2 = true ∨ weight last.1 < weight state.1) ∧
        (last.2 = false → last.1 = state.1 ∧ ∀ i ∈ blocks,
          nextDominators predecessors state.1 i = dominatorsAt state.1 i) := by
  intro blocks
  induction blocks with
  | nil => intro state _ shrinking; simp [shrinking]
  | cons i blocks ih =>
    intro state bounds shrinking
    have ⟨one, bound⟩ := bounds i mem_cons_self
    have later : ∀ j ∈ blocks, 1 ≤ j ∧ j < n :=
      fun j member => bounds j (mem_cons_of_mem _ member)
    rw [foldl_cons]
    by_cases changed :
        nextDominators predecessors state.1 i ≠ dominatorsAt state.1 i
    · have step : updateDominators predecessors state i =
          (state.1.set i (nextDominators predecessors state.1 i), true) := by
        simp [updateDominators, changed]
      have ⟨shrunk, lighter⟩ := update_changed shrinking one bound changed
      rw [step]
      obtain ⟨keeps, lower, _, unchanged⟩ := ih
        (state.1.set i (nextDominators predecessors state.1 i), true) later shrunk
      refine ⟨keeps, lower.trans lighter.le, fun _ => .inr (lower.trans_lt lighter), ?_⟩
      intro quiet
      have flag : ∀ (js : List Nat) (s : List (Finset Nat)),
          (js.foldl (updateDominators predecessors) (s, true)).2 = true := by
        intro js
        induction js with
        | nil => intro s; rfl
        | cons j js ihj =>
          intro s
          rw [foldl_cons]
          unfold updateDominators
          split <;> exact ihj _
      rw [flag] at quiet
      exact absurd quiet (by simp)
    · have step : updateDominators predecessors state i = state := by
        simp only [updateDominators, if_neg changed]
      rw [step]
      obtain ⟨keeps, lower, raised, unchanged⟩ := ih state later shrinking
      refine ⟨keeps, lower, raised, fun quiet => ⟨(unchanged quiet).1, ?_⟩⟩
      intro j member
      rcases mem_cons.mp member with rfl | member
      · exact not_not.mp changed
      · exact (unchanged quiet).2 j member

/-- One pass keeps the invariant, lowers the weight if it changes a set, and otherwise
    finds every set to be what its predecessors give. -/
private theorem dominatorPass_spec {predecessors : Nat → List Nat}
    (shrinking : Shrinking predecessors n dominators) :
    Shrinking predecessors n (dominatorPass predecessors dominators).1 ∧
      ((dominatorPass predecessors dominators).2 = true →
        weight (dominatorPass predecessors dominators).1 < weight dominators) ∧
      ((dominatorPass predecessors dominators).2 = false →
        (dominatorPass predecessors dominators).1 = dominators ∧
          Stable predecessors n dominators) := by
  have bounds : ∀ i ∈ range' 1 (dominators.length - 1), 1 ≤ i ∧ i < n := by
    intro i member
    rw [mem_range'_1, shrinking.length] at member
    omega
  obtain ⟨keeps, -, raised, unchanged⟩ :=
    updates_spec (range' 1 (dominators.length - 1)) (dominators, false) bounds shrinking
  refine ⟨keeps, fun changed => (raised changed).resolve_left (by simp), fun quiet => ?_⟩
  obtain ⟨same, fixed⟩ := unchanged quiet
  refine ⟨same, shrinking.first, fun i one bound => fixed i ?_⟩
  rw [mem_range'_1, shrinking.length]
  omega

/-- The passes over the sets of `n` blocks end, and what they leave is stable. -/
theorem dominatorPasses_spec (predecessors : Nat → List Nat) (n : Nat) :
    RunsTo (dominatorPass predecessors) (initialDominators n)
        (untilUnchanged (dominatorPass predecessors) (n * n + 1) (initialDominators n)) ∧
      Stable predecessors n
        (untilUnchanged (dominatorPass predecessors) (n * n + 1) (initialDominators n)) := by
  have step := fun dominators (shrinking : Shrinking predecessors n dominators) =>
    And.intro (dominatorPass_spec shrinking).1 (dominatorPass_spec shrinking).2.1
  have few := Nat.lt_succ_of_le (initialDominators_weight n)
  refine ⟨untilUnchanged_runsTo _ (Shrinking predecessors n) weight step _ _
    (initialDominators_shrinking _ _) few, ?_⟩
  obtain ⟨last, shrinking, silent, result⟩ := untilUnchanged_spec _ _ weight step _ _
    (initialDominators_shrinking _ _) few
  obtain ⟨same, stable⟩ := (dominatorPass_spec shrinking).2.2 silent
  rw [result, same]
  exact stable

theorem computeDominators_stable (function : Function) (blockIndices : AssocMap BlockId Nat) :
    Stable (predecessors function blockIndices) function.blocks.length
      (computeDominators function blockIndices) :=
  (dominatorPasses_spec _ _).2

end CuMetal.Ir
