import CuMetal.Ir.Syntax
import CuMetal.Lib.FlowMasks

/-!
# Address spaces of generic pointers

`AddressSpaceConstraints` of `lower_to_msl.cpp:538-630`: a set of address spaces for every
pointer, and the flows along which they spread.  `unite` is never called, so every node is
its own representative.
-/

namespace CuMetal.Metal

open CuMetal.Ir CuMetal.Flows

/-- A set of address spaces, one bit for each (`std::uint8_t`). -/
def SpaceMask : Type := BitVec 8
  deriving DecidableEq

namespace SpaceMask

def bit (space : AddressSpace) : SpaceMask := (1#8 <<< space.ctorIdx : BitVec 8)

instance : Max SpaceMask := ⟨fun left right => (BitVec.or left right : BitVec 8)⟩

instance : SemilatticeSup SpaceMask :=
  SemilatticeSup.mk' (BitVec.or_comm (w := 8)) (BitVec.or_assoc (w := 8))
    fun mask => BitVec.or_self (x := mask)

instance : OrderBot SpaceMask where
  bot := (0#8 : BitVec 8)
  bot_le mask := BitVec.zero_or (x := mask)

def toNat (mask : SpaceMask) : Nat := BitVec.toNat mask

theorem toNat_le (mask : SpaceMask) : mask.toNat ≤ 255 :=
  Nat.le_of_lt_succ (BitVec.isLt (w := 8) mask)

theorem toNat_strictMono : StrictMono toNat := by
  intro left right less
  have joined : BitVec.or left right = right := sup_eq_right.mpr less.le
  have numbers : left.toNat ||| right.toNat = right.toNat :=
    (BitVec.toNat_or left right).symm.trans (congrArg BitVec.toNat joined)
  refine lt_of_le_of_ne (numbers ▸ Nat.left_le_or) fun same => less.ne ?_
  exact BitVec.eq_of_toNat_eq same

end SpaceMask

/-- `AddressSpaceConstraints` (`lower_to_msl.cpp:538-630`). -/
structure AddressSpaceConstraints where
  size : Nat := 0
  spaces : Fin size → SpaceMask := fun _ => ⊥
  polymorphic : Fin size → Bool := fun _ => false
  flows : List (Fin size × Fin size) := []

namespace AddressSpaceConstraints

/-- The body of the `for` loop of `solve` (`lower_to_msl.cpp:558-568`); no masks after
    `return false`. -/
def visitFlow {n : Nat} (polymorphic : Fin n → Bool) (state : Option (Fin n → SpaceMask) × Bool)
    (flow : Fin n × Fin n) : Option (Fin n → SpaceMask) × Bool :=
  match state.1 with
  | none => (none, false)
  | some spaces =>
    let incoming := spaces flow.1
    if incoming = ⊥ then state
    else
      let combined := spaces flow.2 ⊔ incoming
      if polymorphic flow.2 = false ∧ spaces flow.2 ≠ ⊥ ∧ combined ≠ spaces flow.2 then
        (none, false)
      else if combined ≠ spaces flow.2 then
        (some (Function.update spaces flow.2 combined), true)
      else state

/-- One round of the `while` loop of `solve`. -/
def solvePass {n : Nat} (polymorphic : Fin n → Bool) (flows : List (Fin n × Fin n))
    (state : Option (Fin n → SpaceMask)) : Option (Fin n → SpaceMask) × Bool :=
  flows.foldl (visitFlow polymorphic) (state, false)

/-- `solve` (`lower_to_msl.cpp:553-572`) with the flows in a given order: the masks after
    `return true`, or `none` after `return false`.  A mask grows 255 times at most. -/
def solveIn (constraints : AddressSpaceConstraints)
    (order : List (Fin constraints.size × Fin constraints.size)) :
    Option (Fin constraints.size → SpaceMask) :=
  untilUnchanged (solvePass constraints.polymorphic order) (constraints.size * 255 + 2)
    (some constraints.spaces)

def solve (constraints : AddressSpaceConstraints) :
    Option (Fin constraints.size → SpaceMask) :=
  constraints.solveIn constraints.flows

variable {constraints : AddressSpaceConstraints}

theorem visitFlow_eq {n : Nat} (polymorphic : Fin n → Bool) :
    visitFlow polymorphic = Flows.visit polymorphic := by
  funext state flow
  obtain ⟨_ | spaces, changed⟩ := state <;> rfl

theorem solvePass_eq {n : Nat} (polymorphic : Fin n → Bool) (flows : List (Fin n × Fin n)) :
    solvePass polymorphic flows = Flows.pass polymorphic flows := by
  funext state
  rw [solvePass, visitFlow_eq]
  rfl

theorem solveIn_runsTo (constraints : AddressSpaceConstraints)
    (order : List (Fin constraints.size × Fin constraints.size)) :
    RunsTo (solvePass constraints.polymorphic order) (some constraints.spaces)
      (constraints.solveIn order) := by
  have run := passes_runsTo SpaceMask.toNat_strictMono SpaceMask.toNat_le
    constraints.polymorphic order constraints.spaces
  rw [Fintype.card_fin] at run
  rw [solveIn, solvePass_eq]
  exact run

/-- The least masks that hold the seeds and are closed under the flows. -/
def IsLeastSolution (constraints : AddressSpaceConstraints)
    (masks : Fin constraints.size → SpaceMask) : Prop :=
  IsLeast (closures constraints.flows constraints.spaces) masks

/-- The constraints decide the verdict without regard to the order of the flows: every node
    that may be filled once gets its whole least mask first, or one cannot get it. -/
def OrderFree (constraints : AddressSpaceConstraints) : Prop :=
  ∃ least, constraints.IsLeastSolution least ∧
    (FirstIsComplete constraints.polymorphic constraints.flows constraints.spaces least ∨
      Conflicting constraints.polymorphic constraints.flows constraints.spaces least)

/-- `solve` ends in every order of the flows, always with the same verdict, and with the
    least masks if the verdict is `true`. -/
structure SolvesInAnyOrder (constraints : AddressSpaceConstraints) : Prop where
  ends : ∀ order, order.Perm constraints.flows →
    RunsTo (solvePass constraints.polymorphic order) (some constraints.spaces)
      (constraints.solveIn order)
  verdict : ∀ order, order.Perm constraints.flows →
    (constraints.solveIn order).isSome = constraints.solve.isSome
  least : ∀ order masks, order.Perm constraints.flows →
    constraints.solveIn order = some masks → constraints.IsLeastSolution masks

variable {order : List (Fin constraints.size × Fin constraints.size)}

theorem isLeastSolution_of_solveIn {masks : Fin constraints.size → SpaceMask}
    (same : order.Perm constraints.flows) (accepted : constraints.solveIn order = some masks) :
    constraints.IsLeastSolution masks := by
  have run := constraints.solveIn_runsTo order
  rw [accepted, solvePass_eq] at run
  have isLeast := run_isLeast run
  rwa [closures_perm same] at isLeast

theorem OrderFree.verdict (free : constraints.OrderFree) (same : order.Perm constraints.flows) :
    (constraints.solveIn order).isSome = constraints.solve.isSome := by
  obtain ⟨least, isLeast, complete | conflict⟩ := free
  · have accepted : ∀ order, order.Perm constraints.flows →
        (constraints.solveIn order).isSome = true := by
      intro order same
      have run := constraints.solveIn_runsTo order
      rw [solvePass_eq] at run
      refine run_accepted (complete.perm same) ?_ run
      rw [closures_perm same]
      exact isLeast
    rw [accepted order same, solve, accepted _ (List.Perm.refl _)]
  · have rejected : ∀ order, order.Perm constraints.flows →
        constraints.solveIn order = none := by
      intro order same
      have run := constraints.solveIn_runsTo order
      rw [solvePass_eq] at run
      refine run_rejected (conflict.perm same) ?_ run
      rw [closures_perm same]
      exact isLeast
    rw [rejected order same, solve, rejected _ (List.Perm.refl _)]

theorem OrderFree.solvesInAnyOrder (free : constraints.OrderFree) :
    constraints.SolvesInAnyOrder :=
  ⟨fun order _ => constraints.solveIn_runsTo order, fun _ same => free.verdict same,
    fun _ _ same accepted => isLeastSolution_of_solveIn same accepted⟩

theorem exists_rejected (constrained : ¬ constraints.OrderFree) :
    ∃ order, order.Perm constraints.flows ∧ constraints.solveIn order = none := by
  obtain ⟨least, isLeast⟩ := exists_isLeast SpaceMask.toNat_strictMono SpaceMask.toNat_le
    constraints.flows constraints.spaces
  have incomplete : ¬ FirstIsComplete constraints.polymorphic constraints.flows
      constraints.spaces least :=
    fun complete => constrained ⟨least, isLeast, .inl complete⟩
  obtain ⟨order, same, rejected⟩ := exists_rejecting_order isLeast incomplete
  refine ⟨order, same, rejected _ ?_⟩
  rw [← solvePass_eq]
  exact constraints.solveIn_runsTo order

/-- Constraints without a cycle that are not free are accepted in some order. -/
theorem exists_accepted {rank : Fin constraints.size → Nat}
    (acyclic : ∀ flow ∈ constraints.flows, rank flow.1 < rank flow.2)
    (constrained : ¬ constraints.OrderFree) :
    ∃ order, order.Perm constraints.flows ∧ (constraints.solveIn order).isSome = true := by
  obtain ⟨least, isLeast⟩ := exists_isLeast SpaceMask.toNat_strictMono SpaceMask.toNat_le
    constraints.flows constraints.spaces
  have free : ¬ Conflicting constraints.polymorphic constraints.flows constraints.spaces
      least := fun conflict => constrained ⟨least, isLeast, .inr conflict⟩
  obtain ⟨order, same, accepted⟩ := exists_accepting_order acyclic free isLeast
  refine ⟨order, same, accepted _ ?_⟩
  rw [← solvePass_eq]
  exact constraints.solveIn_runsTo order

/-- `solve` is independent of the order of the flows if every node that may be filled once
    gets its whole least mask first, or one cannot get it.  Otherwise some order is rejected;
    and if the flows have no cycle, another one is accepted. -/
theorem solves_in_any_order (constraints : AddressSpaceConstraints) :
    (constraints.OrderFree → constraints.SolvesInAnyOrder) ∧
      (¬ constraints.OrderFree →
        ∃ order, order.Perm constraints.flows ∧ constraints.solveIn order = none) ∧
      ((∃ rank : Fin constraints.size → Nat,
          ∀ flow ∈ constraints.flows, rank flow.1 < rank flow.2) →
        (constraints.SolvesInAnyOrder ↔ constraints.OrderFree)) := by
  refine ⟨OrderFree.solvesInAnyOrder, exists_rejected, ?_⟩
  rintro ⟨rank, acyclic⟩
  refine ⟨fun solves => ?_, OrderFree.solvesInAnyOrder⟩
  by_contra constrained
  obtain ⟨order, same, rejected⟩ := exists_rejected constrained
  obtain ⟨order', same', accepted⟩ := exists_accepted acyclic constrained
  have differ := (solves.verdict order same).trans (solves.verdict order' same').symm
  rw [rejected, accepted] at differ
  cases differ

/-- Two concrete pointers flow into a generic one, and that one into a pointer of no
    known space. -/
def join : AddressSpaceConstraints where
  size := 4
  spaces := ![SpaceMask.bit .device, SpaceMask.bit .threadgroup, ⊥, ⊥]
  polymorphic := ![false, false, true, false]
  flows := [(0, 2), (1, 2), (2, 3)]

/-- The same flows, with the last pointer filled before the second one has arrived. -/
def joinLate : List (Fin 4 × Fin 4) := [(0, 2), (2, 3), (1, 2)]

/-- If the generic pointer has only one of its spaces when the last pointer is filled, the
    second one is a conflict. -/
theorem join_depends_on_order : joinLate.Perm join.flows ∧
    join.solve.isSome = true ∧ (join.solveIn joinLate).isSome = false := by
  refine ⟨List.Perm.cons _ (List.Perm.swap _ _ _), by decide, by decide⟩

end AddressSpaceConstraints

end CuMetal.Metal
