import CuMetal.Lib.AssocMap
import CuMetal.Lib.Fixpoint
import Mathlib.Algebra.Order.BigOperators.Group.List
import Mathlib.Algebra.Order.Ring.Nat

/-!
# Facts pushed through a graph until they are stable

A table of facts is refreshed item by item: every item recomputes the fact of one key from
the table. If a refresh that changes a fact raises its rank, and ranks are bounded, the
passes stop, and then no item has anything left to add.
-/

namespace CuMetal

open List

variable {κ ν α : Type} [DecidableEq κ] [Inhabited ν]

/-- `map[key]`, which default-constructs the value of an absent key. -/
def valueAt (map : AssocMap κ ν) (key : κ) : ν := (map.find? key).getD default

theorem valueAt_assign (map : AssocMap κ ν) (key other : κ) (value : ν) :
    valueAt (map.assign key value) other = if key = other then value else valueAt map other := by
  unfold valueAt
  rw [AssocMap.find?_assign]
  split <;> rfl

/-- What is left to add to the facts of the keys. -/
def slack (rank : ν → Nat) (bound : Nat) (keys : List κ) (map : AssocMap κ ν) : Nat :=
  (keys.map fun key => bound - rank (valueAt map key)).sum

theorem slack_le (rank : ν → Nat) (bound : Nat) (keys : List κ) (map : AssocMap κ ν) :
    slack rank bound keys map ≤ keys.length * bound := by
  have each : ∀ n ∈ keys.map (fun key => bound - rank (valueAt map key)), n ≤ bound := by
    intro n member
    obtain ⟨key, _, rfl⟩ := mem_map.mp member
    exact Nat.sub_le _ _
  simpa [slack] using sum_le_card_nsmul _ bound each

theorem slack_assign_lt {rank : ν → Nat} {bound : Nat} {keys : List κ} {map : AssocMap κ ν}
    {key : κ} {value : ν} (member : key ∈ keys) (higher : rank (valueAt map key) < rank value)
    (bounded : rank value ≤ bound) :
    slack rank bound keys (map.assign key value) < slack rank bound keys map := by
  refine sum_lt_sum _ _ ?_ ⟨key, member, ?_⟩
  · intro other _
    rw [valueAt_assign]
    split
    · next same => subst same; omega
    · exact le_rfl
  · rw [valueAt_assign, if_pos rfl]
    omega

variable [DecidableEq ν] (key : α → κ) (next : AssocMap κ ν → α → ν)

/-- Recompute the fact of an item's key, with the flag `changed`. -/
def refresh (state : AssocMap κ ν × Bool) (item : α) : AssocMap κ ν × Bool :=
  if next state.1 item = valueAt state.1 (key item) then state
  else (state.1.assign (key item) (next state.1 item), true)

/-- Refresh every item, again and again, while a pass changes something. -/
def propagate (items : List α) (limit : Nat) (map : AssocMap κ ν) : AssocMap κ ν :=
  untilUnchanged (fun map => items.foldl (refresh key next) (map, false)) limit map

/-- The passes end in a table that satisfies the invariant and that no item changes. -/
theorem propagate_spec {items : List α} {keys : List κ} (Inv : AssocMap κ ν → Prop)
    (rank : ν → Nat) (bound : Nat) (inKeys : ∀ item ∈ items, key item ∈ keys)
    (step : ∀ map, Inv map → ∀ item ∈ items, next map item ≠ valueAt map (key item) →
      Inv (map.assign (key item) (next map item)) ∧
        rank (valueAt map (key item)) < rank (next map item) ∧ rank (next map item) ≤ bound)
    {limit : Nat} (enough : keys.length * bound < limit) {map : AssocMap κ ν} (holds : Inv map) :
    Inv (propagate key next items limit map) ∧
      ∀ item ∈ items, next (propagate key next items limit map) item =
        valueAt (propagate key next items limit map) (key item) := by
  -- a pass keeps the invariant and, if it raises the flag, uses up slack
  have pass : ∀ (rest : List α) (state : AssocMap κ ν × Bool), (∀ item ∈ rest, item ∈ items) →
      Inv state.1 → Inv (rest.foldl (refresh key next) state).1 ∧
        slack rank bound keys (rest.foldl (refresh key next) state).1 ≤
            slack rank bound keys state.1 ∧
          ((rest.foldl (refresh key next) state).2 = true → state.2 = false →
            slack rank bound keys (rest.foldl (refresh key next) state).1 <
              slack rank bound keys state.1) := by
    intro rest
    induction rest with
    | nil =>
      intro state _ inv
      exact ⟨inv, le_rfl, fun raised quiet => by rw [foldl_nil, quiet] at raised; cases raised⟩
    | cons item rest ih =>
      intro state inside inv
      rw [foldl_cons]
      by_cases same : next state.1 item = valueAt state.1 (key item)
      · rw [show refresh key next state item = state from if_pos same]
        exact ih state (fun other member => inside other (mem_cons_of_mem _ member)) inv
      · have member := inside item mem_cons_self
        obtain ⟨keeps, higher, bounded⟩ := step state.1 inv item member same
        have lower := @slack_assign_lt _ _ _ _ rank bound keys state.1 _ _ (inKeys item member)
          higher bounded
        rw [show refresh key next state item =
          (state.1.assign (key item) (next state.1 item), true) from if_neg same]
        obtain ⟨last, below, _⟩ := ih (state.1.assign (key item) (next state.1 item), true)
          (fun other member => inside other (mem_cons_of_mem _ member)) keeps
        exact ⟨last, below.trans lower.le, fun _ _ => below.trans_lt lower⟩
  obtain ⟨last, inv, silent, result⟩ := untilUnchanged_spec
    (fun map => items.foldl (refresh key next) (map, false)) Inv (slack rank bound keys)
    (fun map inv =>
      have kept := pass items (map, false) (fun _ member => member) inv
      ⟨kept.1, fun raised => kept.2.2 raised rfl⟩)
    limit map holds ((slack_le rank bound keys map).trans_lt enough)
  have raises : ∀ (state : AssocMap κ ν × Bool) (item : α),
      refresh key next state item = state ∨ (refresh key next state item).2 = true := by
    intro state item
    unfold refresh
    split
    · exact .inl rfl
    · exact .inr rfl
  have still := foldl_eq_of_flag_false (refresh key next) raises items (last, false) silent
  have final : propagate key next items limit map = last := by
    rw [propagate, result, still]
  rw [final]
  refine ⟨inv, fun item member => ?_⟩
  have unchanged := update_eq_of_flag_false (refresh key next) raises silent member
  by_contra different
  rw [refresh, if_neg different] at unchanged
  exact absurd (congrArg Prod.snd unchanged) (by simp)

end CuMetal
