import Mathlib.Data.List.Nodup
import Mathlib.Data.List.Perm.Subperm

/-!
# Resources and who holds them

Agents that each hold a list of resources, none of which is held twice. An agent may take a resource
that nobody holds, give up one of its own, or hand one to another agent.
-/

namespace CuMetal.Holdings

open List

variable {α ρ : Type*} {holds holds' : α → List ρ}

/-- No resource is held twice, neither by one agent nor by two. -/
structure Exclusive (holds : α → List ρ) : Prop where
  nodup : ∀ agent, (holds agent).Nodup
  apart : ∀ {first second resource}, resource ∈ holds first → resource ∈ holds second →
    first = second

/-- One agent now holds other resources: some of its own, and some that were free. -/
theorem Exclusive.change (exclusive : Exclusive holds) (agent : α)
    (others : ∀ other, other ≠ agent → holds' other = holds other)
    (nodup : (holds' agent).Nodup)
    (sources : ∀ resource ∈ holds' agent,
      resource ∈ holds agent ∨ ∀ other, resource ∉ holds other) : Exclusive holds' := by
  have alone : ∀ {other resource}, other ≠ agent → resource ∈ holds' other →
      resource ∉ holds' agent := by
    intro other resource different held mine
    rw [others other different] at held
    rcases sources resource mine with before | free
    · exact different (exclusive.apart held before)
    · exact free other held
  refine ⟨?_, ?_⟩
  · intro other
    by_cases same : other = agent
    · exact same ▸ nodup
    · exact (others other same).symm ▸ exclusive.nodup other
  · intro first second resource left right
    by_cases same : first = agent
    · by_cases same' : second = agent
      · exact same.trans same'.symm
      · exact absurd (same ▸ left) (alone same' right)
    · by_cases same' : second = agent
      · exact absurd (same' ▸ right) (alone same left)
      · rw [others first same] at left
        rw [others second same'] at right
        exact exclusive.apart left right

theorem Exclusive.nodup_append (exclusive : Exclusive holds) {first second : α}
    (different : first ≠ second) : (holds first ++ holds second).Nodup := by
  refine List.nodup_append.mpr ⟨exclusive.nodup first, exclusive.nodup second, ?_⟩
  rintro resource left _ right rfl
  exact different (exclusive.apart left right)

theorem Exclusive.transfer (exclusive : Exclusive holds) {giver taker : α}
    (different : giver ≠ taker)
    (others : ∀ other, other ≠ giver → other ≠ taker → holds' other = holds other)
    (handed : (holds' giver ++ holds' taker).Subperm (holds giver ++ holds taker)) :
    Exclusive holds' := by
  have sources := handed.subset
  have nodup : (holds' giver ++ holds' taker).Nodup := by
    obtain ⟨listed, perm, sublist⟩ := handed
    exact perm.nodup_iff.mp ((exclusive.nodup_append different).sublist sublist)
  have alone : ∀ {other resource}, other ≠ giver → other ≠ taker → resource ∈ holds' other →
      resource ∉ holds' giver ++ holds' taker := by
    intro other resource left right held mine
    rw [others other left right] at held
    rcases mem_append.mp (sources mine) with before | before
    · exact left (exclusive.apart held before)
    · exact right (exclusive.apart held before)
  have split := List.nodup_append.mp nodup
  refine ⟨?_, ?_⟩
  · intro other
    by_cases left : other = giver
    · exact left ▸ split.1
    · by_cases right : other = taker
      · exact right ▸ split.2.1
      · exact (others other left right).symm ▸ exclusive.nodup other
  · -- Either agent is the giver, the taker, or one that holds what it held before.
    intro first second resource held held'
    by_cases left : first = giver
    · by_cases left' : second = giver
      · exact left.trans left'.symm
      · by_cases right' : second = taker
        · exact absurd rfl (split.2.2 resource (left ▸ held) resource (right' ▸ held'))
        · exact absurd (mem_append_left _ (left ▸ held)) (alone left' right' held')
    · by_cases right : first = taker
      · by_cases left' : second = giver
        · exact absurd rfl (split.2.2 resource (left' ▸ held') resource (right ▸ held))
        · by_cases right' : second = taker
          · exact right.trans right'.symm
          · exact absurd (mem_append_right _ (right ▸ held)) (alone left' right' held')
      · by_cases left' : second = giver
        · exact absurd (mem_append_left _ (left' ▸ held')) (alone left right held)
        · by_cases right' : second = taker
          · exact absurd (mem_append_right _ (right' ▸ held')) (alone left right held)
          · rw [others first left right] at held
            rw [others second left' right'] at held'
            exact exclusive.apart held held'

end CuMetal.Holdings
