import Mathlib.Data.List.Nodup

/-!
# Stacks of links

A stack in a memory of links: a word names the first block, and the link of each block names the one
below it. The word 0 is the end.
-/

namespace CuMetal

/-- The blocks of the stack that a word begins. -/
def Linked (next : Nat → Nat) : Nat → List Nat → Prop
  | head, [] => head = 0
  | head, block :: rest => head = block ∧ block ≠ 0 ∧ Linked next (next block) rest

namespace Linked

variable {next : Nat → Nat} {head block link : Nat} {blocks : List Nat}

theorem of_ne_zero (linked : Linked next head blocks) (some_ : head ≠ 0) :
    ∃ rest, blocks = head :: rest ∧ Linked next (next head) rest := by
  cases blocks with
  | nil => exact absurd linked some_
  | cons block rest =>
    obtain ⟨rfl, -, below⟩ := linked
    exact ⟨rest, rfl, below⟩

theorem update (linked : Linked next head blocks) (outside : block ∉ blocks) :
    Linked (Function.update next block link) head blocks := by
  induction blocks generalizing head with
  | nil => exact linked
  | cons first rest ih =>
    obtain ⟨rfl, some_, below⟩ := linked
    rw [List.mem_cons, not_or] at outside
    refine ⟨rfl, some_, ?_⟩
    rw [Function.update_of_ne (Ne.symm outside.1)]
    exact ih below outside.2

end Linked

end CuMetal
