import Mathlib.Data.List.Count
import Mathlib.Logic.Relation

/-!
# Marking what can be reached

The loop that takes the nodes of a stack, marks those that are not marked yet, and pushes their
successors.
-/

namespace CuMetal

open List

open Relation (ReflTransGen)

def isMarked (marks : List Bool) (node : Nat) : Bool := marks.getD node true

theorem count_set_lt {marks : List Bool} {node : Nat} (new : isMarked marks node = false) :
    (marks.set node true).count false < marks.count false := by
  induction marks generalizing node with
  | nil => cases new
  | cons mark marks ih =>
    cases node with
    | zero =>
      obtain rfl : mark = false := new
      simp
    | succ node =>
      have shorter : (marks.set node true).count false < marks.count false := ih new
      rw [set_cons_succ, count_cons, count_cons]
      omega

/-- Marks what can be reached from a stack. -/
def markFrom (successors : Nat → List Nat) : List Nat → List Bool → List Bool
  | [], marks => marks
  | node :: stack, marks =>
    if marked : isMarked marks node = true then markFrom successors stack marks
    else
      have := count_set_lt (eq_false_of_ne_true marked)
      markFrom successors
        (((successors node).filter fun next => !isMarked (marks.set node true) next).reverse ++
          stack)
        (marks.set node true)
termination_by stack marks => (marks.count false, stack.length)

variable {successors : Nat → List Nat} {stack : List Nat} {marks : List Bool}

theorem isMarked_set {node other : Nat} :
    isMarked (marks.set node true) other = (decide (other = node) || isMarked marks other) := by
  unfold isMarked
  rw [getD_eq_getElem?_getD, getD_eq_getElem?_getD, getElem?_set]
  by_cases same : node = other
  · subst same
    by_cases inside : node < marks.length <;> simp [inside]
  · simp [same, Ne.symm same]

theorem reached_of_markFrom {node : Nat}
    (marked : isMarked (markFrom successors stack marks) node = true) :
    isMarked marks node = true ∨
      ∃ first ∈ stack, ReflTransGen (fun a b => b ∈ successors a) first node := by
  fun_induction markFrom successors stack marks with
  | case1 => exact .inl marked
  | case2 first stack marks _ ih =>
    rcases ih marked with old | ⟨other, member, path⟩
    · exact .inl old
    · exact .inr ⟨other, mem_cons_of_mem _ member, path⟩
  | case3 first stack marks new smaller ih =>
    rcases ih marked with old | ⟨other, member, path⟩
    · rw [isMarked_set, Bool.or_eq_true, decide_eq_true_eq] at old
      rcases old with rfl | old
      · exact .inr ⟨node, mem_cons_self, .refl⟩
      · exact .inl old
    · rcases mem_append.mp member with pushed | kept
      · have step := (mem_filter.mp (mem_reverse.mp pushed)).1
        exact .inr ⟨first, mem_cons_self, .head step path⟩
      · exact .inr ⟨other, mem_cons_of_mem _ kept, path⟩

/-- The marks of the loop contain those before and the stack, and are closed when those before are
closed but for the stack. -/
theorem markFrom_closed
    (closed : ∀ a, isMarked marks a = true → a < marks.length → ∀ b ∈ successors a,
      isMarked marks b = true ∨ b ∈ stack) :
    (∀ a, isMarked marks a = true ∨ a ∈ stack →
      isMarked (markFrom successors stack marks) a = true) ∧
    ∀ a, isMarked (markFrom successors stack marks) a = true → a < marks.length →
      ∀ b ∈ successors a, isMarked (markFrom successors stack marks) b = true := by
  fun_induction markFrom successors stack marks with
  | case1 marks =>
    have quiet : ∀ a, isMarked marks a = true ∨ a ∈ [] → isMarked marks a = true :=
      fun a known => known.resolve_right not_mem_nil
    exact ⟨quiet, fun a marked inside b step => quiet b (closed a marked inside b step)⟩
  | case2 node stack marks marked ih =>
    have narrow : ∀ a, isMarked marks a = true ∨ a ∈ node :: stack →
        isMarked marks a = true ∨ a ∈ stack := by
      rintro a (old | member)
      · exact .inl old
      · rcases mem_cons.mp member with rfl | later
        · exact .inl marked
        · exact .inr later
    obtain ⟨kept, done⟩ := ih fun a old inside b step => narrow b (closed a old inside b step)
    exact ⟨fun a known => kept a (narrow a known), done⟩
  | case3 node stack marks new smaller ih =>
    have wide : ∀ a, isMarked marks a = true ∨ a ∈ node :: stack →
        isMarked (marks.set node true) a = true ∨ a ∈
          (((successors node).filter fun next => !isMarked (marks.set node true) next).reverse ++
            stack) := by
      rintro a (old | member)
      · exact .inl (by rw [isMarked_set, old, Bool.or_true])
      · rcases mem_cons.mp member with rfl | later
        · exact .inl (by rw [isMarked_set, decide_eq_true rfl, Bool.true_or])
        · exact .inr (mem_append_right _ later)
    rw [length_set] at ih
    obtain ⟨kept, done⟩ := ih (by
      intro a marked inside b step
      rw [isMarked_set, Bool.or_eq_true, decide_eq_true_eq] at marked
      rcases marked with rfl | old
      · cases known : isMarked (marks.set a true) b with
        | true => exact .inl rfl
        | false =>
          refine .inr (mem_append_left _ (mem_reverse.mpr ?_))
          exact mem_filter.mpr ⟨step, by rw [known]; rfl⟩
      · exact wide b (closed a old inside b step))
    exact ⟨fun a known => kept a (wide a known), done⟩

/-- From nothing marked, the loop marks what can be reached from the stack. -/
theorem isMarked_markFrom_replicate {size node : Nat} (inside : node < size)
    (bounded : ∀ a, ∀ b ∈ successors a, b < size) (top : ∀ a ∈ stack, a < size) :
    isMarked (markFrom successors stack (List.replicate size false)) node = true ↔
      ∃ first ∈ stack, ReflTransGen (fun a b => b ∈ successors a) first node := by
  have nothing : ∀ a < size, isMarked (replicate size false) a = false := by
    intro a small
    simp [isMarked, small]
  have start : ∀ a, isMarked (replicate size false) a = true →
      a < (replicate size false).length → ∀ b ∈ successors a,
        isMarked (replicate size false) b = true ∨ b ∈ stack := by
    intro a marked small
    rw [length_replicate] at small
    rw [nothing a small] at marked
    cases marked
  obtain ⟨kept, closed⟩ := markFrom_closed start
  rw [length_replicate] at closed
  constructor
  · intro marked
    rcases reached_of_markFrom marked with old | reached
    · rw [nothing node inside] at old
      cases old
    · exact reached
  · rintro ⟨first, member, path⟩
    have all : node < size ∧
        isMarked (markFrom successors stack (replicate size false)) node = true := by
      clear inside
      induction path with
      | refl => exact ⟨top first member, kept first (.inr member)⟩
      | tail _ step ih => exact ⟨bounded _ _ step, closed _ ih.2 ih.1 _ step⟩
    exact all.2

end CuMetal
