import Mathlib.Data.List.Nodup
import Mathlib.Logic.Relation

/-!
# Post-order

Lists of nodes in which every node stands after the nodes that it has an edge to, which is the order
in which depth-first searches finish them.
-/

namespace CuMetal

open List

open Relation (ReflTransGen TransGen)

variable {κ : Type} {edge : κ → κ → Prop}

/-- Every node stands once, after all the nodes that it has an edge to. -/
inductive PostOrder (edge : κ → κ → Prop) : List κ → Prop
  | nil : PostOrder edge []
  | snoc {order : List κ} {node : κ} : PostOrder edge order → node ∉ order →
      (∀ next, edge node next → next ∈ order) → PostOrder edge (order ++ [node])

namespace PostOrder

variable {order : List κ} {node next : κ}

section

variable (sorted : PostOrder edge order)
include sorted

theorem before {first rest : List κ} (split_ : order = first ++ node :: rest)
    (step : edge node next) : next ∈ first := by
  induction sorted generalizing first rest with
  | nil => exact absurd split_.symm (by simp)
  | @snoc order last _ _ closed ih =>
    rcases eq_nil_or_concat rest with rfl | ⟨rest, c, rfl⟩
    · obtain ⟨rfl, same⟩ := append_inj' split_ rfl
      cases same
      exact closed next step
    · rw [concat_eq_append, ← cons_append, ← append_assoc] at split_
      exact ih (append_inj' split_ rfl).1

theorem closed (member : node ∈ order) (step : edge node next) : next ∈ order := by
  obtain ⟨first, rest, split_⟩ := append_of_mem member
  rw [split_]
  exact mem_append_left _ (sorted.before split_ step)

theorem mem_of_reaches (member : node ∈ order) (reaches : ReflTransGen edge node next) :
    next ∈ order := by
  induction reaches with
  | refl => exact member
  | tail _ step ih => exact sorted.closed ih step

theorem acyclic (member : node ∈ order) : ¬ TransGen edge node node := by
  induction sorted generalizing node with
  | nil => exact absurd member not_mem_nil
  | @snoc order last sorted new closed ih =>
    intro cycle
    rcases mem_append.mp member with inside | here
    · exact ih inside cycle
    · rw [mem_singleton] at here
      subst here
      obtain ⟨next, step, path⟩ := TransGen.head'_iff.mp cycle
      exact new (sorted.mem_of_reaches (closed next step) path)

theorem filter_ne [DecidableEq κ] {left : κ} (alone : ∀ other ∈ order, ¬ edge other left) :
    PostOrder edge (order.filter fun other => other ≠ left) := by
  induction sorted with
  | nil => exact .nil
  | @snoc order last _ new closed ih =>
    have rest := ih fun other member => alone other (mem_append_left _ member)
    have here := alone last (mem_append_right _ (mem_singleton_self _))
    rw [filter_append]
    by_cases same : last = left
    · simpa [same] using rest
    · have kept : [last].filter (fun other => other ≠ left) = [last] := by simp [same]
      rw [kept]
      refine rest.snoc (fun member => new (mem_filter.mp member).1) fun next step => ?_
      refine mem_filter.mpr ⟨closed next step, ?_⟩
      have other : next ≠ left := fun equal => here (equal ▸ step)
      simpa using other

end

end PostOrder

end CuMetal
