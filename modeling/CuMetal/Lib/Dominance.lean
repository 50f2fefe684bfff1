import Mathlib.Data.Set.Insert

/-!
# Dominance in a rooted graph

Walks from an entry node, dominance (every walk to `b` passes through `c`), and the
certificate that an iterative analysis leaves behind: sets that shrink along edges
contain only dominators.  A walk is a nonempty list with its last node first.
-/

namespace CuMetal.Graph

open List

variable {α : Type} {entry : α} {edge : α → α → Prop}

/-- A walk from the entry, last node first. -/
inductive Walk (entry : α) (edge : α → α → Prop) : List α → Prop
  | entry : Walk entry edge [entry]
  | step {path : List α} {u v : α} :
      Walk entry edge (u :: path) → edge u v → Walk entry edge (v :: u :: path)

def Reachable (entry : α) (edge : α → α → Prop) (node : α) : Prop :=
  ∃ path, Walk entry edge (node :: path)

/-- Every walk that ends at `b` passes through `c`. -/
def Dominates (entry : α) (edge : α → α → Prop) (c b : α) : Prop :=
  ∀ path, Walk entry edge (b :: path) → c ∈ b :: path

theorem Dominates.refl (b : α) : Dominates entry edge b b :=
  fun _ _ => mem_cons_self

variable {c b : α} {path : List α}

/-- Sets that hold only the entry at the entry, and at the target of an edge only the
    target and members of the source's set, hold only dominators. -/
theorem dominates_of_certificate (candidates : α → Set α) (atEntry : candidates entry ⊆ {entry})
    (alongEdge : ∀ u v, edge u v → v ≠ entry → candidates v ⊆ insert v (candidates u))
    (member : c ∈ candidates b) : Dominates entry edge c b := by
  intro path walk
  generalize whole : b :: path = nodes at walk
  induction walk generalizing b c path with
  | entry =>
    injection whole with hb hpath
    subst hb
    simpa using atEntry member
  | @step path' u v walk hedge ih =>
    injection whole with hb hpath
    subst hb
    by_cases same : b = entry
    · subst same
      have := atEntry member
      rw [Set.mem_singleton_iff] at this
      exact this ▸ mem_cons_self
    · rcases alongEdge u b hedge same member with equal | earlier
      · exact equal ▸ mem_cons_self
      · exact mem_cons_of_mem _ (ih earlier path' rfl)

theorem Walk.append {first rest : List α} (walk : Walk entry edge first) :
    ∀ last, first = last ++ [entry] → Walk entry edge (entry :: rest) →
      Walk entry edge (last ++ entry :: rest) := by
  induction walk with
  | entry =>
    intro last whole before
    have empty : last = [] := by
      have lengths := congrArg length whole
      simpa using lengths
    rw [empty]
    exact before
  | @step path u v walk hedge ih =>
    intro last whole before
    cases last with
    | nil => simp at whole
    | cons head tail =>
      obtain ⟨rfl, same⟩ := cons.inj whole
      have shorter := ih tail same before
      cases tail with
      | nil =>
        obtain rfl : u = entry := by simpa using congrArg head? same
        exact .step shorter hedge
      | cons second tail =>
        obtain rfl : u = second := by simpa using congrArg head? same
        exact .step shorter hedge

theorem Walk.exists_eq_append_entry (walk : Walk entry edge path) :
    ∃ last, path = last ++ [entry] := by
  induction walk with
  | entry => exact ⟨[], rfl⟩
  | @step path u v walk _ ih =>
    obtain ⟨last, whole⟩ := ih
    exact ⟨v :: last, by rw [whole, cons_append]⟩

/-- A reachable node is reached by a walk that visits the entry only at its start. -/
theorem exists_walk_entry_once {node : α} (reachable : Reachable entry edge node) :
    ∃ tail, Walk entry edge (tail ++ [entry]) ∧ (tail ++ [entry]).head? = some node ∧
      entry ∉ tail := by
  classical
  obtain ⟨path, walk⟩ := reachable
  generalize whole : node :: path = nodes at walk
  induction walk generalizing node path with
  | entry =>
    injection whole with hnode _
    exact ⟨[], .entry, by simp [hnode], by simp⟩
  | @step path' u v walk hedge ih =>
    injection whole with hnode _
    subst hnode
    obtain ⟨tail, walked, headed, once⟩ := ih path' rfl
    by_cases same : node = entry
    · exact ⟨[], .entry, by simp [same], by simp⟩
    · refine ⟨node :: tail, ?_, rfl, ?_⟩
      · cases tail with
        | nil =>
          have equal : entry = u := by simpa using headed
          exact .step walked (equal ▸ hedge)
        | cons head rest =>
          have equal : head = u := by simpa using headed
          exact .step walked (equal ▸ hedge)
      · simpa [Ne.symm same] using once

theorem Dominates.of_entry : Dominates entry edge entry b := by
  intro path walk
  obtain ⟨last, whole⟩ := walk.exists_eq_append_entry
  rw [whole]
  exact mem_append_right _ (mem_singleton_self entry)

/-- The part of a walk after a visit of a node is a walk from that node. -/
theorem Walk.exists_from_mem {node : α} (walk : Walk entry edge path) (visited : node ∈ path) :
    ∃ front back, path = front ++ node :: back ∧ Walk node edge (front ++ [node]) := by
  induction walk with
  | entry =>
    obtain rfl := mem_singleton.mp visited
    exact ⟨[], [], rfl, .entry⟩
  | @step path u v walk hedge ih =>
    rcases mem_cons.mp visited with rfl | earlier
    · exact ⟨[], u :: path, rfl, .entry⟩
    · obtain ⟨front, back, whole, later⟩ := ih earlier
      refine ⟨v :: front, back, by rw [whole, cons_append], ?_⟩
      cases front with
      | nil =>
        obtain rfl : u = node := (cons.inj whole).1
        exact .step .entry hedge
      | cons head front =>
        obtain rfl : u = head := (cons.inj whole).1
        exact .step later hedge

/-- If all walks from `entry` to `b` pass through `middle`, they pass through whatever
    dominates `b` from `middle`. -/
theorem Dominates.through {middle : α} (passes : Dominates entry edge middle b)
    (later : Dominates middle edge c b) : Dominates entry edge c b := by
  intro path walk
  obtain ⟨front, back, whole, suffix⟩ := walk.exists_from_mem (passes path walk)
  cases front with
  | nil =>
    obtain ⟨rfl, -⟩ := cons.inj whole
    have same : c = b := mem_singleton.mp (later [] .entry)
    exact same ▸ mem_cons_self
  | cons head front =>
    obtain ⟨rfl, -⟩ := cons.inj whole
    have onSuffix := later (front ++ [middle]) suffix
    rw [whole, cons_append, mem_cons, mem_append, mem_cons]
    rw [mem_cons, mem_append, mem_singleton] at onSuffix
    exact onSuffix.imp_right (Or.imp_right .inl)

/-- A dominator of the target of an edge is the target or dominates the source. -/
theorem Dominates.of_edge {u v : α} (dominates : Dominates entry edge c v) (hedge : edge u v)
    (other : c ≠ v) : Dominates entry edge c u := by
  intro path walk
  exact (mem_cons.mp (dominates _ (.step walk hedge))).resolve_left other

/-- The nodes of a walk lie in any set that holds the entry and is closed under edges. -/
theorem Walk.forall_mem (nodes : Set α) (walk : Walk entry edge path) (atEntry : entry ∈ nodes)
    (closed : ∀ u v, edge u v → v ∈ nodes) : ∀ node ∈ path, node ∈ nodes := by
  induction walk with
  | entry => exact fun node member => mem_singleton.mp member ▸ atEntry
  | @step path u v walk hedge ih =>
    intro node member
    rcases mem_cons.mp member with rfl | earlier
    · exact closed u _ hedge
    · exact ih node earlier

end CuMetal.Graph
