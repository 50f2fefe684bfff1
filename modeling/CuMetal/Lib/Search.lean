import Mathlib.Data.Finset.Card

/-!
# Depth-first search

A search for a node with a property among the nodes reachable from one. The body of a node is a list
of steps, each of which ends the search or may descend to another node; a set of visited nodes is
shared by all descents.
-/

namespace CuMetal

open List

variable {κ : Type} [DecidableEq κ]

/-- Runs the steps of a body, descending with `visit`. -/
def searchSteps (visit : List κ → κ → Bool × List κ) :
    List κ → List (Bool × Option κ) → Bool × List κ
  | visited, [] => (false, visited)
  | visited, step :: rest =>
    if step.1 then (true, visited)
    else
      match step.2 with
      | none => searchSteps visit visited rest
      | some next =>
        if (visit visited next).1 then (true, (visit visited next).2)
        else searchSteps visit (visit visited next).2 rest

/-- Whether the search from a node ends, and the nodes visited; `fuel` bounds the depth. -/
def search (body : κ → List (Bool × Option κ)) : Nat → List κ → κ → Bool × List κ
  | 0, visited, _ => (false, visited)
  | fuel + 1, visited, node =>
    if node ∈ visited then (false, visited)
    else searchSteps (search body fuel) (node :: visited) (body node)

section

variable (body : κ → List (Bool × Option κ))

/-- A step of the first node descends to the second. -/
def Descends (node next : κ) : Prop := ∃ hit, (hit, some next) ∈ body node

def Hits (node : κ) : Prop := ∃ step ∈ body node, step.1 = true

/-- The second node can be reached from the first. -/
abbrev Reaches : κ → κ → Prop := Relation.ReflTransGen (Descends body)

variable {body}

variable {fuel : Nat} {visited : List κ} {node : κ}

theorem search_sound (found : (search body fuel visited node).1 = true) :
    ∃ last, Reaches body node last ∧ Hits body last := by
  induction fuel generalizing visited node with
  | zero => cases found
  | succ fuel ih =>
    rw [search] at found
    split at found
    · cases found
    · have steps : ∀ (rest : List (Bool × Option κ)) (visited : List κ),
          (∀ step ∈ rest, step ∈ body node) →
          (searchSteps (search body fuel) visited rest).1 = true →
          ∃ last, Reaches body node last ∧ Hits body last := by
        intro rest
        induction rest with
        | nil =>
          intro visited _ found
          cases found
        | cons step rest inner =>
          intro visited mem found
          have here := mem step mem_cons_self
          have there : ∀ other ∈ rest, other ∈ body node :=
            fun other inside => mem other (mem_cons_of_mem _ inside)
          rw [searchSteps] at found
          split at found
          · next hit => exact ⟨node, .refl, step, here, hit⟩
          · next plain =>
              split at found
              · exact inner _ there found
              · next next descends =>
                  split at found
                  · next deeper =>
                      obtain ⟨last, reaches, hits⟩ := ih deeper
                      refine ⟨last, .head ⟨false, ?_⟩ reaches, hits⟩
                      have same : step = (false, some next) :=
                        Prod.ext (Bool.eq_false_of_not_eq_true plain) descends
                      rw [← same]
                      exact here
                  · exact inner _ there found
      exact steps _ _ (fun _ mem => mem) found

/-- What a search that does not end leaves: more nodes are visited, and what is new has no hit and
only descends to visited nodes. -/
structure Explored (body : κ → List (Bool × Option κ)) (before after : List κ) : Prop where
  grows : ∀ node ∈ before, node ∈ after
  quiet : ∀ node ∈ after, node ∉ before →
    ¬ Hits body node ∧ ∀ next, Descends body node next → next ∈ after

omit [DecidableEq κ] in
theorem Explored.refl (visited : List κ) : Explored body visited visited :=
  ⟨fun _ mem => mem, fun _ mem new => absurd mem new⟩

theorem Explored.trans {first second third : List κ} (before : Explored body first second)
    (after : Explored body second third) : Explored body first third where
  grows node mem := after.grows node (before.grows node mem)
  quiet node mem new := by
    by_cases known : node ∈ second
    · obtain ⟨silent, closed⟩ := before.quiet node known new
      exact ⟨silent, fun next descends => after.grows next (closed next descends)⟩
    · exact after.quiet node mem known

variable {graph : Finset κ}

/-- The number of nodes that have not been visited. -/
abbrev unvisited (graph : Finset κ) (visited : List κ) : Nat :=
  (graph \ visited.toFinset).card

theorem unvisited_le {before after : List κ} (grows : ∀ node ∈ before, node ∈ after) :
    unvisited graph after ≤ unvisited graph before := by
  refine Finset.card_le_card (Finset.sdiff_subset_sdiff le_rfl ?_)
  intro node mem
  exact mem_toFinset.mpr (grows node (mem_toFinset.mp mem))

theorem unvisited_cons_lt (inside : node ∈ graph)
    (new : node ∉ visited) : unvisited graph (node :: visited) < unvisited graph visited := by
  refine Finset.card_lt_card (Finset.ssubset_iff_of_subset ?_ |>.mpr ⟨node, ?_, ?_⟩)
  · intro other mem
    simp only [Finset.mem_sdiff, mem_toFinset, mem_cons, not_or] at mem ⊢
    exact ⟨mem.1, mem.2.2⟩
  · simp [inside, new]
  · simp

theorem searchSteps_complete {visit : List κ → κ → Bool × List κ}
    (visits : ∀ {visited : List κ} {node : κ}, node ∈ graph →
      unvisited graph visited < fuel → (visit visited node).1 = false →
      Explored body visited (visit visited node).2 ∧ node ∈ (visit visited node).2)
    {steps : List (Bool × Option κ)} (inside : ∀ hit next, (hit, some next) ∈ steps → next ∈ graph)
 (enough : unvisited graph visited < fuel) (missed : (searchSteps visit visited steps).1 = false) :
    Explored body visited (searchSteps visit visited steps).2 ∧
      ∀ step ∈ steps, step.1 = false ∧
        ∀ next, step.2 = some next → next ∈ (searchSteps visit visited steps).2 := by
  induction steps generalizing visited with
  | nil => exact ⟨.refl visited, fun _ mem => absurd mem not_mem_nil⟩
  | cons step rest ih =>
    have later : ∀ hit next, (hit, some next) ∈ rest → next ∈ graph :=
      fun hit next mem => inside hit next (mem_cons_of_mem _ mem)
    obtain ⟨hit, descends⟩ := step
    cases hit with
    | true => cases missed
    | false =>
      cases descends with
      | none =>
        obtain ⟨explored, quiet⟩ := ih later enough missed
        refine ⟨explored, fun step mem => ?_⟩
        rcases mem_cons.mp mem with rfl | mem
        · exact ⟨rfl, fun next absent => nomatch absent⟩
        · exact quiet step mem
      | some next =>
        have here := inside false next mem_cons_self
        simp only [searchSteps, Bool.false_eq_true, if_false] at missed ⊢
        split at missed
        · cases missed
        · next deeper =>
            have silent := Bool.eq_false_of_not_eq_true deeper
            obtain ⟨first, reached⟩ := visits here enough silent
            obtain ⟨second, quiet⟩ :=
              ih later (lt_of_le_of_lt (unvisited_le first.grows) enough) missed
            rw [if_neg deeper]
            refine ⟨first.trans second, fun step mem => ?_⟩
            rcases mem_cons.mp mem with rfl | mem
            · refine ⟨rfl, fun other same => ?_⟩
              cases same
              exact second.grows _ reached
            · exact quiet step mem

/-- A search of enough fuel that does not end has visited all that it can reach. -/
theorem search_complete (closed : ∀ node ∈ graph, ∀ next, Descends body node next →
      next ∈ graph) (inside : node ∈ graph) (enough : unvisited graph visited < fuel)
    (missed : (search body fuel visited node).1 = false) :
    Explored body visited (search body fuel visited node).2 ∧
      node ∈ (search body fuel visited node).2 := by
  induction fuel generalizing visited node with
  | zero => exact absurd enough (Nat.not_lt_zero _)
  | succ fuel ih =>
    rw [search] at missed ⊢
    by_cases known : node ∈ visited
    · rw [if_pos known]
      exact ⟨.refl visited, known⟩
    · rw [if_neg known] at missed ⊢
      have fewer := unvisited_cons_lt inside known
      have visits : ∀ {visited : List κ} {node : κ}, node ∈ graph →
          unvisited graph visited < fuel → (search body fuel visited node).1 = false →
          Explored body visited (search body fuel visited node).2 ∧
            node ∈ (search body fuel visited node).2 :=
        fun here enough missed => ih here enough missed
      obtain ⟨explored, quiet⟩ := searchSteps_complete visits
        (fun hit next mem => closed node inside next ⟨hit, mem⟩) (by omega) missed
      refine ⟨⟨fun other mem => explored.grows other (mem_cons_of_mem _ mem),
        fun other mem new => ?_⟩, explored.grows node mem_cons_self⟩
      by_cases same : other = node
      · subst same
        constructor
        · rintro ⟨step, mem, hit⟩
          rw [(quiet step mem).1] at hit
          cases hit
        · rintro next ⟨hit, mem⟩
          exact (quiet _ mem).2 next rfl
      · exact explored.quiet other mem (by simp [same, new])

/-- A search from the start finds a node exactly if one can be reached. -/
theorem search_iff (closed : ∀ node ∈ graph, ∀ next, Descends body node next → next ∈ graph)
 (inside : node ∈ graph) (enough : graph.card < fuel) :
    (search body fuel [] node).1 = true ↔ ∃ last, Reaches body node last ∧ Hits body last := by
  constructor
  · exact search_sound
  · rintro ⟨last, reaches, hits⟩
    by_contra missed
    obtain ⟨explored, here⟩ := search_complete closed inside
      (by simpa [unvisited] using enough) (Bool.eq_false_of_not_eq_true missed)
    have visited : last ∈ (search body fuel [] node).2 := by
      clear hits
      induction reaches with
      | refl => exact here
      | tail _ descends ih => exact (explored.quiet _ ih not_mem_nil).2 _ descends
    exact (explored.quiet last visited not_mem_nil).1 hits

end

end CuMetal
