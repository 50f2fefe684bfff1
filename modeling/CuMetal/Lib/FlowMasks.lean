import CuMetal.Lib.Fixpoint
import Mathlib.Algebra.BigOperators.Fin
import Mathlib.Algebra.Order.BigOperators.Group.Finset

/-!
# Masks that grow along flows

Every node has a mask, and a flow adds the mask of its source to the one of its target.
The flows are visited in order, again and again, until nothing grows.  Some nodes may grow
as often as they like; the others may be filled once, and a second growth rejects the
whole run.  A run that is not rejected ends in the least masks that are closed under the
flows.  Whether it is rejected can depend on the order of the flows: a node that may be
filled once has to be filled by a mask that is already complete.
-/

namespace CuMetal.Flows

open List Option Prod

variable {N M : Type} [DecidableEq N] [SemilatticeSup M] [OrderBot M] [DecidableEq M]

/-- The masks after a flow has added the mask of its source to its target. -/
def grow (masks : N → M) (flow : N × N) : N → M :=
  Function.update masks flow.2 (masks flow.2 ⊔ masks flow.1)

/-- Visit one flow: the masks and whether one has grown, or `none` after a rejection. -/
def visit (growable : N → Bool) (state : Option (N → M) × Bool) (flow : N × N) :
    Option (N → M) × Bool :=
  match state.1 with
  | none => (none, false)
  | some masks =>
    if masks flow.1 = ⊥ then state
    else if growable flow.2 = false ∧ masks flow.2 ≠ ⊥ ∧
        masks flow.2 ⊔ masks flow.1 ≠ masks flow.2 then (none, false)
    else if masks flow.2 ⊔ masks flow.1 ≠ masks flow.2 then
      (some (grow masks flow), true)
    else state

def pass (growable : N → Bool) (flows : List (N × N)) (masks : Option (N → M)) :
    Option (N → M) × Bool :=
  flows.foldl (visit growable) (masks, false)

/-- The target of every flow holds the mask of its source. -/
def Closed (flows : List (N × N)) (masks : N → M) : Prop :=
  ∀ flow ∈ flows, masks flow.1 ≤ masks flow.2

/-- The masks that hold the seeds and are closed under the flows. -/
def closures (flows : List (N × N)) (seeds : N → M) : Set (N → M) :=
  {masks | seeds ≤ masks ∧ Closed flows masks}

variable {growable : N → Bool} {flows : List (N × N)} {masks seeds least : N → M}

section Grow

omit [OrderBot M] [DecidableEq M]

@[simp] theorem grow_target (masks : N → M) (flow : N × N) :
    grow masks flow flow.2 = masks flow.2 ⊔ masks flow.1 :=
  Function.update_self ..

theorem grow_other (masks : N → M) (flow : N × N) {node : N} (other : node ≠ flow.2) :
    grow masks flow node = masks node :=
  Function.update_of_ne other ..

theorem le_grow (masks : N → M) (flow : N × N) : masks ≤ grow masks flow := by
  intro node
  by_cases target : node = flow.2
  · subst target
    rw [grow_target]
    exact le_sup_left
  · rw [grow_other masks flow target]

theorem grow_le {closure : N → M} {flow : N × N} (below : masks ≤ closure)
    (held : closure flow.1 ≤ closure flow.2) : grow masks flow ≤ closure := by
  intro node
  by_cases target : node = flow.2
  · subst target
    rw [grow_target]
    exact sup_le (below _) ((below _).trans held)
  · rw [grow_other masks flow target]
    exact below node

end Grow

theorem visit_cases (growable : N → Bool) (masks : N → M) (changed : Bool) (flow : N × N) :
    (masks flow.1 ≤ masks flow.2 ∧
        visit growable (some masks, changed) flow = (some masks, changed)) ∨
      (¬ masks flow.1 ≤ masks flow.2 ∧ growable flow.2 = false ∧ masks flow.2 ≠ ⊥ ∧
        visit growable (some masks, changed) flow = (none, false)) ∨
      (¬ masks flow.1 ≤ masks flow.2 ∧ (growable flow.2 = true ∨ masks flow.2 = ⊥) ∧
        visit growable (some masks, changed) flow =
          (some (grow masks flow), true)) := by
  have grows : masks flow.2 ⊔ masks flow.1 ≠ masks flow.2 ↔ ¬ masks flow.1 ≤ masks flow.2 :=
    not_congr sup_eq_left
  unfold visit
  by_cases empty : masks flow.1 = ⊥
  · exact .inl ⟨empty ▸ bot_le, by simp [empty]⟩
  · simp only [grows, if_neg empty]
    by_cases held : masks flow.1 ≤ masks flow.2
    · exact .inl ⟨held, by simp [held]⟩
    · by_cases rejected : growable flow.2 = false ∧ masks flow.2 ≠ ⊥
      · exact .inr (.inl ⟨held, rejected.1, rejected.2, by simp [held, rejected]⟩)
      · refine .inr (.inr ⟨held, ?_, ?_⟩)
        · rcases Bool.eq_false_or_eq_true (growable flow.2) with free | once
          · exact .inl free
          · exact .inr (not_not.mp fun filled => rejected ⟨once, filled⟩)
        · rw [if_neg fun all => rejected ⟨all.1, all.2.1⟩, if_pos (grows.mpr held)]

theorem visits_none (growable : N → Bool) (flows : List (N × N)) (changed : Bool) :
    (flows.foldl (visit growable) ((none : Option (N → M)), changed)).1 = none := by
  induction flows generalizing changed with
  | nil => rfl
  | cons flow flows ih => exact ih false

/-- What every growth of a mask keeps holds after visits that are not rejected. -/
theorem visits_invariant (Inv : (N → M) → Prop)
    (step : ∀ masks flow, flow ∈ flows → Inv masks → ¬ masks flow.1 ≤ masks flow.2 →
      growable flow.2 = true ∨ masks flow.2 = ⊥ →
      Inv (grow masks flow)) :
    ∀ (visited : List (N × N)) (masks last : N → M) (changed : Bool), visited ⊆ flows →
      Inv masks → (visited.foldl (visit growable) (some masks, changed)).1 = some last →
      Inv last := by
  intro visited
  induction visited with
  | nil =>
    intro masks last changed _ holds ends
    exact some.inj ends ▸ holds
  | cons flow visited ih =>
    intro masks last changed inside holds ends
    have member : flow ∈ flows := inside mem_cons_self
    have later : visited ⊆ flows := fun f mem => inside (mem_cons_of_mem _ mem)
    rw [foldl_cons] at ends
    rcases visit_cases growable masks changed flow with ⟨_, same⟩ | ⟨_, _, _, rejected⟩ |
      ⟨larger, may, grown⟩
    · rw [same] at ends
      exact ih masks last changed later holds ends
    · rw [rejected, visits_none] at ends
      cases ends
    · rw [grown] at ends
      exact ih _ last true later (step masks flow member holds larger may) ends

variable {last : N → M}

/-- What every growth of a mask keeps holds where a run that is not rejected ends. -/
theorem run_invariant_of (Inv : (N → M) → Prop)
    (step : ∀ masks flow, flow ∈ flows → Inv masks → ¬ masks flow.1 ≤ masks flow.2 →
      growable flow.2 = true ∨ masks flow.2 = ⊥ → Inv (grow masks flow)) {start : Option (N → M)}
    (run : RunsTo (pass growable flows) start (some last))
    (holds : ∀ masks, start = some masks → Inv masks) : Inv last := by
  have kept := run.invariant (fun state => ∀ masks, state = some masks → Inv masks) ?_ holds
  · exact kept last rfl
  · intro state holds masks ends
    cases state with
    | none =>
      rw [pass, visits_none] at ends
      cases ends
    | some masks' =>
      exact visits_invariant Inv step flows masks' masks false (Subset.refl _)
        (holds masks' rfl) ends

theorem run_invariant (Inv : (N → M) → Prop)
    (step : ∀ masks flow, flow ∈ flows → Inv masks → ¬ masks flow.1 ≤ masks flow.2 →
      growable flow.2 = true ∨ masks flow.2 = ⊥ → Inv (grow masks flow))
 (run : RunsTo (pass growable flows) (some seeds) (some last)) (holds : Inv seeds) : Inv last :=
  run_invariant_of Inv step run fun _ same => some.inj same ▸ holds

/-- Visits that report nothing and are not rejected meet no flow that adds to its target. -/
theorem visits_silent : ∀ (visited : List (N × N)) (masks last : N → M),
    visited.foldl (visit growable) (some masks, false) = (some last, false) →
      last = masks ∧ Closed visited masks := by
  have raised : ∀ (visited : List (N × N)) (masks last : N → M),
      visited.foldl (visit growable) (some masks, true) ≠ (some last, false) := by
    intro visited
    induction visited with
    | nil => intro masks last ends; cases ends
    | cons flow visited ih =>
      intro masks last ends
      rw [foldl_cons] at ends
      rcases visit_cases growable masks true flow with ⟨_, same⟩ | ⟨_, _, _, rejected⟩ |
        ⟨_, _, grown⟩
      · exact ih masks last (same ▸ ends)
      · have none_ends := congrArg fst ends
        rw [rejected, visits_none] at none_ends
        cases none_ends
      · exact ih _ last (grown ▸ ends)
  intro visited
  induction visited with
  | nil =>
    intro masks last ends
    exact ⟨(some.inj (congrArg fst ends)).symm, fun _ member => by cases member⟩
  | cons flow visited ih =>
    intro masks last ends
    rw [foldl_cons] at ends
    rcases visit_cases growable masks false flow with ⟨held, same⟩ | ⟨_, _, _, rejected⟩ |
      ⟨_, _, grown⟩
    · obtain ⟨kept, closed⟩ := ih masks last (same ▸ ends)
      exact ⟨kept, forall_mem_cons.mpr ⟨held, closed⟩⟩
    · have none_ends := congrArg fst ends
      rw [rejected, visits_none] at none_ends
      cases none_ends
    · exact absurd (grown ▸ ends) (raised visited _ last)

/-- A run that is not rejected ends in masks that are closed under the flows. -/
theorem run_closed {state last : Option (N → M)}
    (run : RunsTo (pass growable flows) state last) {masks : N → M} (ends : last = some masks) :
    Closed flows masks := by
  induction run with
  | @silent state quiet =>
    cases state with
    | none =>
      rw [pass, visits_none] at ends
      cases ends
    | some before =>
      obtain ⟨rfl, closed⟩ := visits_silent flows before masks (Prod.ext ends quiet)
      exact closed
  | again _ _ ih => exact ih ends

/-- A run that is not rejected ends in the least masks that hold the seeds and are closed
    under the flows. -/
theorem run_isLeast (run : RunsTo (pass growable flows) (some seeds) (some last)) :
    IsLeast (closures flows seeds) last := by
  refine ⟨⟨?_, run_closed run rfl⟩, ?_⟩
  · refine run_invariant (fun masks => seeds ≤ masks) ?_ run le_rfl
    exact fun masks flow _ holds _ _ => holds.trans (le_grow masks flow)
  · rintro closure ⟨above, closed⟩
    refine run_invariant (fun masks => masks ≤ closure) ?_ run above
    exact fun masks flow member below _ _ => grow_le below (closed flow member)

section Termination

variable [Fintype N] (height : M → Nat) (bound : Nat)

/-- How far the masks can still grow; a rejected run has no room left. -/
def room : Option (N → M) → Nat
  | none => 0
  | some masks => (∑ node, (bound - height (masks node))) + 1

omit [DecidableEq N] [SemilatticeSup M] [OrderBot M] [DecidableEq M] in
theorem room_le (masks : N → M) :
    room height bound (some masks) ≤ Fintype.card N * bound + 1 := by
  have each : ∀ node ∈ Finset.univ, bound - height (masks node) ≤ bound :=
    fun node _ => Nat.sub_le _ _
  have total := Finset.sum_le_card_nsmul Finset.univ _ bound each
  exact Nat.succ_le_succ (by simpa using total)

variable {height bound}

omit [OrderBot M] [DecidableEq M] in
theorem room_update_lt (strict : StrictMono height) (bounded : ∀ mask, height mask ≤ bound)
    {flow : N × N} (larger : ¬ masks flow.1 ≤ masks flow.2) :
    room height bound
        (some (grow masks flow)) <
      room height bound (some masks) := by
  have higher : height (masks flow.2) < height (masks flow.2 ⊔ masks flow.1) :=
    strict (left_lt_sup.mpr larger)
  refine Nat.succ_lt_succ (Finset.sum_lt_sum (fun node _ => ?_) ⟨flow.2, Finset.mem_univ _, ?_⟩)
  · by_cases target : node = flow.2
    · subst target
      rw [grow_target]
      omega
    · rw [grow_other masks flow target]
  · rw [grow_target]
    have := bounded (masks flow.2 ⊔ masks flow.1)
    omega

theorem visits_room (growable : N → Bool) (strict : StrictMono height)
    (bounded : ∀ mask, height mask ≤ bound) :
    ∀ (visited : List (N × N)) (state : Option (N → M) × Bool),
      let last := visited.foldl (visit growable) state
      room height bound last.1 ≤ room height bound state.1 ∧
        (last.2 = true → state.2 = true ∨ room height bound last.1 < room height bound state.1) := by
  intro visited
  induction visited with
  | nil => exact fun state => ⟨le_rfl, .inl⟩
  | cons flow visited ih =>
    rintro ⟨_ | masks, changed⟩
    · obtain ⟨lower, raised⟩ := ih (none, false)
      exact ⟨lower, fun changes => (raised changes).imp (fun down => by cases down) id⟩
    · rw [foldl_cons]
      rcases visit_cases growable masks changed flow with ⟨_, same⟩ | ⟨_, _, _, rejected⟩ |
        ⟨larger, _, grown⟩
      · rw [same]
        exact ih (some masks, changed)
      · obtain ⟨lower, raised⟩ := ih (none, false)
        rw [rejected]
        refine ⟨lower.trans (Nat.zero_le _), fun changes => ?_⟩
        exact (raised changes).elim (fun down => by cases down)
          fun less => absurd less (Nat.not_lt_zero _)
      · have less := room_update_lt strict bounded larger
        have lower := (ih (some (grow masks flow), true)).1
        rw [grown]
        exact ⟨lower.trans less.le, fun _ => .inr (lower.trans_lt less)⟩

theorem passes_runsTo (strict : StrictMono height) (bounded : ∀ mask, height mask ≤ bound)
    (growable : N → Bool) (flows : List (N × N)) (seeds : N → M) :
    RunsTo (pass growable flows) (some seeds)
      (untilUnchanged (pass growable flows) (Fintype.card N * bound + 2) (some seeds)) := by
  refine untilUnchanged_runsTo _ (fun _ => True) (room height bound) ?_ _ _ trivial
    (Nat.lt_succ_of_le (room_le height bound seeds))
  intro state _
  obtain ⟨_, raised⟩ := visits_room growable strict bounded flows (state, false)
  exact ⟨trivial, fun changes => (raised changes).resolve_left (by simp)⟩

/-- There are least masks that hold the seeds and are closed under the flows. -/
theorem exists_isLeast (strict : StrictMono height) (bounded : ∀ mask, height mask ≤ bound)
    (flows : List (N × N)) (seeds : N → M) : ∃ least, IsLeast (closures flows seeds) least := by
  -- a run in which every node may grow is never rejected
  have visits : ∀ (visited : List (N × N)) (masks : N → M) (changed : Bool),
      (visited.foldl (visit fun _ => true) (some masks, changed)).1.isSome = true := by
    intro visited
    induction visited with
    | nil => exact fun _ _ => rfl
    | cons flow visited ih =>
      intro masks changed
      rw [foldl_cons]
      rcases visit_cases (fun _ => true) masks changed flow with ⟨_, same⟩ | ⟨_, once, _⟩ |
        ⟨_, _, grown⟩
      · rw [same]
        exact ih masks changed
      · cases once
      · rw [grown]
        exact ih _ true
  have run := passes_runsTo strict bounded (fun _ => true) flows seeds
  have accepted := run.invariant (fun state => state.isSome = true) (by
    intro state some_state
    obtain ⟨masks, rfl⟩ := isSome_iff_exists.mp some_state
    exact visits flows masks false) rfl
  obtain ⟨least, ends⟩ := isSome_iff_exists.mp accepted
  rw [ends] at run
  exact ⟨least, run_isLeast run⟩

end Termination

/-- The seed of `u` reaches the node through nodes without seeds. -/
inductive Feeds (flows : List (N × N)) (seeds : N → M) (u : N) : N → Prop
  | first {t : N} : seeds u ≠ ⊥ → (u, t) ∈ flows → Feeds flows seeds u t
  | step {v t : N} : Feeds flows seeds u v → seeds v = ⊥ → (v, t) ∈ flows →
      Feeds flows seeds u t

/-- A node that may be filled once holds all of its least mask from the start, or receives
    all of it from whichever seed comes first. -/
def FirstIsComplete (growable : N → Bool) (flows : List (N × N)) (seeds least : N → M) :
    Prop :=
  ∀ t, growable t = false → (seeds t ≠ ⊥ → least t = seeds t) ∧
    (seeds t = ⊥ → ∀ u, Feeds flows seeds u t → seeds u = least t)

/-- A node that may be filled once has a seed and has to grow, or has no predecessor that
    could fill it. -/
def Conflicting (growable : N → Bool) (flows : List (N × N)) (seeds least : N → M) : Prop :=
  ∃ t, growable t = false ∧ least t ≠ seeds t ∧
    (seeds t = ⊥ → ∀ u, (u, t) ∈ flows → least u ≠ least t)

/-- A visit keeps what is common to all masks that were not rejected: they hold the seeds,
    lie below the least closure, and a node without a seed was fed by one. -/
structure Fed (flows : List (N × N)) (seeds least masks : N → M) : Prop where
  above : seeds ≤ masks
  below : masks ≤ least
  fed : ∀ v, seeds v = ⊥ → masks v ≠ ⊥ → ∃ u, Feeds flows seeds u v ∧ seeds u ≤ masks v

theorem Fed.grow (closed : Closed flows least) (fed : Fed flows seeds least masks)
    {flow : N × N} (member : flow ∈ flows) (larger : ¬ masks flow.1 ≤ masks flow.2) :
    Fed flows seeds least (grow masks flow) := by
  refine ⟨fed.above.trans (le_grow masks flow), grow_le fed.below (closed flow member), ?_⟩
  intro v unseeded filled
  by_cases target : v = flow.2
  · subst target
    rw [grow_target]
    have source : masks flow.1 ≠ ⊥ := fun empty => larger (empty ▸ bot_le)
    by_cases seeded : seeds flow.1 = ⊥
    · obtain ⟨u, feeds, under⟩ := fed.fed flow.1 seeded source
      exact ⟨u, feeds.step seeded member, under.trans le_sup_right⟩
    · exact ⟨flow.1, .first seeded member, (fed.above _).trans le_sup_right⟩
  · rw [grow_other masks flow target] at filled ⊢
    exact fed.fed v unseeded filled

omit [DecidableEq N] in
theorem Fed.accepts (complete : FirstIsComplete growable flows seeds least)
    (closed : Closed flows least) (fed : Fed flows seeds least masks) {flow : N × N}
    (member : flow ∈ flows) (once : growable flow.2 = false) (filled : masks flow.2 ≠ ⊥) :
    masks flow.1 ≤ masks flow.2 := by
  have holds : least flow.2 ≤ masks flow.2 := by
    by_cases seeded : seeds flow.2 = ⊥
    · obtain ⟨u, feeds, under⟩ := fed.fed flow.2 seeded filled
      exact ((complete flow.2 once).2 seeded u feeds) ▸ under
    · rw [(complete flow.2 once).1 seeded]
      exact fed.above flow.2
  exact ((fed.below flow.1).trans (closed flow member)).trans holds

variable {last : Option (N → M)} {u t : N} {order : List (N × N)}

theorem run_accepted (complete : FirstIsComplete growable flows seeds least)
    (isLeast : IsLeast (closures flows seeds) least)
    (run : RunsTo (pass growable flows) (some seeds) last) : last.isSome = true := by
  have closed := isLeast.1.2
  have visits : ∀ (visited : List (N × N)) (masks : N → M) (changed : Bool), visited ⊆ flows →
      Fed flows seeds least masks → ∃ last,
        (visited.foldl (visit growable) (some masks, changed)).1 = some last ∧
          Fed flows seeds least last := by
    intro visited
    induction visited with
    | nil => exact fun masks _ _ fed => ⟨masks, rfl, fed⟩
    | cons flow visited ih =>
      intro masks changed inside fed
      have member : flow ∈ flows := inside mem_cons_self
      have later : visited ⊆ flows := fun f mem => inside (mem_cons_of_mem _ mem)
      rw [foldl_cons]
      rcases visit_cases growable masks changed flow with ⟨_, same⟩ |
        ⟨larger, once, filled, _⟩ | ⟨larger, _, grown⟩
      · rw [same]
        exact ih masks changed later fed
      · exact absurd (fed.accepts complete closed member once filled) larger
      · rw [grown]
        exact ih _ true later (fed.grow closed member larger)
  obtain ⟨masks, ends, _⟩ := run.invariant
    (fun state => ∃ masks, state = some masks ∧ Fed flows seeds least masks) (by
      rintro _ ⟨masks, rfl, fed⟩
      exact visits flows masks false (Subset.refl _) fed)
    ⟨seeds, rfl, le_rfl, isLeast.1.1, fun v unseeded filled => absurd unseeded filled⟩
  rw [ends]
  rfl

/-- A node that may be filled once still has its seed, or was filled by a predecessor. -/
def FilledOnce (growable : N → Bool) (flows : List (N × N)) (seeds masks : N → M) : Prop :=
  ∀ t, growable t = false → masks t = seeds t ∨
    (seeds t = ⊥ ∧ ∃ u, (u, t) ∈ flows ∧ masks t ≤ masks u)

theorem run_rejected (conflict : Conflicting growable flows seeds least)
    (isLeast : IsLeast (closures flows seeds) least)
    (run : RunsTo (pass growable flows) (some seeds) last) : last = none := by
  cases last with
  | none => rfl
  | some last =>
    obtain rfl := (run_isLeast run).unique isLeast
    have filled : FilledOnce growable flows seeds last := by
      refine run_invariant (FilledOnce growable flows seeds) ?_ run fun t _ => .inl rfl
      intro masks flow member holds larger may t once
      by_cases target : t = flow.2
      · subst target
        have empty : masks flow.2 = ⊥ := may.resolve_left (by simp [once])
        have unseeded : seeds flow.2 = ⊥ := by
          rcases holds flow.2 once with same | ⟨unseeded, _⟩
          · exact same ▸ empty
          · exact unseeded
        have apart : flow.1 ≠ flow.2 := fun same => larger (same ▸ le_rfl)
        refine .inr ⟨unseeded, flow.1, member, ?_⟩
        rw [grow_target, grow_other masks flow apart, empty, bot_sup_eq]
      · rw [grow_other masks flow target]
        refine (holds t once).imp_right ?_
        rintro ⟨unseeded, u, flows_in, under⟩
        exact ⟨unseeded, u, flows_in, under.trans (le_grow masks flow u)⟩
    obtain ⟨t, once, grows, unfillable⟩ := conflict
    rcases filled t once with same | ⟨unseeded, u, member, under⟩
    · exact absurd same grows
    · exact absurd (le_antisymm (isLeast.1.2 (u, t) member) under)
        (unfillable unseeded u member)

/-! ## An order that is rejected -/

/-- The flows from `u` along a chain of nodes. -/
def chainFlows (u : N) (chain : List N) : List (N × N) := (u :: chain).zip chain

omit [DecidableEq N] in
theorem chainFlows_subset {chain : List N}
    (linked : (u :: chain).IsChain fun a b => (a, b) ∈ flows) : chainFlows u chain ⊆ flows := by
  induction chain generalizing u with
  | nil => exact fun _ member => by cases member
  | cons v chain ih =>
    rw [isChain_cons_cons] at linked
    intro flow member
    rcases mem_cons.mp member with rfl | later
    · exact linked.1
    · exact ih linked.2 later

omit [DecidableEq N] in
theorem chainFlows_nodup (u : N) {chain : List N} (distinct : chain.Nodup) :
    (chainFlows u chain).Nodup := by
  refine Nodup.of_map snd ?_
  rw [chainFlows, map_snd_zip (by simp)]
  exact distinct

omit [DecidableEq N] [DecidableEq M] in
/-- A node that is fed without a seed of its own ends a chain of distinct such nodes. -/
theorem Feeds.exists_chain (feeds : Feeds flows seeds u t) (unseeded : seeds t = ⊥) :
    ∃ front, (front ++ [t]).Nodup ∧ (∀ node ∈ front ++ [t], seeds node = ⊥) ∧
      (u :: (front ++ [t])).IsChain fun a b => (a, b) ∈ flows := by
  induction feeds with
  | @first t _ member => exact ⟨[], by simp, by simpa using unseeded, by simpa using member⟩
  | @step v t _ before member ih =>
    obtain ⟨front, distinct, empty, linked⟩ := ih before
    by_cases visited : t ∈ front ++ [v]
    · -- the chain already visits the node, so its part up to there will do
      obtain ⟨start, rest, whole⟩ := append_of_mem visited
      have split : start ++ t :: rest = (start ++ [t]) ++ rest := by simp
      rw [whole, split] at distinct empty linked
      rw [← cons_append] at linked
      exact ⟨start, distinct.of_append_left, fun node inside =>
        empty node (mem_append_left _ inside), linked.left_of_append⟩
    · refine ⟨front ++ [v], ?_, ?_, ?_⟩
      · rw [nodup_append]
        exact ⟨distinct, nodup_singleton t, by
          intro a inside b last same
          rw [mem_singleton.mp last] at same
          exact visited (same ▸ inside)⟩
      · intro node inside
        rcases mem_append.mp inside with earlier | last
        · exact empty node earlier
        · exact mem_singleton.mp last ▸ unseeded
      · rw [← cons_append, isChain_append]
        refine ⟨linked, isChain_singleton t, ?_⟩
        intro a last b first
        rw [← cons_append, getLast?_append] at last
        simp only [getLast?_singleton, mem_def, some_or, some.injEq,
          head?_cons] at last first
        exact last ▸ first ▸ member

/-- Visiting a chain of empty nodes carries the mask of its start to its end. -/
theorem visits_chain (growable : N → Bool) {mask : M} (filled : mask ≠ ⊥) :
    ∀ (chain : List N) (u : N) (masks : N → M) (changed : Bool), masks u = mask →
      chain.Nodup → (∀ node ∈ chain, masks node = ⊥) →
      ∃ last, ((chainFlows u chain).foldl (visit growable) (some masks, changed)).1 = some last ∧
        last ((u :: chain).getLast (List.cons_ne_nil u chain)) = mask := by
  intro chain
  induction chain with
  | nil => exact fun u masks changed start _ _ => ⟨masks, rfl, start⟩
  | cons v chain ih =>
    intro u masks changed start distinct empty
    obtain ⟨fresh, later⟩ := nodup_cons.mp distinct
    have emptyTarget : masks v = ⊥ := empty v mem_cons_self
    have larger : ¬ masks u ≤ masks v := by
      rw [start, emptyTarget, le_bot_iff]
      exact filled
    rcases visit_cases growable masks changed (u, v) with ⟨held, _⟩ | ⟨_, _, taken, _⟩ |
      ⟨_, _, grown⟩
    · exact absurd held larger
    · exact absurd emptyTarget taken
    · obtain ⟨last, ends, reached⟩ := ih v
        (grow masks (u, v)) true
        (by rw [grow_target masks (u, v), emptyTarget, bot_sup_eq, start]) later
        (fun node member => by
          have other : node ≠ v := fun same => fresh (same ▸ member)
          rw [grow_other masks (u, v) other]
          exact empty node (mem_cons_of_mem _ member))
      refine ⟨last, ?_, ?_⟩
      · rw [chainFlows, zip_cons_cons, foldl_cons, grown]
        exact ends
      · rw [getLast_cons (cons_ne_nil v chain)]
        exact reached

/-- A run that visits, right at the start, a chain that fills a node with less than its
    least mask is rejected. -/
theorem run_rejected_of_chain {front : List N} {rest : List (N × N)}
    (once : growable t = false) (seeded : seeds u ≠ ⊥) (distinct : (front ++ [t]).Nodup)
    (empty : ∀ node ∈ front ++ [t], seeds node = ⊥)
    (isLeast : IsLeast (closures (chainFlows u (front ++ [t]) ++ rest) seeds) least)
    (partly : seeds u ≠ least t)
    (run : RunsTo (pass growable (chainFlows u (front ++ [t]) ++ rest)) (some seeds) last) :
    last = none := by
  cases last with
  | none => rfl
  | some last =>
    obtain ⟨filled, ends, reached⟩ :=
      visits_chain growable seeded (front ++ [t]) u seeds false rfl distinct empty
    have filledTarget : filled t = seeds u := by simpa using reached
    -- from here on the node cannot grow any more
    have keeps : ∀ (masks : N → M) (flow : N × N),
        flow ∈ chainFlows u (front ++ [t]) ++ rest → masks t = seeds u → ¬ masks flow.1 ≤ masks flow.2 →
        growable flow.2 = true ∨ masks flow.2 = ⊥ →
        grow masks flow t = seeds u := by
      intro masks flow _ holds _ may
      by_cases target : t = flow.2
      · subst target
        rcases may with free | bottom
        · rw [once] at free
          cases free
        · exact absurd (holds.symm.trans bottom) seeded
      · rw [grow_other masks flow target]
        exact holds
    have firstPass : ∀ masks, (pass growable (chainFlows u (front ++ [t]) ++ rest)
        (some seeds)).1 = some masks → masks t = seeds u := by
      intro masks passed
      rw [pass, foldl_append] at passed
      have split : (chainFlows u (front ++ [t])).foldl (visit growable) (some seeds, false) =
          (some filled, ((chainFlows u (front ++ [t])).foldl (visit growable)
            (some seeds, false)).2) := Prod.ext ends rfl
      rw [split] at passed
      exact visits_invariant (fun masks => masks t = seeds u) keeps rest filled masks _
        (fun flow member => mem_append_right _ member) filledTarget passed
    have whole := (run_isLeast run).unique isLeast
    have kept : last t = seeds u := by
      generalize ending : some last = final at run
      cases run with
      | silent _ => exact firstPass last ending.symm
      | again _ later => exact run_invariant_of _ keeps (ending ▸ later) firstPass
    exact absurd (kept.symm.trans (congrFun whole t)) partly

omit [DecidableEq N] [DecidableEq M] in
theorem Feeds.seeded (feeds : Feeds flows seeds u t) : seeds u ≠ ⊥ := by
  induction feeds with
  | first seeded _ => exact seeded
  | step _ _ _ ih => exact ih

omit [DecidableEq N] [DecidableEq M] in
theorem Feeds.mono (inside : order ⊆ flows)
    (feeds : Feeds order seeds u t) : Feeds flows seeds u t := by
  induction feeds with
  | first seeded member => exact .first seeded (inside member)
  | step _ unseeded member ih => exact ih.step unseeded (inside member)

omit [DecidableEq N] [DecidableEq M] in
theorem FirstIsComplete.perm (same : order.Perm flows)
    (complete : FirstIsComplete growable flows seeds least) :
    FirstIsComplete growable order seeds least := fun t once =>
  ⟨(complete t once).1, fun unseeded u feeds =>
    (complete t once).2 unseeded u (feeds.mono same.subset)⟩

omit [DecidableEq N] [DecidableEq M] in
theorem Conflicting.perm (same : order.Perm flows)
    (conflict : Conflicting growable flows seeds least) :
    Conflicting growable order seeds least := by
  obtain ⟨t, once, grows, unfillable⟩ := conflict
  exact ⟨t, once, grows, fun unseeded u member =>
    unfillable unseeded u (same.subset member)⟩

omit [DecidableEq N] [OrderBot M] [DecidableEq M] in
theorem closures_perm (same : order.Perm flows) :
    closures order seeds = closures flows seeds := by
  unfold closures Closed
  simp only [same.mem_iff]

/-- If some first mask is not complete, some order of the flows is rejected. -/
theorem exists_rejecting_order (isLeast : IsLeast (closures flows seeds) least)
    (incomplete : ¬ FirstIsComplete growable flows seeds least) :
    ∃ order, order.Perm flows ∧
      ∀ last, RunsTo (pass growable order) (some seeds) last → last = none := by
  unfold FirstIsComplete at incomplete
  push Not at incomplete
  obtain ⟨t, once, fails⟩ := incomplete
  by_cases seeded : seeds t = ⊥
  · obtain ⟨_, u, feeds, partly⟩ := fails fun filled => absurd seeded filled
    obtain ⟨front, distinct, empty, linked⟩ := feeds.exists_chain seeded
    obtain ⟨first, firstPerm, inFlows⟩ :=
      subperm_of_subset (chainFlows_nodup u distinct) (chainFlows_subset linked)
    obtain ⟨rest, wholePerm⟩ := inFlows.exists_perm_append
    have order := (wholePerm.trans (firstPerm.append_right rest)).symm
    refine ⟨_, order, fun last run => ?_⟩
    exact run_rejected_of_chain once feeds.seeded distinct empty
      (by rw [closures_perm order]; exact isLeast) partly run
  · by_cases kept : least t = seeds t
    · exact absurd (fails fun _ => kept).1 seeded
    · exact ⟨flows, Perm.refl _, fun last run =>
        run_rejected ⟨t, once, kept, fun empty => absurd empty seeded⟩ isLeast run⟩

/-! ## An order that is accepted -/

section Acyclic

variable (rank : N → Nat) (least)

/-- Flows into lower nodes come first, and into one node those that fill it. -/
def orderKey (flow : N × N) : Nat :=
  2 * rank flow.2 + if least flow.1 = least flow.2 then 0 else 1

/-- The masks after some of the flows, when they are visited in the order of their keys. -/
structure Upward (flows : List (N × N)) (seeds least masks : N → M) (done : List (N × N)) :
    Prop where
  above : seeds ≤ masks
  below : masks ≤ least
  sources : ∀ flow ∈ done, masks flow.1 = least flow.1
  closed : Closed done masks
  fed : ∀ v, masks v = seeds v ∨ ∃ flow ∈ done, flow.2 = v

variable {rank least} {done rest : List (N × N)} {flow : N × N}

omit [DecidableEq N] [OrderBot M] in
/-- When a flow is visited in this order, the mask of its source is complete. -/
theorem Upward.source_complete (upward : Upward flows seeds least masks done)
    (acyclic : ∀ flow ∈ flows, rank flow.1 < rank flow.2)
    (isLeast : IsLeast (closures flows seeds) least)
    (visited : ∀ other ∈ flows,
      other ∈ done ∨ orderKey least rank flow ≤ orderKey least rank other)
    (member : flow ∈ flows) : masks flow.1 = least flow.1 := by
  refine le_antisymm (upward.below _) ?_
  have closure : (fun v => if rank v ≤ rank flow.1 then masks v else least v) ∈
      closures flows seeds := by
    constructor
    · intro v
      dsimp only
      split
      · exact upward.above v
      · exact isLeast.1.1 v
    · intro other inFlows
      have up := acyclic other inFlows
      by_cases low : rank other.2 ≤ rank flow.1
      · have earlier : other ∈ done := by
          refine (visited other inFlows).resolve_right fun later => ?_
          have higher := acyclic flow member
          unfold orderKey at later
          split at later <;> split at later <;> omega
        simp only [if_pos low, if_pos (show rank other.1 ≤ rank flow.1 by omega)]
        exact upward.closed other earlier
      · simp only [if_neg low]
        refine le_trans ?_ (isLeast.1.2 other inFlows)
        split
        · exact upward.below _
        · exact le_rfl
  have reaches := isLeast.2 closure flow.1
  rwa [if_pos le_rfl] at reaches

omit [DecidableEq N] in
/-- When a flow is visited in this order, its target is empty, can grow, or is complete. -/
theorem Upward.accepts (upward : Upward flows seeds least masks done)
    (free : ¬ Conflicting growable flows seeds least)
    (isLeast : IsLeast (closures flows seeds) least)
    (first : ∀ other ∈ done, orderKey least rank other ≤ orderKey least rank flow)
    (visited : ∀ other ∈ flows,
      other ∈ done ∨ orderKey least rank flow ≤ orderKey least rank other)
    (member : flow ∈ flows) (once : growable flow.2 = false) (filled : masks flow.2 ≠ ⊥) :
    masks flow.1 ≤ masks flow.2 := by
  have holds : least flow.2 ≤ masks flow.2 := by
    by_cases same : least flow.2 = seeds flow.2
    · exact same ▸ upward.above flow.2
    · -- some predecessor has the whole mask; it comes before the others
      have fillable : seeds flow.2 = ⊥ ∧ ∃ u, (u, flow.2) ∈ flows ∧ least u = least flow.2 := by
        unfold Conflicting at free
        push Not at free
        exact free flow.2 once same
      obtain ⟨unseeded, u, inFlows, full⟩ := fillable
      rcases visited (u, flow.2) inFlows with earlier | later
      · exact full ▸ upward.sources _ earlier ▸ upward.closed _ earlier
      · obtain ⟨other, inDone, target⟩ :=
          (upward.fed flow.2).resolve_left fun seed => filled (seed.trans unseeded)
        have otherFull : least other.1 = least flow.2 := by
          by_contra partly
          have low := first other inDone
          have low' := low.trans later
          simp [orderKey, target, full, partly] at low'
        exact otherFull ▸ upward.sources _ inDone ▸ target ▸ upward.closed _ inDone
  exact ((upward.below flow.1).trans (isLeast.1.2 flow member)).trans holds

omit [DecidableEq N] [OrderBot M] [DecidableEq M] in
theorem Upward.advance (upward : Upward flows seeds least masks done) {masks' : N → M}
    (grows : masks ≤ masks') (below : masks' ≤ least)
    (others : ∀ v, v ≠ flow.2 → masks' v = masks v)
    (source : masks flow.1 = least flow.1) (held : masks flow.1 ≤ masks' flow.2) :
    Upward flows seeds least masks' (done ++ [flow]) := by
  have complete : ∀ v, masks v = least v → masks' v = least v := fun v full =>
    le_antisymm (below v) (full ▸ grows v)
  have unchanged : ∀ v, masks v = least v → masks' v = masks v := fun v full =>
    (complete v full).trans full.symm
  refine ⟨upward.above.trans grows, below, ?_, ?_, ?_⟩
  · intro other member
    rcases mem_append.mp member with earlier | last
    · exact complete _ (upward.sources other earlier)
    · exact mem_singleton.mp last ▸ complete _ source
  · intro other member
    rcases mem_append.mp member with earlier | last
    · rw [unchanged _ (upward.sources other earlier)]
      exact (upward.closed other earlier).trans (grows _)
    · obtain rfl := mem_singleton.mp last
      rw [unchanged _ source]
      exact held
  · intro v
    by_cases target : v = flow.2
    · exact .inr ⟨flow, mem_append_right _ (mem_singleton_self _), target.symm⟩
    · rw [others v target]
      refine (upward.fed v).imp_right ?_
      rintro ⟨other, earlier, same⟩
      exact ⟨other, mem_append_left _ earlier, same⟩

theorem visits_upward (acyclic : ∀ flow ∈ flows, rank flow.1 < rank flow.2)
    (free : ¬ Conflicting growable flows seeds least)
    (isLeast : IsLeast (closures flows seeds) least) :
    ∀ (rest done : List (N × N)) (masks : N → M) (changed : Bool),
      (∀ flow, flow ∈ done ++ rest ↔ flow ∈ flows) →
      (done ++ rest).Pairwise (fun a b => orderKey least rank a ≤ orderKey least rank b) →
      Upward flows seeds least masks done →
      ∃ last, (rest.foldl (visit growable) (some masks, changed)).1 = some last ∧
        Upward flows seeds least last (done ++ rest) := by
  intro rest
  induction rest with
  | nil => exact fun done masks _ _ _ upward => ⟨masks, rfl, by simpa using upward⟩
  | cons flow rest ih =>
    intro done masks changed same sorted upward
    have regroup : done ++ flow :: rest = done ++ [flow] ++ rest := by simp
    have member : flow ∈ flows := (same flow).mp (by simp)
    have visited : ∀ other ∈ flows,
        other ∈ done ∨ orderKey least rank flow ≤ orderKey least rank other := by
      intro other inFlows
      rcases mem_append.mp ((same other).mpr inFlows) with earlier | later
      · exact .inl earlier
      · rcases mem_cons.mp later with rfl | later
        · exact .inr le_rfl
        · exact .inr ((pairwise_cons.mp (pairwise_append.mp sorted).2.1).1 _ later)
    have first : ∀ other ∈ done, orderKey least rank other ≤ orderKey least rank flow :=
      fun other earlier =>
        (pairwise_append.mp sorted).2.2 other earlier flow mem_cons_self
    have source := upward.source_complete acyclic isLeast visited member
    rw [foldl_cons]
    rcases visit_cases growable masks changed flow with ⟨held, still⟩ |
      ⟨larger, once, filled, _⟩ | ⟨larger, _, grown⟩
    · rw [still, regroup]
      exact ih (done ++ [flow]) masks changed (regroup ▸ same) (regroup ▸ sorted)
        (upward.advance le_rfl upward.below (fun _ _ => rfl) source held)
    · exact absurd (upward.accepts free isLeast first visited member once filled) larger
    · rw [grown, regroup]
      refine ih (done ++ [flow]) _ true (regroup ▸ same) (regroup ▸ sorted)
        (upward.advance (le_grow masks flow) (grow_le upward.below (isLeast.1.2 flow member))
          (fun v other => grow_other masks flow other) source ?_)
      · rw [grow_target]
        exact le_sup_right

theorem pass_closed : ∀ (visited : List (N × N)) (masks : N → M) (changed : Bool),
    Closed visited masks →
      visited.foldl (visit growable) (some masks, changed) = (some masks, changed) := by
  intro visited
  induction visited with
  | nil => exact fun _ _ _ => rfl
  | cons flow visited ih =>
    intro masks changed closed
    obtain ⟨held, later⟩ := forall_mem_cons.mp closed
    rw [foldl_cons]
    rcases visit_cases growable masks changed flow with ⟨_, still⟩ | ⟨larger, _⟩ | ⟨larger, _⟩
    · rw [still]
      exact ih masks changed later
    · exact absurd held larger
    · exact absurd held larger

theorem exists_accepting_order (acyclic : ∀ flow ∈ flows, rank flow.1 < rank flow.2)
    (free : ¬ Conflicting growable flows seeds least)
    (isLeast : IsLeast (closures flows seeds) least) :
    ∃ order, order.Perm flows ∧
      ∀ last, RunsTo (pass growable order) (some seeds) last → last.isSome = true := by
  let key : N × N → N × N → Prop := fun a b => orderKey least rank a ≤ orderKey least rank b
  have perm := perm_insertionSort key flows
  have sorted : (flows.insertionSort key).Pairwise key := by
    have : Std.Total key := ⟨fun a b => le_total _ _⟩
    have : IsTrans _ key := ⟨fun a b c => le_trans⟩
    exact pairwise_insertionSort key flows
  refine ⟨flows.insertionSort key, perm, fun last run => ?_⟩
  obtain ⟨masks, ends, _⟩ := run.invariant (fun state => ∃ masks, state = some masks ∧
      (masks = seeds ∨ Closed (flows.insertionSort key) masks)) (by
    rintro _ ⟨masks, rfl, rfl | closed⟩
    · obtain ⟨last, ends, upward⟩ := visits_upward acyclic free isLeast
        (flows.insertionSort key) [] masks false (fun flow => perm.mem_iff) sorted
        ⟨le_rfl, isLeast.1.1, by simp, by simp [Closed], fun _ => .inl rfl⟩
      exact ⟨last, ends, .inr upward.closed⟩
    · exact ⟨masks, congrArg fst (pass_closed _ masks false closed), .inr closed⟩)
    ⟨seeds, rfl, .inl rfl⟩
  rw [ends]
  rfl

end Acyclic

end CuMetal.Flows
