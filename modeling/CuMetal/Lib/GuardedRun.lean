import Mathlib.Data.List.Basic

/-!
# Runs whose steps are guarded

Runs of a system that keep the states and actions that they went through. An invariant that the
guarded steps keep, and that the other steps break, tells which runs stay within a property.
-/

namespace CuMetal.Guarded

open List

variable {σ α : Type*} {step : σ → α → σ → Prop}

/-- A run with its trail: each step's state and action. -/
inductive Run (step : σ → α → σ → Prop) : σ → List (σ × α) → σ → Prop
  | nil (s : σ) : Run step s [] s
  | cons {s s' u : σ} {a : α} {trail : List (σ × α)} :
      step s a s' → Run step s' trail u → Run step s ((s, a) :: trail) u

/-- The property holds in every state of the run. -/
def Always (P : σ → Prop) (trail : List (σ × α)) (u : σ) : Prop :=
  (∀ visited ∈ trail, P visited.1) ∧ P u

theorem always_nil {P : σ → Prop} {u : σ} : Always (α := α) P [] u ↔ P u := by
  simp [Always]

theorem always_cons {P : σ → Prop} {s u : σ} {a : α} {trail : List (σ × α)} :
    Always P ((s, a) :: trail) u ↔ P s ∧ Always P trail u := by
  simp [Always, and_assoc]

theorem Run.first {P : σ → Prop} {s u : σ} {trail : List (σ × α)} (run : Run step s trail u)
    (always : Always P trail u) : P s := by
  cases run with
  | nil => exact always.2
  | cons _ _ => exact (always_cons.mp always).1

theorem Run.snoc {s t u : σ} {a : α} {trail : List (σ × α)} (run : Run step s trail t)
    (last : step t a u) : Run step s (trail ++ [(t, a)]) u := by
  induction run with
  | nil t => exact .cons last (.nil u)
  | cons first _ ih => exact .cons first (ih last)

theorem Run.of_append {s u : σ} {before after : List (σ × α)}
    (run : Run step s (before ++ after) u) : ∃ t, Run step s before t ∧ Run step t after u := by
  induction before generalizing s with
  | nil => exact ⟨s, .nil s, run⟩
  | cons visited before ih =>
    cases run with
    | cons first rest =>
      obtain ⟨t, left, right⟩ := ih rest
      exact ⟨t, .cons first left, right⟩

/-- What the guarded steps keep holds throughout a run of guarded steps. -/
theorem Run.invariant {Inv : σ → Prop} {Good : σ → α → Prop}
    (keeps : ∀ s a s', Inv s → Good s a → step s a s' → Inv s')
    {s u : σ} {trail : List (σ × α)} (start : Inv s) (run : Run step s trail u)
    (good : ∀ visited ∈ trail, Good visited.1 visited.2) : Always Inv trail u := by
  induction run with
  | nil => exact always_nil.mpr start
  | @cons s s' u a trail first _ ih =>
    have next := keeps s a s' start (good (s, a) (by simp)) first
    exact always_cons.mpr ⟨start, ih next fun visited mem => good visited (by simp [mem])⟩

/-- When the guarded steps keep an invariant that grants the property, and every other step
leaves it, the runs within the property are those of guarded steps. -/
theorem Run.always_iff {Inv P : σ → Prop} {Good : σ → α → Prop}
    (grants : ∀ s, Inv s → P s)
    (keeps : ∀ s a s', Inv s → Good s a → step s a s' → Inv s')
    (breaks : ∀ s a s', Inv s → ¬ Good s a → step s a s' → ¬ P s')
    {s u : σ} {trail : List (σ × α)} (start : Inv s) (run : Run step s trail u) :
    Always P trail u ↔ ∀ visited ∈ trail, Good visited.1 visited.2 := by
  constructor
  · intro always
    induction run with
    | nil => simp
    | @cons s s' u a trail first rest ih =>
      have after := (always_cons.mp always).2
      by_cases good : Good s a
      · intro visited mem
        rcases mem_cons.mp mem with rfl | mem
        · exact good
        · exact ih (keeps s a s' start good first) after visited mem
      · exact absurd (rest.first after) (breaks s a s' start good first)
  · intro good
    have always := run.invariant keeps start good
    exact ⟨fun visited mem => grants _ (always.1 visited mem), grants _ always.2⟩

def Steps (next : σ → α → Option σ) (s : σ) (a : α) (s' : σ) : Prop :=
  next s a = some s'

/-- The state after these actions, if each can be taken. -/
def execute (next : σ → α → Option σ) : σ → List α → Option σ
  | s, [] => some s
  | s, a :: rest => (next s a).bind fun s' => execute next s' rest

theorem run_of_execute {next : σ → α → Option σ} {s u : σ} {actions : List α}
    (executed : execute next s actions = some u) :
    ∃ trail, trail.map Prod.snd = actions ∧ Run (Steps next) s trail u := by
  induction actions generalizing s with
  | nil =>
    cases executed
    exact ⟨[], rfl, .nil _⟩
  | cons a rest ih =>
    obtain ⟨s', stepped, executed⟩ := Option.bind_eq_some_iff.mp executed
    obtain ⟨trail, same, run⟩ := ih executed
    exact ⟨(_, a) :: trail, by rw [map_cons, same], .cons stepped run⟩

theorem run_of_guarded {next : σ → α → Option σ} {good : σ → α → Prop}
    [∀ s a, Decidable (good s a)] {s u : σ} {actions : List α}
    (executed : execute (fun s a => if good s a then next s a else none) s actions = some u) :
    ∃ trail, trail.map Prod.snd = actions ∧ Run (Steps next) s trail u ∧
      ∀ visited ∈ trail, good visited.1 visited.2 := by
  induction actions generalizing s with
  | nil =>
    cases executed
    exact ⟨[], rfl, .nil _, fun _ mem => absurd mem not_mem_nil⟩
  | cons a rest ih =>
    obtain ⟨s', stepped, executed⟩ := Option.bind_eq_some_iff.mp executed
    simp only at stepped
    split at stepped
    next here =>
      obtain ⟨trail, same, run, all⟩ := ih executed
      refine ⟨(_, a) :: trail, by rw [map_cons, same], .cons stepped run, ?_⟩
      intro visited mem
      rcases mem_cons.mp mem with rfl | mem
      · exact here
      · exact all visited mem
    next => cases stepped

/-- The trail of actions that can always be taken. -/
def trailOf (next : σ → α → σ) : σ → List α → List (σ × α)
  | _, [] => []
  | s, a :: rest => (s, a) :: trailOf next (next s a) rest

theorem run_trailOf (next : σ → α → σ) (actions : List α) : ∀ s : σ,
    Run (fun s a t => next s a = t) s (trailOf next s actions) (actions.foldl next s) := by
  induction actions with
  | nil => exact .nil
  | cons a rest ih => exact fun s => .cons rfl (ih _)

end CuMetal.Guarded
