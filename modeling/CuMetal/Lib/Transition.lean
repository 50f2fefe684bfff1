import Mathlib.Data.Set.Basic

/-!
# Labelled transition systems

Runs with the list of their visible labels, forward simulation up to silent steps, and
determinism: a run through a deterministic system is fixed by its labels.
-/

namespace CuMetal.Lts

variable {σ τ ε : Type} {A : σ → Option ε → σ → Prop} {B : τ → Option ε → τ → Prop}

/-- A run and its visible labels; a step labelled `none` is silent. -/
inductive Run (step : σ → Option ε → σ → Prop) : σ → List ε → σ → Prop
  | refl (s : σ) : Run step s [] s
  | silent {s s' u : σ} {trace : List ε} :
      step s none s' → Run step s' trace u → Run step s trace u
  | visible {s s' u : σ} {event : ε} {trace : List ε} :
      step s (some event) s' → Run step s' trace u → Run step s (event :: trace) u

/-- The label sequences of the runs from a state. -/
def Traces (step : σ → Option ε → σ → Prop) (s : σ) : Set (List ε) :=
  {trace | ∃ u, Run step s trace u}

variable {s s' u : σ} {t : τ} {trace : List ε}

theorem Run.one {label : Option ε} (h : A s label s') : Run A s label.toList s' := by
  cases label with
  | none => exact .silent h (.refl s')
  | some event => exact .visible h (.refl s')

theorem Run.trans {first second : List ε} (h : Run A s first s')
    (h' : Run A s' second u) : Run A s (first ++ second) u := by
  induction h with
  | refl => exact h'
  | silent step _ ih => exact .silent step (ih h')
  | visible step _ ih => exact .visible step (ih h')

section

variable {κ : Type} (turn : σ → κ → Option (Option ε × σ))

/-- The run of a system whose steps are computed from the choices made in them. -/
def turns : σ → List κ → Option (List ε × σ)
  | s, [] => some ([], s)
  | s, choice :: rest =>
    match turn s choice with
    | none => none
    | some (label, next) => (turns next rest).map fun (trace, last) => (label.toList ++ trace, last)

theorem run_of_turns {turn : σ → κ → Option (Option ε × σ)}
    (steps : ∀ s choice label s', turn s choice = some (label, s') → A s label s')
    {choices : List κ} (taken : turns turn s choices = some (trace, u)) : Run A s trace u := by
  induction choices generalizing s trace with
  | nil =>
    cases taken
    exact .refl _
  | cons choice rest ih =>
    rw [turns] at taken
    split at taken
    · cases taken
    next label next step =>
      obtain ⟨⟨trace', last⟩, later, same⟩ := Option.map_eq_some_iff.mp taken
      cases same
      exact (Run.one (steps _ _ _ _ step)).trans (ih later)

end

section

variable {Rel : σ → τ → Prop} {Good : σ → Prop}
  (simulates : ∀ s t label s', Rel s t → Good s → A s label s' → ∃ t', Run B t label.toList t' ∧
    Rel s' t')
  (related : Rel s t)

include simulates related

/-- A run is matched until it meets a state where the matching of steps is not granted. -/
theorem Run.simulate_until (run : Run A s trace s') :
    (∃ t', Run B t trace t' ∧ Rel s' t') ∨
      ∃ before u t', Run A s before u ∧ ¬ Good u ∧ Run B t before t' ∧ Rel u t' := by
  induction run generalizing t with
  | refl s => exact .inl ⟨t, .refl t, related⟩
  | @silent s s₁ u trace step rest ih =>
    by_cases good : Good s
    · obtain ⟨t₁, matched, related₁⟩ := simulates s t none s₁ related good step
      rcases ih related₁ with ⟨t', after, last⟩ | ⟨before, v, t', run, bad, after, last⟩
      · exact .inl ⟨t', matched.trans after, last⟩
      · exact .inr ⟨before, v, t', .silent step run, bad, matched.trans after, last⟩
    · exact .inr ⟨[], s, t, .refl s, good, .refl t, related⟩
  | @visible s s₁ u event trace step rest ih =>
    by_cases good : Good s
    · obtain ⟨t₁, matched, related₁⟩ := simulates s t (some event) s₁ related good step
      rcases ih related₁ with ⟨t', after, last⟩ | ⟨before, v, t', run, bad, after, last⟩
      · exact .inl ⟨t', matched.trans after, last⟩
      · exact .inr ⟨event :: before, v, t', .visible step run, bad,
          matched.trans after, last⟩
    · exact .inr ⟨[], s, t, .refl s, good, .refl t, related⟩

/-- A simulation that covers every state that the run meets gives a matching run. -/
theorem Run.simulate (good : ∀ before u, Run A s before u → Good u) (run : Run A s trace s') :
    ∃ t', Run B t trace t' ∧ Rel s' t' := by
  rcases run.simulate_until simulates related with matched | ⟨before, u, _, reached, bad, _, _⟩
  · exact matched
  · exact absurd (good before u reached) bad

end

/-- A simulation that keeps some of the labels, as labels of the other system, and what it
shows of each label. -/
theorem Run.project {δ : Type} {A' : σ → Option δ → σ → Prop} (Rel : σ → τ → Prop)
    {Shown : δ → Prop} (keep : δ → Option ε) (simulates : ∀ s t label s', Rel s t → A' s label s' →
      (∀ event ∈ label, Shown event) ∧ ∃ t', Run B t (label.bind keep).toList t' ∧ Rel s' t')
 {trace : List δ} (related : Rel s t) (run : Run A' s trace s') :
    (∀ event ∈ trace, Shown event) ∧
      ∃ t', Run B t (trace.filterMap keep) t' ∧ Rel s' t' := by
  induction run generalizing t with
  | refl s => exact ⟨by simp, t, .refl t, related⟩
  | silent step _ ih =>
    obtain ⟨-, t₁, matched, related₁⟩ := simulates _ _ _ _ related step
    obtain ⟨shown, t', after, last⟩ := ih related₁
    exact ⟨shown, t', matched.trans after, last⟩
  | @visible s s₁ u event trace step _ ih =>
    obtain ⟨first, t₁, matched, related₁⟩ := simulates _ _ _ _ related step
    obtain ⟨shown, t', after, last⟩ := ih related₁
    have joined := matched.trans after
    constructor
    · intro other mem
      rcases List.mem_cons.mp mem with rfl | mem
      · exact first other rfl
      · exact shown other mem
    · refine ⟨t', ?_, last⟩
      cases kept : keep event with
      | none => simpa [kept] using joined
      | some label => simpa [kept] using joined

/-- A silent step is the only step of its state, and a label fixes the next state. -/
structure Deterministic (step : σ → Option ε → σ → Prop) : Prop where
  silent : ∀ s s' label u, step s none s' → step s label u → label = none ∧ u = s'
  visible : ∀ s s' event u, step s (some event) s' → step s (some event) u → u = s'

theorem Run.cancel (deterministic : Deterministic A) {v : σ} {first rest : List ε} {event : ε}
    (short : Run A s first u) (long : Run A s (first ++ event :: rest) v) :
    Run A u (event :: rest) v := by
  induction short with
  | refl => exact long
  | @silent s s₁ u trace step _ ih =>
    apply ih
    generalize whole : trace ++ event :: rest = labels at long
    cases long with
    | refl => simp at whole
    | silent step' after =>
      obtain ⟨-, rfl⟩ := deterministic.silent _ _ _ _ step step'
      exact after
    | visible step' _ => exact absurd (deterministic.silent _ _ _ _ step step').1 (by simp)
  | @visible s s₁ u event' trace step _ ih =>
    apply ih
    cases long with
    | silent step' _ => exact absurd (deterministic.silent _ _ _ _ step' step).1 (by simp)
    | visible step' after =>
      obtain rfl := deterministic.visible _ _ _ _ step step'
      exact after

/-- No label follows where only silent steps lead to states without steps. -/
theorem Run.labels_of_final
    (final : ∀ label s', ¬ A s label s') (run : Run A s trace u) : trace = [] := by
  cases run with
  | refl => rfl
  | silent step _ => exact absurd step (final _ _)
  | visible step _ => exact absurd step (final _ _)

end CuMetal.Lts
