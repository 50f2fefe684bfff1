import Mathlib.Logic.Function.Iterate

/-!
# Passes until nothing changes

The loop `while (changed) { changed = false; ... }`, with a bound on the number of passes.
A measure that every changing pass lowers shows that the bound is not met; and a pass
that changes nothing may as well be repeated, so the loop is an iteration of the pass.
-/

namespace CuMetal

open List

variable {σ : Type}

/-- Repeat a pass while it reports a change, `limit` times at most. -/
def untilUnchanged (pass : σ → σ × Bool) : Nat → σ → σ
  | 0, state => state
  | limit + 1, state =>
    if (pass state).2 then untilUnchanged pass limit (pass state).1 else (pass state).1

/-- Where an unchanging pass leaves the state alone, stopping early makes no difference. -/
theorem untilUnchanged_eq_iterate {pass : σ → σ × Bool}
    (unchanged : ∀ state, (pass state).2 = false → (pass state).1 = state) :
    ∀ (limit : Nat) (state : σ),
      untilUnchanged pass limit state = (fun s => (pass s).1)^[limit] state := by
  intro limit
  induction limit with
  | zero => intro state; rfl
  | succ limit ih =>
    intro state
    unfold untilUnchanged
    rw [Function.iterate_succ_apply]
    by_cases changed : (pass state).2 = true
    · rw [if_pos changed, ih]
    · have still : (pass state).1 = state := unchanged state (Bool.eq_false_iff.mpr changed)
      rw [if_neg changed, still, Function.iterate_fixed still]

/-- The loop ends, and leaves this state. -/
inductive RunsTo (pass : σ → σ × Bool) : σ → σ → Prop
  | silent {state : σ} : (pass state).2 = false → RunsTo pass state (pass state).1
  | again {state last : σ} : (pass state).2 = true → RunsTo pass (pass state).1 last →
      RunsTo pass state last

/-- With an invariant and a measure that changing passes lower, the loop ends in the state
    that the bounded one leaves. -/
theorem untilUnchanged_runsTo (pass : σ → σ × Bool) (Inv : σ → Prop) (measure : σ → Nat)
    (step : ∀ state, Inv state → Inv (pass state).1 ∧
      ((pass state).2 = true → measure (pass state).1 < measure state)) :
    ∀ (limit : Nat) (state : σ), Inv state → measure state < limit →
      RunsTo pass state (untilUnchanged pass limit state) := by
  intro limit
  induction limit with
  | zero => intro state _ few; omega
  | succ limit ih =>
    intro state holds few
    obtain ⟨keeps, lowers⟩ := step state holds
    unfold untilUnchanged
    by_cases changed : (pass state).2 = true
    · have lower := lowers changed
      rw [if_pos changed]
      exact .again changed (ih _ keeps (by omega))
    · rw [if_neg changed]
      exact .silent (Bool.eq_false_iff.mpr changed)

/-- The last pass of a loop that ends changes nothing. -/
theorem RunsTo.last {pass : σ → σ × Bool} {Inv : σ → Prop}
    (step : ∀ state, Inv state → Inv (pass state).1) {state final : σ}
    (run : RunsTo pass state final) (holds : Inv state) :
    ∃ last, Inv last ∧ (pass last).2 = false ∧ final = (pass last).1 := by
  induction run with
  | silent unchanged => exact ⟨_, holds, unchanged, rfl⟩
  | again _ _ ih => exact ih (step _ holds)

/-- With an invariant and a measure that changing passes lower, the last pass of the loop
    changes nothing. -/
theorem untilUnchanged_spec (pass : σ → σ × Bool) (Inv : σ → Prop) (measure : σ → Nat)
    (step : ∀ state, Inv state → Inv (pass state).1 ∧
      ((pass state).2 = true → measure (pass state).1 < measure state))
    (limit : Nat) (state : σ) (holds : Inv state) (few : measure state < limit) :
      ∃ last, Inv last ∧ (pass last).2 = false ∧
        untilUnchanged pass limit state = (pass last).1 :=
  (untilUnchanged_runsTo pass Inv measure step limit state holds few).last
    (fun state holds => (step state holds).1) holds

theorem RunsTo.invariant {pass : σ → σ × Bool} (Inv : σ → Prop)
    (step : ∀ state, Inv state → Inv (pass state).1) {state last : σ}
    (run : RunsTo pass state last) (holds : Inv state) : Inv last := by
  induction run with
  | silent _ => exact step _ holds
  | again _ _ ih => exact ih (step _ holds)

section

variable {τ : Type} {pass : σ → σ × Bool} {other : τ → τ × Bool} (R : σ → τ → Prop)
  (step : ∀ state state', R state state' → R (pass state).1 (other state').1 ∧ (pass state).2 =
    (other state').2)

include R step

/-- Two loops whose passes agree on related states end in related states. -/
theorem RunsTo.simulates {state last : σ} (run : RunsTo pass state last) :
    ∀ state', R state state' → ∃ last', RunsTo other state' last' ∧ R last last' := by
  induction run with
  | silent quiet =>
    intro state' related
    obtain ⟨keeps, flags⟩ := step _ _ related
    exact ⟨_, .silent (flags ▸ quiet), keeps⟩
  | again changed _ ih =>
    intro state' related
    obtain ⟨keeps, flags⟩ := step _ _ related
    obtain ⟨last', run', keeps'⟩ := ih _ keeps
    exact ⟨last', .again (flags ▸ changed) run', keeps'⟩

/-- Two bounded loops whose passes agree on related states leave related states. -/
theorem untilUnchanged_simulates :
    ∀ (limit : Nat) (state : σ) (state' : τ), R state state' →
      R (untilUnchanged pass limit state) (untilUnchanged other limit state') := by
  intro limit
  induction limit with
  | zero => exact fun _ _ related => related
  | succ limit ih =>
    intro state state' related
    obtain ⟨keeps, flags⟩ := step state state' related
    unfold untilUnchanged
    rw [flags]
    split
    · exact ih _ _ keeps
    · exact keeps

end

/-- If every update either leaves the state or raises the flag, a pass of updates that
    does not raise the flag leaves the state. -/
theorem foldl_eq_of_flag_false {α : Type} (update : σ × Bool → α → σ × Bool)
    (raises : ∀ state item, update state item = state ∨ (update state item).2 = true) :
    ∀ (items : List α) (state : σ × Bool), (items.foldl update state).2 = false →
      items.foldl update state = state := by
  have stays : ∀ (items : List α) (state : σ × Bool), state.2 = true →
      (items.foldl update state).2 = true := by
    intro items
    induction items with
    | nil => exact fun state raised => raised
    | cons item items ih =>
      intro state raised
      rw [foldl_cons]
      rcases raises state item with same | raised'
      · exact ih _ (by rw [same]; exact raised)
      · exact ih _ raised'
  intro items
  induction items with
  | nil => exact fun state _ => rfl
  | cons item items ih =>
    intro state quiet
    rw [foldl_cons] at quiet ⊢
    rcases raises state item with same | raised
    · rw [same] at quiet ⊢
      exact ih state quiet
    · rw [stays items _ raised] at quiet
      exact absurd quiet (by simp)

/-- In a pass that does not raise the flag, no single update changes anything. -/
theorem update_eq_of_flag_false {α : Type} (update : σ × Bool → α → σ × Bool)
    (raises : ∀ state item, update state item = state ∨ (update state item).2 = true)
    {items : List α} {state : σ × Bool} (quiet : (items.foldl update state).2 = false) {item : α}
    (member : item ∈ items) : update state item = state := by
  obtain ⟨before, later, rfl⟩ := append_of_mem member
  rw [foldl_append, foldl_cons] at quiet
  -- the flag stays down from the start, so the updates before the item change nothing
  have down : ∀ (rest : List α) (s : σ × Bool), (rest.foldl update s).2 = false → s.2 = false := by
    intro rest
    induction rest with
    | nil => exact fun s quiet => quiet
    | cons head rest ih =>
      intro s quiet
      rcases raises s head with same | raised
      · exact ih s (by rw [foldl_cons, same] at quiet; exact quiet)
      · exact absurd (ih _ quiet) (by rw [raised]; simp)
  have lowered := down later _ quiet
  have start := foldl_eq_of_flag_false update raises before state (by
    rcases raises (before.foldl update state) item with same | raised
    · rw [same] at lowered; exact lowered
    · rw [raised] at lowered; cases lowered)
  rw [start] at lowered
  rcases raises state item with same | raised
  · exact same
  · rw [raised] at lowered; cases lowered

end CuMetal
