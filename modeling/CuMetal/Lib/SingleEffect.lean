import CuMetal.Lib.Transition
import Mathlib.Data.List.Nodup

/-!
# Jobs with a single effect

Jobs that each read a cell and write it back in one step. The cells and the values that the jobs
have read are those of the jobs run one after another, in the order of their effects.
-/

namespace CuMetal.SingleEffect

open List Option

variable {ι α V : Type}

/-- The cell of each job, and what each job does to its cell. -/
structure Jobs (ι α V : Type) where
  cell : ι → α
  update : ι → V → V

/-- The cells, and the value that each job has read, once it has had its effect. -/
structure State (ι α V : Type) where
  memory : α → V
  outcome : ι → Option V

variable [DecidableEq ι] [DecidableEq α] (jobs : Jobs ι α V)

/-- A job has its effect; the label is the job with the value read. -/
inductive Step : State ι α V → Option (ι × V) → State ι α V → Prop
  | take {s : State ι α V} {i : ι} (pending : s.outcome i = none) :
      Step s (some (i, s.memory (jobs.cell i)))
        { memory := Function.update s.memory (jobs.cell i)
            (jobs.update i (s.memory (jobs.cell i)))
          outcome := Function.update s.outcome i (some (s.memory (jobs.cell i))) }

/-- The cells after the jobs of a list, one after another. -/
def sequential (memory : α → V) (order : List ι) : α → V :=
  order.foldl
    (fun memory i => Function.update memory (jobs.cell i) (jobs.update i (memory (jobs.cell i))))
    memory

/-- The effects so far account for a state. -/
structure Serial (memory : α → V) (taken : List (ι × V)) (s : State ι α V) : Prop where
  cells : s.memory = sequential jobs memory (taken.map Prod.fst)
  nodup : (taken.map Prod.fst).Nodup
  outcome : ∀ i value, s.outcome i = some value ↔ (i, value) ∈ taken
  values : ∀ before i value after, taken = before ++ (i, value) :: after →
    value = sequential jobs memory (before.map Prod.fst) (jobs.cell i)

variable {jobs} {memory : α → V}

omit [DecidableEq ι] in
theorem Serial.start : Serial jobs memory [] { memory := memory, outcome := fun _ => none } where
  cells := rfl
  nodup := nodup_nil
  outcome := by simp
  values := by simp

variable {taken : List (ι × V)} {s s' : State ι α V}

theorem Serial.step {label : Option (ι × V)} (serial : Serial jobs memory taken s)
    (step : Step jobs s label s') : Serial jobs memory (taken ++ label.toList) s' := by
  cases step with
  | @take i pending =>
    have fresh : ∀ value, (i, value) ∉ taken := by
      intro value member
      rw [(serial.outcome i value).mpr member] at pending
      cases pending
    constructor
    · rw [toList_some, map_append, sequential, foldl_append]
      have before := serial.cells
      rw [sequential] at before
      rw [← before]
      rfl
    · rw [toList_some, map_append, nodup_append]
      refine ⟨serial.nodup, nodup_singleton _, ?_⟩
      rintro job member other last rfl
      obtain ⟨⟨j, value⟩, inside, rfl⟩ := mem_map.mp member
      have same : j = i := by simpa using last
      exact fresh value (same ▸ inside)
    · intro j value
      dsimp only
      rw [toList_some, mem_append, mem_singleton]
      by_cases same : j = i
      · subst same
        rw [Function.update_self, some.injEq, Prod.mk.injEq]
        constructor
        · exact fun read => .inr ⟨rfl, read.symm⟩
        · rintro (before | ⟨-, read⟩)
          · exact absurd before (fresh value)
          · exact read.symm
      · rw [Function.update_of_ne same, serial.outcome, Prod.mk.injEq]
        simp [same]
    · intro before j value after whole
      rw [toList_some] at whole
      rcases eq_nil_or_concat after with rfl | ⟨after, last, rfl⟩
      · obtain ⟨rfl, last⟩ := append_inj' whole rfl
        cases last
        exact congrFun serial.cells _
      · rw [concat_eq_append, ← cons_append, ← append_assoc] at whole
        exact serial.values before j value after (append_inj' whole rfl).1

theorem Serial.run {more : List (ι × V)} (serial : Serial jobs memory taken s)
    (run : Lts.Run (Step jobs) s more s') : Serial jobs memory (taken ++ more) s' := by
  induction run generalizing taken with
  | refl => rwa [append_nil]
  | silent step _ ih => exact nomatch step
  | visible step _ ih =>
    have next := ih (serial.step step)
    rwa [toList_some, append_assoc] at next

end CuMetal.SingleEffect
