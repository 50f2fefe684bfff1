/-!
# Folds that report

A loop that threads a state and reports messages: `collect step` runs `step` over a
list and concatenates the messages.  When a whole run reports nothing, no step of
it did, so an invariant that silent steps preserve holds at the end.
-/

namespace CuMetal

variable {σ α δ : Type}

/-- Run `step` over a list, threading the state and gathering the messages in order. -/
def collect (step : σ → α → σ × List δ) : σ → List α → σ × List δ
  | state, [] => (state, [])
  | state, item :: items =>
    ((collect step (step state item).1 items).1,
      (step state item).2 ++ (collect step (step state item).1 items).2)

/-- The invariant rule of a silent run: an invariant of the items done so far and
    the state holds of the whole list. -/
theorem collect_silent (step : σ → α → σ × List δ) (Inv : List α → σ → Prop)
    (preserved : ∀ done item state, Inv done state → (step state item).2 = [] →
      Inv (done ++ [item]) (step state item).1) :
    ∀ (items done : List α) (state : σ), Inv done state →
      (collect step state items).2 = [] →
      Inv (done ++ items) (collect step state items).1 := by
  intro items
  induction items with
  | nil => intro done state holds _; simpa [collect] using holds
  | cons item items ih =>
    intro done state holds silent
    simp only [collect, List.append_eq_nil_iff] at silent
    have next := preserved done item state holds silent.1
    have rest := ih (done ++ [item]) _ next silent.2
    simpa [collect] using rest

theorem collect_invariant (step : σ → α → σ × List δ) (Inv : σ → Prop) :
    ∀ (items : List α) (state : σ), Inv state →
      (∀ item ∈ items, ∀ state, Inv state → Inv (step state item).1) →
      Inv (collect step state items).1 := by
  intro items
  induction items with
  | nil => exact fun _ holds _ => holds
  | cons item items ih =>
    intro state holds keeps
    exact ih _ (keeps item List.mem_cons_self state holds)
      fun later member => keeps later (List.mem_cons_of_mem _ member)

end CuMetal
