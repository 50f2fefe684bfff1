import Mathlib.Data.List.Basic

/-!
# Runs of a text

The longest run of letters at the start of a text, and what is behind it.
-/

namespace CuMetal.Runs

open List

variable {α : Type*} {letter : α → Bool} {letters rest : List α}

theorem takeWhile_append_stop (all : ∀ c ∈ letters, letter c = true)
    (stop : ∀ c ∈ rest.head?, letter c = false) :
    (letters ++ rest).takeWhile letter = letters := by
  rw [takeWhile_append_of_pos all]
  cases rest with
  | nil => simp
  | cons c rest => simp [stop c rfl]

theorem dropWhile_append_stop (all : ∀ c ∈ letters, letter c = true)
    (stop : ∀ c ∈ rest.head?, letter c = false) :
    (letters ++ rest).dropWhile letter = rest := by
  rw [dropWhile_append_of_pos all]
  cases rest with
  | nil => simp
  | cons c rest => simp [stop c rfl]

end CuMetal.Runs
