import Mathlib.Data.List.Forall2

/-!
# Computations that can fail

What success of a bind or of a `mapM` says about its parts.
-/

namespace CuMetal

open List

variable {α β ε : Type} {f : α → Except ε β}

theorem bind_eq_ok {x : Except ε α} {b : β} (h : (x >>= f) = .ok b) :
    ∃ a, x = .ok a ∧ f a = .ok b := by
  cases x with
  | error e => simp [bind, Except.bind] at h
  | ok a => exact ⟨a, rfl, h⟩

theorem mapM_eq_ok :
    ∀ {xs : List α} {ys : List β}, xs.mapM f = .ok ys →
      List.Forall₂ (fun x y => f x = .ok y) xs ys := by
  intro xs
  induction xs with
  | nil =>
    intro ys h
    rw [mapM_nil] at h
    cases h
    exact .nil
  | cons x xs ih =>
    intro ys h
    rw [mapM_cons] at h
    obtain ⟨y, hy, h⟩ := bind_eq_ok h
    obtain ⟨rest, hrest, h⟩ := bind_eq_ok h
    cases h
    exact .cons hy (ih hrest)

theorem getElem?_of_mapM_range {f : Nat → Except ε β} {n : Nat} {ys : List β}
    (h : (List.range n).mapM f = .ok ys) :
    ys.length = n ∧ ∀ i < n, ∃ y, f i = .ok y ∧ ys[i]? = some y := by
  have all := mapM_eq_ok h
  have length : ys.length = n := by simpa using all.length_eq.symm
  refine ⟨length, fun i bound => ?_⟩
  have here := (forall₂_iff_get.mp all).2 i (by simpa using bound) (length ▸ bound)
  refine ⟨ys.get ⟨i, length ▸ bound⟩, by simpa using here, by simp [length, bound]⟩

theorem mapM_eq_some {f : α → Option β} :
    ∀ {xs : List α} {ys : List β}, xs.mapM f = some ys → xs.map f = ys.map some := by
  intro xs
  induction xs with
  | nil =>
    intro ys h
    rw [mapM_nil] at h
    cases h
    rfl
  | cons x xs ih =>
    intro ys h
    rw [mapM_cons] at h
    obtain ⟨y, found, h⟩ := Option.bind_eq_some_iff.mp h
    obtain ⟨rest, rests, h⟩ := Option.bind_eq_some_iff.mp h
    cases h
    rw [map_cons, map_cons, found, ih rests]

theorem exists_mapM_eq_some {f : α → Option β} :
    ∀ {xs : List α}, (∀ x ∈ xs, ∃ y, f x = some y) →
      ∃ ys, xs.mapM f = some ys ∧ List.Forall₂ (fun x y => f x = some y) xs ys := by
  intro xs
  induction xs with
  | nil => exact fun _ => ⟨[], rfl, .nil⟩
  | cons x xs ih =>
    intro all
    obtain ⟨y, hy⟩ := all x mem_cons_self
    obtain ⟨ys, hys, related⟩ := ih fun z member => all z (mem_cons_of_mem _ member)
    exact ⟨y :: ys, by simp [hy, hys], .cons hy related⟩

end CuMetal
