import CuMetal.Lib.AssocMap
import Mathlib.Algebra.Order.BigOperators.Group.List
import Mathlib.Algebra.Order.Ring.Nat
import Mathlib.Order.Interval.Finset.Nat

/-!
# Totals over maps

Erasure and change of one binding of a map, what the values of a map weigh together, and how much
room intervals take that do not overlap.
-/

namespace CuMetal

open List

namespace AssocMap

variable {κ ν : Type} [DecidableEq κ] {map : AssocMap κ ν} {key : κ} {value : ν}

def remove (map : AssocMap κ ν) (key : κ) : AssocMap κ ν :=
  List.filter (fun binding => binding.1 ≠ key) map

def change (map : AssocMap κ ν) (key : κ) (f : ν → ν) : AssocMap κ ν :=
  List.map (fun binding => if binding.1 = key then (binding.1, f binding.2) else binding) map

omit [DecidableEq κ] in
def total (map : AssocMap κ ν) (weight : ν → Nat) : Nat :=
  (List.map (fun binding => weight binding.2) map).sum

variable {binding : κ × ν} {f : ν → ν}

@[simp] theorem mem_remove : binding ∈ map.remove key ↔ binding ∈ map ∧ binding.1 ≠ key := by
  simp [remove]

theorem mem_change :
    binding ∈ map.change key f ↔
      (binding ∈ map ∧ binding.1 ≠ key) ∨ ∃ value, (key, value) ∈ map ∧ binding = (key, f value) := by
  unfold change
  rw [mem_map]
  constructor
  · rintro ⟨⟨other, value⟩, mem, rfl⟩
    by_cases same : other = key
    · subst same
      exact .inr ⟨value, mem, by simp⟩
    · exact .inl (by simpa [same] using mem)
  · rintro (⟨mem, different⟩ | ⟨value, mem, rfl⟩)
    · exact ⟨binding, mem, by simp [different]⟩
    · exact ⟨(key, value), mem, by simp⟩

@[simp] theorem keys_change (f : ν → ν) :
    (map.change key f).map Prod.fst = map.map Prod.fst := by
  unfold change
  rw [map_map]
  refine map_congr_left fun binding _ => ?_
  by_cases same : binding.1 = key <;> simp [same]

theorem nodup_remove (distinct : (map.map Prod.fst).Nodup) :
    ((map.remove key).map Prod.fst).Nodup :=
  distinct.sublist (filter_sublist.map _)

omit [DecidableEq κ] in
theorem value_unique (distinct : (map.map Prod.fst).Nodup) {other : ν}
    (mem : (key, value) ∈ map) (mem' : (key, other) ∈ map) : value = other := by
  induction map with
  | nil => cases mem
  | cons first rest ih =>
    rw [map_cons, nodup_cons] at distinct
    have absent : ∀ value, (key, value) ∈ rest → key = first.1 → False := by
      rintro value later rfl
      exact distinct.1 (mem_map.mpr ⟨_, later, rfl⟩)
    rcases mem_cons.mp mem with here | later <;>
      rcases mem_cons.mp mem' with here' | later'
    · exact congrArg Prod.snd (here.trans here'.symm)
    · exact (absent other later' (by rw [← here])).elim
    · exact (absent value later (by rw [← here'])).elim
    · exact ih distinct.2 later later'

theorem find?_change (f : ν → ν) (other : κ) :
    (map.change key f).find? other =
      if other = key then (map.find? key).map f else map.find? other := by
  induction map with
  | nil => simp [change]
  | cons first rest ih =>
    obtain ⟨k, v⟩ := first
    have split : change ((k, v) :: rest) key f =
        (if k = key then (k, f v) else (k, v)) :: change rest key f := rfl
    rw [split]
    by_cases here : k = key
    · subst here
      by_cases same : other = k
      · simp [find?, same]
      · simp [find?, same, Ne.symm same, ih]
    · by_cases same : other = key
      · subst same
        simp [find?, here, ih]
      · simp [find?, here, same, ih]

theorem find?_remove (other : κ) :
    (map.remove key).find? other = if other = key then none else map.find? other := by
  have erased := find?_filter_key map (fun k => k ≠ key) other
  unfold remove
  rw [erased]
  by_cases same : other = key <;> simp [same]

theorem assign_of_absent (absent : ∀ value, (key, value) ∉ map) (value : ν) :
    map.assign key value = map ++ [(key, value)] := by
  induction map with
  | nil => rfl
  | cons first rest ih =>
    have different : first.1 ≠ key := by
      rintro rfl
      exact absent first.2 mem_cons_self
    have rest_same := ih fun value mem => absent value (mem_cons_of_mem _ mem)
    simp [assign, different, rest_same]

section Totals

omit [DecidableEq κ]

@[simp] theorem total_nil (weight : ν → Nat) : total ([] : AssocMap κ ν) weight = 0 := rfl

@[simp] theorem total_cons (binding : κ × ν) (weight : ν → Nat) :
    total (binding :: map) weight = weight binding.2 + total map weight := rfl

@[simp] theorem total_append (map rest : AssocMap κ ν) (weight : ν → Nat) :
    total (map ++ rest) weight = total map weight + total rest weight := by
  simp [total]

variable {weight : ν → Nat}

theorem total_le {other : ν → Nat} (less : ∀ binding ∈ map, weight binding.2 ≤ other binding.2) :
    map.total weight ≤ map.total other :=
  sum_le_sum less

theorem total_eq_zero (weightless : ∀ binding ∈ map, weight binding.2 = 0) : map.total weight = 0 :=
  sum_eq_zero fun _ mem => by
    obtain ⟨binding, binding_mem, rfl⟩ := mem_map.mp mem
    exact weightless binding binding_mem

end Totals

theorem change_of_absent (absent : ∀ value, (key, value) ∉ map) : map.change key f = map := by
  refine (map_congr_left fun binding mem => ?_).trans (map_id _)
  have different : binding.1 ≠ key := by
    rintro rfl
    exact absent binding.2 mem
  simp [different]

theorem remove_of_absent (absent : ∀ value, (key, value) ∉ map) : map.remove key = map := by
  refine filter_eq_self.mpr fun binding mem => ?_
  have different : binding.1 ≠ key := by
    rintro rfl
    exact absent binding.2 mem
  simpa using different

/-- With distinct keys, to erase the first binding of a key is to erase them all. -/
theorem eraseP_eq_remove (distinct : (map.map Prod.fst).Nodup) :
    List.eraseP (fun binding => binding.1 = key) map = map.remove key := by
  induction map with
  | nil => rfl
  | cons first rest ih =>
    obtain ⟨k, v⟩ := first
    rw [map_cons, nodup_cons] at distinct
    by_cases here : k = key
    · subst here
      have split : remove ((k, v) :: rest) k = remove rest k := by simp [remove]
      rw [eraseP_cons_of_pos (by simp), split]
      exact (remove_of_absent fun value mem =>
        distinct.1 (mem_map.mpr ⟨_, mem, rfl⟩)).symm
    · have split : remove ((k, v) :: rest) key = (k, v) :: remove rest key := by
        simp [remove, here]
      rw [eraseP_cons_of_neg (by simpa using here), ih distinct.2, split]

/-- A change moves the total by what the value of the key weighed before and after. -/
theorem total_change (f : ν → ν) (weight : ν → Nat) (distinct : (map.map Prod.fst).Nodup)
    (mem : (key, value) ∈ map) :
    (map.change key f).total weight + weight value = map.total weight + weight (f value) := by
  induction map with
  | nil => cases mem
  | cons first rest ih =>
    obtain ⟨other, here⟩ := first
    rw [map_cons, nodup_cons] at distinct
    have split : change ((other, here) :: rest) key f =
        (if other = key then (other, f here) else (other, here)) :: change rest key f := rfl
    rw [split]
    rcases mem_cons.mp mem with same | later
    · obtain ⟨rfl, rfl⟩ := Prod.mk.inj same
      rw [change_of_absent fun value later => distinct.1 (mem_map.mpr ⟨_, later, rfl⟩)]
      simp only [if_true, total_cons]
      omega
    · have different : other ≠ key := by
        rintro rfl
        exact distinct.1 (mem_map.mpr ⟨_, later, rfl⟩)
      have moved := ih distinct.2 later
      simp only [different, if_false, total_cons]
      omega

theorem total_remove (weight : ν → Nat) (distinct : (map.map Prod.fst).Nodup)
    (mem : (key, value) ∈ map) : (map.remove key).total weight + weight value = map.total weight := by
  induction map with
  | nil => cases mem
  | cons first rest ih =>
    obtain ⟨other, here⟩ := first
    rw [map_cons, nodup_cons] at distinct
    rcases mem_cons.mp mem with same | later
    · obtain ⟨rfl, rfl⟩ := Prod.mk.inj same
      have rest_same : remove rest key = rest := remove_of_absent fun value later =>
        distinct.1 (mem_map.mpr ⟨_, later, rfl⟩)
      have split : remove ((key, value) :: rest) key = remove rest key := by simp [remove]
      rw [split, rest_same, total_cons, add_comm]
    · have different : other ≠ key := by
        rintro rfl
        exact distinct.1 (mem_map.mpr ⟨_, later, rfl⟩)
      have split : remove ((other, here) :: rest) key = (other, here) :: remove rest key := by
        simp [remove, different]
      have less := ih distinct.2 later
      rw [split, total_cons, total_cons]
      omega

end AssocMap

namespace Intervals

abbrev Interval := Nat × Nat

/-- One of the intervals ends before the other one starts. -/
def Apart (first second : Interval) : Prop :=
  first.1 + first.2 ≤ second.1 ∨ second.1 + second.2 ≤ first.1

def covered : List Interval → Finset Nat
  | [] => ∅
  | first :: rest => Finset.Ico first.1 (first.1 + first.2) ∪ covered rest

variable {intervals : List Interval}

theorem mem_covered {point : Nat} :
    point ∈ covered intervals ↔
      ∃ interval ∈ intervals, interval.1 ≤ point ∧ point < interval.1 + interval.2 := by
  induction intervals with
  | nil => simp [covered]
  | cons first rest ih => simp [covered, ih]

theorem card_covered (apart : intervals.Pairwise Apart) :
    (covered intervals).card = (intervals.map Prod.snd).sum := by
  induction intervals with
  | nil => rfl
  | cons first rest ih =>
    obtain ⟨separate, later⟩ := pairwise_cons.mp apart
    have disjoint : Disjoint (Finset.Ico first.1 (first.1 + first.2)) (covered rest) := by
      rw [Finset.disjoint_left]
      intro point mem mem'
      obtain ⟨other, other_mem, low, high⟩ := mem_covered.mp mem'
      have here := Finset.mem_Ico.mp mem
      rcases separate other other_mem with before | after <;> omega
    rw [covered, Finset.card_union_of_disjoint disjoint, ih later, Nat.card_Ico, map_cons,
      sum_cons]
    omega

/-- Intervals that are apart are together no longer than the space they lie in. -/
theorem sum_le_of_apart {limit : Nat} (apart : intervals.Pairwise Apart)
    (inside : ∀ interval ∈ intervals, interval.1 + interval.2 ≤ limit) :
    (intervals.map Prod.snd).sum ≤ limit := by
  rw [← card_covered apart]
  have within : covered intervals ⊆ Finset.range limit := by
    intro point mem
    obtain ⟨interval, interval_mem, -, high⟩ := mem_covered.mp mem
    have := inside interval interval_mem
    exact Finset.mem_range.mpr (by omega)
  simpa using Finset.card_le_card within

end Intervals

end CuMetal
