import Mathlib.Algebra.Group.Nat.Defs
import Mathlib.Order.Lattice
import Mathlib.Data.List.Pairwise

/-!
# Ordered maps

`std::map` as the list of its entries in the order of their keys: the bounds that its iterators
give, insertion, and erasure of the entries that a predicate selects.
-/

namespace CuMetal

open List

/-- Words are ordered as numbers. -/
instance bitVecLinearOrder (w : Nat) : LinearOrder (BitVec w) where
  le_refl := BitVec.le_refl
  le_trans := fun _ _ _ => BitVec.le_trans
  le_antisymm := fun _ _ => BitVec.le_antisymm
  le_total := BitVec.le_total
  lt_iff_le_not_ge := fun x y => by
    rw [BitVec.lt_def, BitVec.le_def, BitVec.le_def]
    omega
  toDecidableLE := inferInstance
  toDecidableLT := inferInstance
  toDecidableEq := inferInstance

/-- A map with ordered keys, as its entries from the least key on. -/
structure OrderedMap (κ ν : Type) [LinearOrder κ] where
  entries : List (κ × ν)
  sorted : entries.Pairwise fun first second => first.1 < second.1

namespace OrderedMap

variable {κ ν : Type} [LinearOrder κ] (map : OrderedMap κ ν) (key : κ)

def empty : OrderedMap κ ν := ⟨[], List.Pairwise.nil⟩

def find : Option (κ × ν) := map.entries.find? fun entry => entry.1 = key

/-- The first entry whose key is not less: what `lower_bound` points to. -/
def lowerBound : Option (κ × ν) := map.entries.find? fun entry => key ≤ entry.1

/-- The last entry whose key is less: what precedes `lower_bound`. -/
def beforeLowerBound : Option (κ × ν) := (map.entries.takeWhile fun entry => entry.1 < key).getLast?

/-- The last entry whose key is not greater: what precedes `upper_bound`. -/
def beforeUpperBound : Option (κ × ν) := (map.entries.takeWhile fun entry => entry.1 ≤ key).getLast?

/-- The entries that a predicate keeps, the others having been erased. -/
def filter (keeps : κ × ν → Bool) : OrderedMap κ ν where
  entries := map.entries.filter keeps
  sorted := map.sorted.filter keeps

/-- `map[key] = value`. -/
def assign (value : ν) : OrderedMap κ ν where
  entries := map.entries.filter (fun entry => entry.1 < key) ++ (key, value) ::
    map.entries.filter (fun entry => key < entry.1)
  sorted := by
    rw [List.pairwise_append, List.pairwise_cons]
    refine ⟨map.sorted.filter _, ⟨?_, map.sorted.filter _⟩, ?_⟩
    · intro entry mem
      simpa using (List.mem_filter.mp mem).2
    · intro first before second after
      have low : first.1 < key := by simpa using (List.mem_filter.mp before).2
      rcases List.mem_cons.mp after with rfl | above
      · exact low
      · exact lt_trans low (by simpa using (List.mem_filter.mp above).2)

variable {map key}

variable {entry other : κ × ν}

theorem mem_empty : entry ∉ (empty : OrderedMap κ ν).entries :=
  not_mem_nil

theorem eq_of_key {first second : κ × ν} (mem : first ∈ map.entries)
    (mem' : second ∈ map.entries) (same : first.1 = second.1) : first = second := by
  by_contra different
  have keys : map.entries.Pairwise fun first second => first.1 ≠ second.1 :=
    map.sorted.imp ne_of_lt
  have symmetric : Std.Symm fun first second : κ × ν => first.1 ≠ second.1 := ⟨fun _ _ => Ne.symm⟩
  exact keys.forall mem mem' different same

@[simp] theorem mem_filter {keeps : κ × ν → Bool} :
    entry ∈ (map.filter keeps).entries ↔ entry ∈ map.entries ∧ keeps entry :=
  List.mem_filter

theorem mem_assign {value : ν} :
    entry ∈ (map.assign key value).entries ↔
      entry = (key, value) ∨ (entry ∈ map.entries ∧ entry.1 ≠ key) := by
  simp only [assign, List.mem_append, List.mem_cons, List.mem_filter, decide_eq_true_eq]
  constructor
  · rintro (⟨mem, less⟩ | rfl | ⟨mem, greater⟩)
    · exact Or.inr ⟨mem, ne_of_lt less⟩
    · exact Or.inl rfl
    · exact .inr ⟨mem, ne_of_gt greater⟩
  · rintro (rfl | ⟨mem, different⟩)
    · exact .inr (.inl rfl)
    · rcases lt_or_gt_of_ne different with less | greater
      · exact .inl ⟨mem, less⟩
      · exact .inr (.inr ⟨mem, greater⟩)

theorem find_eq_some_iff :
    map.find key = some entry ↔ entry ∈ map.entries ∧ entry.1 = key := by
  constructor
  · intro found
    exact ⟨mem_of_find?_eq_some found, by simpa using find?_some found⟩
  · rintro ⟨mem, rfl⟩
    obtain ⟨other, found⟩ := Option.isSome_iff_exists.mp
      (find?_isSome.mpr ⟨entry, mem, by simp⟩ : (map.find entry.1).isSome)
    have same : other.1 = entry.1 := by simpa using find?_some found
    exact found.trans (congrArg some (eq_of_key (mem_of_find?_eq_some found) mem same))

theorem find_eq_none_iff : map.find key = none ↔ ∀ entry ∈ map.entries, entry.1 ≠ key := by
  simp [find]

theorem lowerBound_le (bound : map.lowerBound key = some entry)
    (mem : other ∈ map.entries) (above : key ≤ other.1) : entry.1 ≤ other.1 := by
  obtain ⟨-, before, after, whole, skipped⟩ := find?_eq_some_iff_append.mp bound
  rw [whole] at mem
  rcases mem_append.mp mem with early | late
  · have low := skipped other early
    simp [above] at low
  · rcases mem_cons.mp late with rfl | later
    · exact le_refl _
    · have sorted := map.sorted
      rw [whole, pairwise_append, pairwise_cons] at sorted
      exact le_of_lt (sorted.2.1.1 other later)

theorem lt_of_lowerBound_none (bound : map.lowerBound key = none)
    (mem : other ∈ map.entries) : other.1 < key := by
  have low := find?_eq_none.mp bound other mem
  simpa using low

section

variable (accepts : κ → Bool)
  (closed : ∀ low high, low < high → accepts high = true → accepts low = true)

include accepts closed

/-- The entries that precede a bound are those that the bound's test accepts. -/
theorem mem_takeWhile :
    entry ∈ map.entries.takeWhile (fun entry => accepts entry.1) ↔
      entry ∈ map.entries ∧ accepts entry.1 = true := by
  have sorted := map.sorted
  generalize map.entries = entries at sorted ⊢
  induction entries with
  | nil => simp
  | cons first rest ih =>
    rw [pairwise_cons] at sorted
    rw [takeWhile_cons]
    by_cases accepted : accepts first.1 = true
    · simp only [accepted, if_true, mem_cons, ih sorted.2]
      constructor
      · rintro (rfl | ⟨mem, holds⟩)
        · exact ⟨.inl rfl, accepted⟩
        · exact ⟨.inr mem, holds⟩
      · rintro ⟨rfl | mem, holds⟩
        · exact .inl rfl
        · exact .inr ⟨mem, holds⟩
    · simp only [accepted, mem_cons]
      constructor
      · simp
      · rintro ⟨rfl | mem, holds⟩
        · exact absurd holds accepted
        · exact absurd (closed _ _ (sorted.1 entry mem) holds) accepted

theorem getLast?_takeWhile
    (last : (map.entries.takeWhile (fun entry => accepts entry.1)).getLast? = some entry) :
    (entry ∈ map.entries ∧ accepts entry.1 = true) ∧
      ∀ other ∈ map.entries, accepts other.1 = true → other.1 ≤ entry.1 := by
  obtain ⟨before, whole⟩ := getLast?_eq_some_iff.mp last
  have sorted : (map.entries.takeWhile fun entry => accepts entry.1).Pairwise
      fun first second => first.1 < second.1 :=
    map.sorted.sublist (takeWhile_sublist _)
  refine ⟨(mem_takeWhile accepts closed).mp (by rw [whole]; simp), fun other mem holds => ?_⟩
  have early := (mem_takeWhile accepts closed).mpr ⟨mem, holds⟩
  rw [whole] at early sorted
  rcases mem_append.mp early with first | same
  · exact le_of_lt ((pairwise_append.mp sorted).2.2 other first entry (by simp))
  · rw [mem_singleton.mp same]

theorem getLast?_takeWhile_none
    (last : (map.entries.takeWhile (fun entry => accepts entry.1)).getLast? = none)
 (mem : other ∈ map.entries) : accepts other.1 = false := by
  by_contra holds
  have early := (mem_takeWhile accepts closed).mpr ⟨mem, by simpa using holds⟩
  rw [getLast?_eq_none_iff.mp last] at early
  exact not_mem_nil early

end

theorem beforeLowerBound_spec (bound : map.beforeLowerBound key = some entry) :
    (entry ∈ map.entries ∧ entry.1 < key) ∧
      ∀ other ∈ map.entries, other.1 < key → other.1 ≤ entry.1 := by
  have spec := getLast?_takeWhile (fun k => decide (k < key))
    (fun _ _ less low => by simpa using lt_trans less (by simpa using low)) bound
  simpa using spec

theorem le_of_beforeLowerBound_none (bound : map.beforeLowerBound key = none)
 (mem : other ∈ map.entries) : key ≤ other.1 := by
  have spec := getLast?_takeWhile_none (fun k => decide (k < key))
    (fun _ _ less low => by simpa using lt_trans less (by simpa using low)) bound mem
  simpa using spec

theorem beforeUpperBound_spec (bound : map.beforeUpperBound key = some entry) :
    (entry ∈ map.entries ∧ entry.1 ≤ key) ∧
      ∀ other ∈ map.entries, other.1 ≤ key → other.1 ≤ entry.1 := by
  have spec := getLast?_takeWhile (fun k => decide (k ≤ key))
    (fun _ _ less low => by simpa using le_trans (le_of_lt less) (by simpa using low)) bound
  simpa using spec

theorem lt_of_beforeUpperBound_none (bound : map.beforeUpperBound key = none)
 (mem : other ∈ map.entries) : key < other.1 := by
  have spec := getLast?_takeWhile_none (fun k => decide (k ≤ key))
    (fun _ _ less low => by simpa using le_trans (le_of_lt less) (by simpa using low)) bound mem
  simpa using spec

end OrderedMap

end CuMetal
