/-!
# Maps as lists of bindings

A finite map given by its bindings in insertion order, with the operations a
program performs on an unordered map: lookup, membership, `emplace` (which keeps
an existing binding) and `assign` (which replaces it).  A key has at most one
binding as long as only these operations build the map.
-/

namespace CuMetal

open List Option

/-- The bindings of a finite map, oldest first. -/
abbrev AssocMap (κ ν : Type) := List (κ × ν)

namespace AssocMap

variable {κ ν : Type} [DecidableEq κ]

def find? : AssocMap κ ν → κ → Option ν
  | [], _ => none
  | (k, v) :: rest, key => if k = key then some v else find? rest key

def contains (map : AssocMap κ ν) (key : κ) : Bool := (map.find? key).isSome

/-- Bind a key that has no binding yet; an existing binding stays. -/
def emplace (map : AssocMap κ ν) (key : κ) (value : ν) : AssocMap κ ν :=
  if map.contains key then map else map ++ [(key, value)]

def assign : AssocMap κ ν → κ → ν → AssocMap κ ν
  | [], key, value => [(key, value)]
  | (k, v) :: rest, key, value =>
    if k = key then (k, value) :: rest else (k, v) :: assign rest key value

/-- Bind every key of the second map, replacing the bindings of the first. -/
def assignAll (map updates : AssocMap κ ν) : AssocMap κ ν :=
  updates.foldl (fun map update => map.assign update.1 update.2) map

/-- Whether two maps bind the same keys to the same values. -/
def sameAs [DecidableEq ν] (left right : AssocMap κ ν) : Bool :=
  left.all (fun binding => right.find? binding.1 = left.find? binding.1) &&
    right.all fun binding => left.find? binding.1 = right.find? binding.1

attribute [local simp] find? assign

@[simp] theorem find?_nil (key : κ) : find? ([] : AssocMap κ ν) key = none := rfl

theorem find?_append (left right : AssocMap κ ν) (key : κ) :
    find? (left ++ right) key = (find? left key).or (find? right key) := by
  induction left with
  | nil => simp
  | cons head tail ih =>
    obtain ⟨k, v⟩ := head
    by_cases same : k = key
    · simp [find?, same]
    · simp [find?, same, ih]

variable {map updates : AssocMap κ ν} {key : κ} {value : ν}

theorem find?_eq_none_iff :
    map.find? key = none ↔ ∀ value, (key, value) ∉ map := by
  induction map with
  | nil => simp
  | cons head tail ih =>
    obtain ⟨k, v⟩ := head
    by_cases same : k = key
    · subst same
      simp only [find?, if_true]
      exact ⟨fun absurd => by simp at absurd,
        fun absent => absurd (mem_cons_self) (absent v)⟩
    · simp [find?, same, ih, Ne.symm same]

theorem mem_of_find? (found : map.find? key = some value) : (key, value) ∈ map := by
  induction map with
  | nil => simp at found
  | cons head tail ih =>
    obtain ⟨k, v⟩ := head
    by_cases same : k = key
    · simp only [find?, same, if_true, some.injEq] at found
      simp [same, found]
    · simp only [find?, same, if_false] at found
      exact mem_cons_of_mem _ (ih found)

/-- With distinct keys, lookup returns exactly the bindings of the list. -/
theorem find?_eq_some_iff (distinct : (map.map Prod.fst).Nodup) :
    map.find? key = some value ↔ (key, value) ∈ map := by
  refine ⟨mem_of_find?, ?_⟩
  induction map with
  | nil => simp
  | cons head tail ih =>
    obtain ⟨k, v⟩ := head
    rw [map_cons, nodup_cons] at distinct
    intro member
    rcases mem_cons.mp member with equal | member
    · injection equal with hk hv
      simp [find?, hk, hv]
    · have different : k ≠ key := by
        intro same
        subst same
        exact distinct.1 (List.mem_map.mpr ⟨_, member, rfl⟩)
      simp only [find?, different, if_false]
      exact ih distinct.2 member

theorem contains_eq_false_iff :
    map.contains key = false ↔ key ∉ map.map Prod.fst := by
  rw [contains, isSome_eq_false_iff, isNone_iff_eq_none, find?_eq_none_iff]
  simp [List.mem_map]

theorem emplace_of_fresh
    (fresh : map.contains key = false) : map.emplace key value = map ++ [(key, value)] := by
  simp [emplace, fresh]

theorem find?_assign (map : AssocMap κ ν) (key other : κ) (value : ν) :
    (map.assign key value).find? other = if key = other then some value else map.find? other := by
  induction map with
  | nil => rfl
  | cons head tail ih =>
    obtain ⟨k, v⟩ := head
    by_cases here : k = key
    · subst here
      by_cases same : k = other
      · simp [assign, find?, same]
      · simp [assign, find?, same]
    · by_cases same : k = other
      · subst same
        simp [assign, find?, here, Ne.symm here]
      · simp [assign, find?, here, same, ih]

theorem find?_filter_key (map : AssocMap κ ν) (keeps : κ → Bool) (key : κ) :
    find? (List.filter (fun binding => keeps binding.1) map) key =
      if keeps key then map.find? key else none := by
  induction map with
  | nil => simp
  | cons head tail ih =>
    obtain ⟨k, v⟩ := head
    by_cases kept : keeps k = true
    · rw [filter_cons_of_pos (by simpa using kept)]
      by_cases same : k = key
      · subst same
        simp [find?, kept]
      · simp [find?, same, ih]
    · rw [filter_cons_of_neg (by simpa using kept), ih]
      by_cases same : k = key
      · subst same
        simp [kept]
      · simp [find?, same]

/-- Erasure by value: the other bindings of a key do not count, because there are none. -/
theorem find?_filter_value (distinct : (map.map Prod.fst).Nodup) (keeps : ν → Bool) (key : κ) :
    find? (List.filter (fun binding => keeps binding.2) map) key =
      (map.find? key).filter keeps := by
  induction map with
  | nil => rfl
  | cons head tail ih =>
    obtain ⟨k, v⟩ := head
    rw [map_cons, nodup_cons] at distinct
    by_cases same : k = key
    · subst same
      have absent : find? tail k = none := by
        refine find?_eq_none_iff.mpr fun value mem => distinct.1 ?_
        exact List.mem_map.mpr ⟨_, mem, rfl⟩
      by_cases kept : keeps v = true
      · rw [List.filter_cons_of_pos (by simpa using kept)]
        simp [find?, Option.filter, kept]
      · rw [List.filter_cons_of_neg (by simpa using kept), ih distinct.2, absent]
        simp [find?, Option.filter, kept]
    · have rest := ih distinct.2
      by_cases kept : keeps v = true
      · rw [filter_cons_of_pos (by simpa using kept)]
        simpa [find?, same] using rest
      · rw [filter_cons_of_neg (by simpa using kept)]
        simpa [find?, same] using rest

theorem find?_map_value {ν' : Type} (map : AssocMap κ ν) (f : ν → ν') (key : κ) :
    find? (List.map (fun binding => (binding.1, f binding.2)) map) key = (map.find? key).map f := by
  induction map with
  | nil => rfl
  | cons head tail ih =>
    obtain ⟨k, v⟩ := head
    by_cases same : k = key
    · simp [find?, same]
    · simp [find?, same, ih]

theorem mem_assign {binding : κ × ν}
    (member : binding ∈ map.assign key value) : binding = (key, value) ∨ binding ∈ map := by
  induction map with
  | nil => exact .inl (mem_singleton.mp member)
  | cons head tail ih =>
    obtain ⟨k, v⟩ := head
    unfold assign at member
    split at member
    · next here =>
        rcases mem_cons.mp member with rfl | later
        · exact .inl (here ▸ rfl)
        · exact .inr (mem_cons_of_mem _ later)
    · rcases mem_cons.mp member with rfl | later
      · exact .inr mem_cons_self
      · exact (ih later).imp_right (mem_cons_of_mem _)

theorem find?_of_sameAs [DecidableEq ν] {left right : AssocMap κ ν}
    (same : left.sameAs right = true) (key : κ) : left.find? key = right.find? key := by
  simp only [sameAs, Bool.and_eq_true, List.all_eq_true, decide_eq_true_eq] at same
  cases hl : left.find? key with
  | some value => exact hl ▸ (same.1 (key, value) (mem_of_find? hl)).symm
  | none =>
    cases hr : right.find? key with
    | none => rfl
    | some value => exact hl ▸ hr ▸ same.2 (key, value) (mem_of_find? hr)

/-- The last update of a key counts, and the first map if there is none. -/
theorem find?_assignAll (updates : AssocMap κ ν) (key : κ) :
    ∀ map : AssocMap κ ν, (map.assignAll updates).find? key =
      ((updates.filter fun update => update.1 = key).getLast?.map Prod.snd).or (map.find? key) := by
  induction updates with
  | nil => intro map; rfl
  | cons head tail ih =>
    intro map
    obtain ⟨k, v⟩ := head
    change ((map.assign k v).assignAll tail).find? key = _
    rw [ih, find?_assign]
    by_cases same : k = key
    · rw [if_pos same, filter_cons_of_pos (by simpa using same)]
      cases hlast : (tail.filter fun update => update.1 = key).getLast? with
      | none =>
        rw [getLast?_eq_none_iff.mp hlast]
        rfl
      | some last => simp [getLast?_cons, hlast]
    · rw [if_neg same, filter_cons_of_neg (by simpa using same)]

theorem nodup_assign (distinct : (map.map Prod.fst).Nodup) (key : κ)
    (value : ν) : ((map.assign key value).map Prod.fst).Nodup := by
  have keys : ∀ map : AssocMap κ ν, ∀ k ∈ (map.assign key value).map Prod.fst,
      k = key ∨ k ∈ map.map Prod.fst := by
    intro map k member
    obtain ⟨binding, hbinding, rfl⟩ := mem_map.mp member
    rcases mem_assign hbinding with rfl | earlier
    · exact .inl rfl
    · exact .inr (mem_map_of_mem earlier)
  induction map with
  | nil => simp [assign]
  | cons head tail ih =>
    obtain ⟨k, v⟩ := head
    obtain ⟨absent, rest⟩ := nodup_cons.mp distinct
    unfold assign
    split
    · exact nodup_cons.mpr ⟨absent, rest⟩
    · next different =>
        refine nodup_cons.mpr ⟨fun member => ?_, ih rest⟩
        rcases keys tail k member with same | later
        · exact different same
        · exact absent later

theorem nodup_assignAll (updates : AssocMap κ ν) :
    ∀ {map : AssocMap κ ν}, (map.map Prod.fst).Nodup →
      ((map.assignAll updates).map Prod.fst).Nodup := by
  induction updates with
  | nil => exact fun distinct => distinct
  | cons head tail ih => exact fun distinct => ih (nodup_assign distinct head.1 head.2)

theorem find?_assignAll_of_nodup (distinct : (updates.map Prod.fst).Nodup) (key : κ) :
    ∀ map : AssocMap κ ν, (map.assignAll updates).find? key =
      (updates.find? key).or (map.find? key) := by
  induction updates with
  | nil => intro map; rfl
  | cons head tail ih =>
    intro map
    obtain ⟨k, v⟩ := head
    obtain ⟨absent, rest⟩ := nodup_cons.mp distinct
    change ((map.assign k v).assignAll tail).find? key = _
    rw [ih rest, find?_assign]
    by_cases same : k = key
    · subst same
      have none : AssocMap.find? tail k = none := by
        rw [find?_eq_none_iff]
        exact fun value member => absent (mem_map.mpr ⟨_, member, rfl⟩)
      simp [find?, none]
    · simp [find?, same]

theorem mem_of_find?_assignAll
    (found : (assignAll [] updates).find? key = some value) : (key, value) ∈ updates := by
  rw [find?_assignAll, find?_nil, or_none, map_eq_some_iff] at found
  obtain ⟨⟨k, v⟩, last, rfl⟩ := found
  have mem := mem_of_getLast? last
  rw [mem_filter, decide_eq_true_eq] at mem
  exact mem.2 ▸ mem.1

theorem find?_assignAll_of_unique
    (mem : (key, value) ∈ updates) (same : ∀ other, (key, other) ∈ updates → other = value) :
    (map.assignAll updates).find? key = some value := by
  rw [find?_assignAll]
  cases last : (updates.filter fun update => update.1 = key).getLast? with
  | none =>
    rw [getLast?_eq_none_iff, filter_eq_nil_iff] at last
    exact absurd (last _ mem) (by simp)
  | some update =>
    have updated := mem_of_getLast? last
    obtain ⟨k, v⟩ := update
    rw [mem_filter, decide_eq_true_eq] at updated
    obtain ⟨updated, rfl⟩ := updated
    rw [same v updated]
    rfl

theorem find?_assignAll_append {first last : AssocMap κ ν}
    (distinct : (last.map Prod.fst).Nodup) (mem : (key, value) ∈ last)
    (map : AssocMap κ ν) : (map.assignAll (first ++ last)).find? key = some value := by
  have split : map.assignAll (first ++ last) = (map.assignAll first).assignAll last :=
    foldl_append
  rw [split, find?_assignAll_of_nodup distinct, (find?_eq_some_iff distinct).mpr mem]
  rfl

end AssocMap

end CuMetal
